import ContractBench.Json.Value
import ContractBench.Transaction.Basic
/-!
# Transactions as JSON

A transaction is one object: its head, a `type`, and the keys of that type. Heads and application
calls have defaults; written out, every key is there. Addresses are read by `Address.ofText` and
written as hex. Other keys are ignored, but what they hold must be readable.
-/

namespace ContractBench

open Json (Fields)

namespace Address

def ofJson? (j : Json) : Option Address := do (ofText (← j.string?)).toOption

def toJson (a : Address) : Json := .str a.toHex

end Address

namespace TransactionType

def ofJson? (j : Json) : Option TransactionType := do ofName? (← j.choice?)

def toJson (t : TransactionType) : Json := .str t.name

end TransactionType

namespace OnComplete

def ofJson? (j : Json) : Option OnComplete := do ofName? (← j.choice?)

/-- An action as a field of a transaction. -/
def ofField? (j : Json) : Option OnComplete := do ofName? (← j.choiceOrEmpty?)

def toJson (c : OnComplete) : Json := .str c.name

end OnComplete

namespace TransactionKind

/-- The word that names a type in a transaction object. -/
def tag : TransactionType → String
  | .payment => "payment"
  | .keyRegistration => "key_registration"
  | .assetConfig => "asset_config"
  | .assetTransfer => "asset_transfer"
  | .assetFreeze => "asset_freeze"
  | .applicationCall => "application_call"

/-- A type by its word, or by its position among all types. -/
def tag? : Json → Option TransactionType
  | .str s => TransactionType.all.find? (tag · == s)
  | .nat n => TransactionType.all[n]?
  | _ => none

/-- The keys of a type. -/
def keys : TransactionType → List String
  | .payment => ["receiver", "amount", "close_remainder_to"]
  | .keyRegistration => []
  | .assetConfig => ["asset_id"]
  | .assetTransfer => ["asset_id", "receiver", "amount"]
  | .assetFreeze => ["asset_id", "target", "frozen"]
  | .applicationCall => ["app_id", "on_completion", "args", "accounts"]

/-- The data of a type from its fields. -/
def ofFields? (f : Fields) : TransactionType → Option TransactionKind
  | .payment => do
    return .payment (← f.required "receiver" Address.ofJson?) (← f.required "amount" Json.word?)
      (← f.optional "close_remainder_to" Address.ofJson?)
  | .keyRegistration => some .keyRegistration
  | .assetConfig => do return .assetConfig (← f.withDefault "asset_id" Json.word? 0)
  | .assetTransfer => do
    return .assetTransfer (← f.required "asset_id" Json.word?)
      (← f.required "receiver" Address.ofJson?) (← f.required "amount" Json.word?)
  | .assetFreeze => do
    return .assetFreeze (← f.required "asset_id" Json.word?)
      (← f.required "target" Address.ofJson?) (← f.required "frozen" Json.bool?)
  | .applicationCall => do
    return .applicationCall (← f.withDefault "app_id" Json.word? 0)
      (← f.withDefault "on_completion" OnComplete.ofField? .noOp)
      (← f.withDefault "args" (Json.list? Json.string?) [])
      (← f.withDefault "accounts" (Json.list? Address.ofJson?) [])

/-- The fields of the data. -/
def toFields : TransactionKind → List (String × Json)
  | .payment receiver amount close =>
    [("receiver", receiver.toJson), ("amount", .word amount),
     ("close_remainder_to", match close with | some a => a.toJson | none => .null)]
  | .keyRegistration => []
  | .assetConfig assetId => [("asset_id", .word assetId)]
  | .assetTransfer assetId receiver amount =>
    [("asset_id", .word assetId), ("receiver", receiver.toJson), ("amount", .word amount)]
  | .assetFreeze assetId target frozen =>
    [("asset_id", .word assetId), ("target", target.toJson), ("frozen", .bool frozen)]
  | .applicationCall appId action args accounts =>
    [("app_id", .word appId), ("on_completion", action.toJson), ("args", .list .str args),
     ("accounts", .list Address.toJson accounts)]

end TransactionKind

namespace Transaction

/-- The keys all transactions have. -/
def headKeys : List String := ["sender", "fee", "first_valid", "last_valid", "note", "type"]

def ofJson? (j : Json) : Option Transaction := do
  guard j.isReadable
  let head ← j.fields? headKeys
  let type ← head.required "type" TransactionKind.tag?
  let f ← j.fields? (TransactionKind.keys type)
  return {
    sender := ← head.required "sender" Address.ofJson?
    fee := ← head.withDefault "fee" Json.word? minTransactionFee
    firstValid := ← head.withDefault "first_valid" Json.word? 0
    lastValid := ← head.withDefault "last_valid" Json.word? defaultValidity
    note := ← head.withDefault "note" Json.string? ""
    kind := ← TransactionKind.ofFields? f type }

def toJson (t : Transaction) : Json :=
  .obj ([("sender", t.sender.toJson), ("fee", .word t.fee), ("first_valid", .word t.firstValid),
    ("last_valid", .word t.lastValid), ("note", .str t.note),
    ("type", .str (TransactionKind.tag t.type))] ++ t.kind.toFields)

end Transaction

end ContractBench
