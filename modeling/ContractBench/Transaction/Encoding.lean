import ContractBench.Transaction.Basic
/-!
# Canonical bytes and ids

Every field is written at a fixed width or behind its length, so a transaction can be read back
from its bytes. A transaction id is the digest of these bytes behind the tag `TX`.
-/

namespace ContractBench

open Bytes

/-- The bytes of the data that belongs to a kind. -/
def TransactionKind.encode : TransactionKind → Bytes
  | .payment receiver amount close =>
    sized receiver.bytes ++ ofWord amount ++
      sized (match close with | some a => a.bytes | none => [])
  | .keyRegistration => []
  | .assetConfig assetId => ofWord assetId
  | .assetTransfer assetId receiver amount =>
    ofWord assetId ++ sized receiver.bytes ++ ofWord amount
  | .assetFreeze assetId target frozen =>
    ofWord assetId ++ sized target.bytes ++ [if frozen then 1 else 0]
  | .applicationCall appId action args accounts =>
    ofWord appId ++ ofWord action.code ++
      ofWord (UInt64.ofNat args.length) ++ args.flatMap (fun arg => sized (utf8 arg)) ++
      ofWord (UInt64.ofNat accounts.length) ++ accounts.flatMap (fun a => sized a.bytes)

namespace Transaction

/-- The canonical bytes of a transaction. -/
def encode (t : Transaction) : Bytes :=
  sized (utf8 t.type.name) ++ sized t.sender.bytes ++ ofWord t.fee ++ ofWord t.firstValid ++
    ofWord t.lastValid ++ sized (utf8 t.note) ++ t.kind.encode

/-- What is hashed for the id of a transaction. -/
def idMessage (t : Transaction) : Bytes := taggedMessage "TX" t.encode

/-- The id a digest function gives to a transaction. -/
def idBy (digest : Bytes → Digest) (t : Transaction) : Digest := digest t.idMessage

def id (t : Transaction) : Digest := idBy sha256 t

end Transaction

end ContractBench
