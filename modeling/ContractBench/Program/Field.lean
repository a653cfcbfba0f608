import ContractBench.State.Value
import ContractBench.Transaction.Basic
/-!
# Fields a program can read

Each field has a name, the type of its value and the first version that knows it. A transaction
field may be carried by one kind of transaction only.
-/

namespace ContractBench

inductive TxnField where
  | sender
  | fee
  | firstValid
  | lastValid
  | note
  | receiver
  | amount
  | closeRemainderTo
  | typeEnum
  | type
  | groupIndex
  | txId
  | applicationId
  | onCompletion
  | numAppArgs
  | numAccounts
  | xferAsset
  | assetAmount
  | assetReceiver
deriving DecidableEq, Inhabited

namespace TxnField

def all : List TxnField :=
  [.sender, .fee, .firstValid, .lastValid, .note, .receiver, .amount, .closeRemainderTo,
   .typeEnum, .type, .groupIndex, .txId, .applicationId, .onCompletion, .numAppArgs,
   .numAccounts, .xferAsset, .assetAmount, .assetReceiver]

def name : TxnField → String
  | .sender => "Sender"
  | .fee => "Fee"
  | .firstValid => "FirstValid"
  | .lastValid => "LastValid"
  | .note => "Note"
  | .receiver => "Receiver"
  | .amount => "Amount"
  | .closeRemainderTo => "CloseRemainderTo"
  | .typeEnum => "TypeEnum"
  | .type => "Type"
  | .groupIndex => "GroupIndex"
  | .txId => "TxID"
  | .applicationId => "ApplicationID"
  | .onCompletion => "OnCompletion"
  | .numAppArgs => "NumAppArgs"
  | .numAccounts => "NumAccounts"
  | .xferAsset => "XferAsset"
  | .assetAmount => "AssetAmount"
  | .assetReceiver => "AssetReceiver"

def ofName? (name : String) : Option TxnField := all.find? (·.name == name)

def valueType : TxnField → ValueType
  | .sender | .note | .receiver | .closeRemainderTo | .type | .txId | .assetReceiver => .bytes
  | .fee | .firstValid | .lastValid | .amount | .typeEnum | .groupIndex | .applicationId
  | .onCompletion | .numAppArgs | .numAccounts | .xferAsset | .assetAmount => .int

def minVersion : TxnField → UInt8
  | .applicationId | .onCompletion | .numAppArgs | .numAccounts => 2
  | _ => 1

/-- Whether transactions of the type carry the field. -/
def appliesTo (f : TxnField) (t : TransactionType) : Bool :=
  match f with
  | .receiver | .amount | .closeRemainderTo => t == .payment
  | .applicationId | .onCompletion | .numAppArgs | .numAccounts => t == .applicationCall
  | .xferAsset | .assetAmount | .assetReceiver => t == .assetTransfer
  | _ => true

theorem ofName?_name (f : TxnField) : ofName? f.name = some f := by
  cases f <;> decide +kernel

end TxnField

inductive GlobalField where
  | minTxnFee
  | zeroAddress
  | groupSize
  | round
  | latestTimestamp
  | currentApplicationId
  | creatorAddress
deriving DecidableEq, Inhabited

namespace GlobalField

def all : List GlobalField :=
  [.minTxnFee, .zeroAddress, .groupSize, .round, .latestTimestamp, .currentApplicationId,
   .creatorAddress]

def name : GlobalField → String
  | .minTxnFee => "MinTxnFee"
  | .zeroAddress => "ZeroAddress"
  | .groupSize => "GroupSize"
  | .round => "Round"
  | .latestTimestamp => "LatestTimestamp"
  | .currentApplicationId => "CurrentApplicationID"
  | .creatorAddress => "CreatorAddress"

def ofName? (name : String) : Option GlobalField := all.find? (·.name == name)

def valueType : GlobalField → ValueType
  | .zeroAddress | .creatorAddress => .bytes
  | _ => .int

def minVersion : GlobalField → UInt8
  | .minTxnFee | .zeroAddress | .groupSize => 1
  | .round | .latestTimestamp | .currentApplicationId => 2
  | .creatorAddress => 3

theorem ofName?_name (f : GlobalField) : ofName? f.name = some f := by
  cases f <;> decide +kernel

end GlobalField

end ContractBench
