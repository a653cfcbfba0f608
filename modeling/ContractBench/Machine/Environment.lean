import ContractBench.Machine.Fault
import ContractBench.Transaction.Group
/-!
# What a run reads

A run happens for one member of a transaction group, in the context of a ledger, over committed
state. Nothing here changes while it runs.
-/

namespace ContractBench

/-- What the ledger tells a run. -/
structure Context where
  /-- The application that runs; 0 while it is being created. -/
  appId : UInt64 := 0
  creator : Address := .zero
  round : UInt64 := 1
  latestTimestamp : UInt64 := 0
  costBudget : UInt64 := defaultCostBudget
deriving DecidableEq, Inhabited

structure Environment where
  program : Executable
  group : Group
  index : Nat
  index_lt : index < group.members.length
  state : AppState
  context : Context

namespace Environment

/-- The environment of the group member at an index, which must exist. -/
def forMember (program : Executable) (group : Group) (index : Nat) (state : AppState)
    (context : Context) : Except Fault Environment :=
  if h : index < group.members.length then .ok ⟨program, group, index, h, state, context⟩
  else .error (.groupIndexOutOfRange index group.size)

/-- The transaction the program runs for. -/
def current (env : Environment) : Transaction := env.group.members.get ⟨env.index, env.index_lt⟩

end Environment

/-! ## Fields -/

/-- The value of a field of the transaction at an index of its group. -/
def Transaction.readField (t : Transaction) (index : Nat) (f : TxnField) : Except Fault Value :=
  let unavailable : Except Fault Value := .error (.fieldUnavailable f t.type)
  match f with
  | .sender => .ok (.bytes t.sender.bytes)
  | .fee => .ok (.int t.fee)
  | .firstValid => .ok (.int t.firstValid)
  | .lastValid => .ok (.int t.lastValid)
  | .note => .ok (.bytes (utf8 t.note))
  | .typeEnum => .ok (.int t.type.code)
  | .type => .ok (.bytes (utf8 t.type.name))
  | .groupIndex => .ok (.int (UInt64.ofNat index))
  | .txId => .ok (.bytes t.id.bytes)
  | .receiver =>
    match t.kind with
    | .payment receiver _ _ => .ok (.bytes receiver.bytes)
    | _ => unavailable
  | .amount =>
    match t.kind with
    | .payment _ amount _ => .ok (.int amount)
    | _ => unavailable
  | .closeRemainderTo =>
    match t.kind with
    | .payment _ _ close => .ok (.bytes (close.getD .zero).bytes)
    | _ => unavailable
  | .applicationId =>
    match t.kind with
    | .applicationCall appId _ _ _ => .ok (.int appId)
    | _ => unavailable
  | .onCompletion =>
    match t.kind with
    | .applicationCall _ action _ _ => .ok (.int action.code)
    | _ => unavailable
  | .numAppArgs =>
    match t.kind with
    | .applicationCall _ _ args _ => .ok (.int (UInt64.ofNat args.length))
    | _ => unavailable
  | .numAccounts =>
    match t.kind with
    | .applicationCall _ _ _ accounts => .ok (.int (UInt64.ofNat accounts.length))
    | _ => unavailable
  | .xferAsset =>
    match t.kind with
    | .assetTransfer assetId _ _ => .ok (.int assetId)
    | _ => unavailable
  | .assetAmount =>
    match t.kind with
    | .assetTransfer _ _ amount => .ok (.int amount)
    | _ => unavailable
  | .assetReceiver =>
    match t.kind with
    | .assetTransfer _ receiver _ => .ok (.bytes receiver.bytes)
    | _ => unavailable

namespace Environment

/-- The value of a field of the group member at an index. -/
def memberField (env : Environment) (index : Nat) (f : TxnField) : Except Fault Value :=
  match env.group.get? index with
  | some t => t.readField index f
  | none => .error (.groupIndexOutOfRange index env.group.size)

def globalField (env : Environment) : GlobalField → Value
  | .minTxnFee => .int minTransactionFee
  | .zeroAddress => .bytes Address.zero.bytes
  | .groupSize => .int (UInt64.ofNat env.group.size)
  | .round => .int env.context.round
  | .latestTimestamp => .int env.context.latestTimestamp
  | .currentApplicationId => .int env.context.appId
  | .creatorAddress => .bytes env.context.creator.bytes

/-! ## Accounts -/

/-- The account an operand names: by address, or by index among the accessible accounts. -/
def account (env : Environment) (operand : Value) : Except Fault Address :=
  let found := match operand with
    | .int index => env.current.accountAt? index
    | .bytes b => (Address.ofBytes? b).filter (env.current.accessibleAccounts.contains ·)
  match found with
  | some a => .ok a
  | none => .error (.accountNotAccessible operand)

/-- Whether local state of an account may be written: it opted in, or it is the sender of a call
that opts in. -/
def mayHoldLocal (env : Environment) (a : Address) : Bool :=
  (env.current.onCompletion? == some .optIn && env.current.sender == a) || env.state.isOptedIn a

/-- State can be looked up in the running application, by its id or by 0. -/
def checkOwnApp (env : Environment) (appId : UInt64) : Except Fault Unit :=
  if appId = 0 ∨ appId = env.context.appId then .ok () else .error (.foreignApplication appId)

end Environment

/-! ## Lemmas -/

/-- A field is carried by a transaction exactly if the table of fields says so. -/
theorem Transaction.readField_error_iff (t : Transaction) (index : Nat) (f : TxnField) :
    (∃ e, t.readField index f = .error e) ↔ f.appliesTo t.type = false := by
  unfold Transaction.readField TxnField.appliesTo Transaction.type
  cases f <;> cases t.kind <;> simp [TransactionKind.type]

/-- A field that is carried has its declared type. -/
theorem Transaction.type_of_readField {t : Transaction} {index : Nat} {f : TxnField} {v : Value}
    (h : t.readField index f = .ok v) : v.type = f.valueType := by
  unfold Transaction.readField at h
  cases f <;> cases hk : t.kind <;> simp_all [TxnField.valueType] <;> subst h <;> rfl

theorem Environment.type_globalField (env : Environment) (f : GlobalField) :
    (env.globalField f).type = f.valueType := by
  cases f <;> rfl

end ContractBench
