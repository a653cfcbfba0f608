import ContractBench.State.Store
import ContractBench.Success
/-!
# State during a run

A view reads through the writes of a run to the committed state below. A write fails if the key
holds a value of the other type, or if it is new and the schema leaves no room; the room counts
committed and new keys of the type.

    v.putGlobal k x = .ok v' → v'.pending.globals = v.pending.globals.insert k x      (putGlobal_eq)
    v.putLocal a k x = .ok v' → v'.pending.locals = v.pending.locals.insert ⟨a, k⟩ x  (putLocal_eq)
-/

namespace ContractBench

inductive StateError where
  | schemaViolation (key : Bytes) (stored attempted : ValueType)
  | schemaFull (type : ValueType) (limit : UInt64)
deriving DecidableEq

def StateError.message : StateError → String
  | .schemaViolation key stored attempted =>
    "Schema violation for key " ++ key.readable ++ ": stored " ++ stored.name ++
      ", attempted " ++ attempted.name
  | .schemaFull type limit =>
    "Schema full: no room for another " ++ type.name ++ " key (limit " ++ toString limit ++ ")"

/-- Committed state and the writes laid over it. -/
structure View where
  base : AppState
  pending : Delta := {}
deriving DecidableEq

namespace View

/-! ## Reading -/

def getGlobal? (v : View) (key : Bytes) : Option Value :=
  (v.pending.globals.get? key).or (v.base.globals.get? key)

def getLocal? (v : View) (account : Address) (key : Bytes) : Option Value :=
  (v.pending.locals.get? ⟨account, key⟩).or (v.base.localValue? account key)

def isOptedIn (v : View) (account : Address) : Bool := v.base.isOptedIn account

/-! ## Room in a store -/

/-- Keys of the type that the global store would hold if the view were committed. -/
def globalCount (v : View) (type : ValueType) : Nat :=
  v.base.globals.count type +
    v.pending.globals.entries.countP fun e =>
      e.2.type == type && !v.base.globals.contains e.1

/-- Keys of the type that an account's local store would hold if the view were committed. -/
def localCount (v : View) (account : Address) (type : ValueType) : Nat :=
  ((v.base.locals.get? account).getD ∅).count type +
    v.pending.locals.entries.countP fun e =>
      e.1.account == account && e.2.type == type && (v.base.localValue? account e.1.key).isNone

/-! ## Writing -/

/-- Whether a value may be put where a value may stand, given the keys in use and their limit. -/
def checkPut (key : Bytes) (stored : Option Value) (value : Value) (used : Nat)
    (limit : UInt64) : Except StateError Unit :=
  match stored with
  | some old =>
    if old.type = value.type then .ok ()
    else .error (.schemaViolation key old.type value.type)
  | none =>
    if limit.toNat ≤ used then .error (.schemaFull value.type limit) else .ok ()

def putGlobal (v : View) (key : Bytes) (value : Value) : Except StateError View := do
  checkPut key (v.getGlobal? key) value (v.globalCount value.type)
    (v.base.globalSchema.capacity value.type)
  return { v with pending := { v.pending with globals := v.pending.globals.insert key value } }

def putLocal (v : View) (account : Address) (key : Bytes) (value : Value) :
    Except StateError View := do
  checkPut key (v.getLocal? account key) value (v.localCount account value.type)
    (v.base.localSchema.capacity value.type)
  return { v with
    pending := { v.pending with locals := v.pending.locals.insert ⟨account, key⟩ value } }

/-! ## Lemmas -/

theorem putGlobal_eq {v v' : View} {key : Bytes} {value : Value}
    (h : v.putGlobal key value = .ok v') :
    v'.base = v.base ∧ v'.pending.locals = v.pending.locals ∧
      v'.pending.globals = v.pending.globals.insert key value := by
  obtain ⟨_, _, h⟩ := Success.bind_eq_ok.1 h
  cases Success.pure_eq_ok.1 h
  exact ⟨rfl, rfl, rfl⟩

theorem putLocal_eq {v v' : View} {account : Address} {key : Bytes} {value : Value}
    (h : v.putLocal account key value = .ok v') :
    v'.base = v.base ∧ v'.pending.globals = v.pending.globals ∧
      v'.pending.locals = v.pending.locals.insert ⟨account, key⟩ value := by
  obtain ⟨_, _, h⟩ := Success.bind_eq_ok.1 h
  cases Success.pure_eq_ok.1 h
  exact ⟨rfl, rfl, rfl⟩

end View

end ContractBench
