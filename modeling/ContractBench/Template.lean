import ContractBench.Code.Compile
import ContractBench.Json.Value
import ContractBench.State.Store
/-!
# Sample programs

Three approval programs, each with a clear-state program that approves everything: `approve`
accepts every call; `echo` records the round in global state and in the caller's local state and
logs a greeting; `router` stores a greeting when it is created and afterwards accepts only groups
whose second member is a payment, recording its id and amount.
-/

namespace ContractBench

inductive Template where
  | approve
  | echo
  | router
deriving DecidableEq, Inhabited

namespace Template

/-- The version programs have unless another is asked for. -/
def defaultVersion : UInt8 := 6

def all : List Template := [.approve, .echo, .router]

def name : Template → String
  | .approve => "approve"
  | .echo => "echo"
  | .router => "router"

def ofName? (name : String) : Option Template := all.find? (·.name == name)

def ofJson? (j : Json) : Option Template := do ofName? (← j.choice?)

def toJson (t : Template) : Json := .str t.name

def description : Template → String
  | .approve => "Approves every call"
  | .echo => "Stores the round globally and locally, logs a greeting"
  | .router => "Creation stores a greeting; calls need a payment as member 1"

/-! ## Trees -/

def echoTree : Expr :=
  .seq [
    .globalPut (utf8 "globalRound") (.global .round),
    .localPut (.txn .current .sender) (utf8 "localRound") (.global .round),
    .log (.bytes (utf8 "Hello World!")),
    .approve]

def routerTree : Expr :=
  .cond [
    (.binary .eq (.txn .current .applicationId) (.int 0),
      .seq [.globalPut (utf8 "Hello") (.bytes (utf8 "World!")), .approve]),
    (.binary .eq (.txn (.member 1) .typeEnum) (.named (.txnType .payment)),
      .seq [
        .globalPut (utf8 "TX") (.txn (.member 1) .txId),
        .globalPut (utf8 "Amount") (.txn (.member 1) .amount),
        .approve])]

def approval : Template → Expr
  | .approve => .approve
  | .echo => echoTree
  | .router => routerTree

def clearState (_ : Template) : Expr := .approve

def program (t : Template) (version : UInt8) : Program := ⟨t.approval, t.clearState, version⟩

/-! ## Needs -/

/-- The global and local schemas a program needs. -/
def schemas : Template → Schema × Schema
  | .approve => (⟨0, 0⟩, ⟨0, 0⟩)
  | .echo => (⟨1, 0⟩, ⟨1, 0⟩)
  | .router => (⟨1, 2⟩, ⟨0, 0⟩)

/-- The action a creation should ask for; echo writes its creator's local state. -/
def createAction : Template → OnComplete
  | .echo => .optIn
  | .approve | .router => .noOp

end Template

end ContractBench
