import ContractBench.Assembly.Assemble
import ContractBench.Code.Compile
import ContractBench.Machine.Run
/-!
# Applications

A registry holds the applications that were created. A creation runs the approval program with
application id 0 and stores the application if it approves; a call runs the approval program, or
the clear-state program for a call that clears state. Writes are committed only on approval. Each
operation answers with a result and the registry afterwards.
-/

namespace ContractBench

structure Application where
  id : UInt64
  creator : Address
  approval : Executable
  clearState : Executable
  state : AppState
  /-- The round it was created in. -/
  createdAt : UInt64
deriving DecidableEq

/-- Why a creation or call never reaches a program. -/
inductive AppError where
  | notFound (appId : UInt64)
  | notAnApplicationCall (index : Nat)
  | notACreation (appId : UInt64)
  | creationViaCall
  | unsupported (action : OnComplete)
  | alreadyOptedIn (account : Address)
  | notOptedIn (account : Address)
  | versionMismatch (approval clearState : UInt8)
  | transaction (error : TransactionError)
  | assembler (error : AssemblyError)
deriving DecidableEq

def AppError.message : AppError → String
  | .notFound appId => "Application not found: " ++ toString appId
  | .notAnApplicationCall index =>
    "Transaction " ++ toString index ++ " is not an application call"
  | .notACreation appId => "Creation must use application id 0, got " ++ toString appId
  | .creationViaCall => "Application id 0 refers to creation; use create"
  | .unsupported action => "Unsupported on-completion action: " ++ action.name
  | .alreadyOptedIn account => "Account " ++ account.toHex ++ " is already opted in"
  | .notOptedIn account => "Account " ++ account.toHex ++ " is not opted in"
  | .versionMismatch approval clearState =>
    "Program version mismatch: approval " ++ toString approval ++ ", clear state " ++
      toString clearState
  | .transaction e => "Transaction error: " ++ e.message
  | .assembler e => "Assembler error: " ++ e.message

/-- What happened to a creation or call that reached a program. -/
structure CallOutcome where
  /-- The application addressed; 0 for a creation that was not approved. -/
  appId : UInt64
  approved : Bool
  logs : List Bytes
  /-- The fault, if the program did not come to a verdict. -/
  fault : Option Fault
  cost : Nat
deriving DecidableEq

def CallOutcome.ofRun (appId : UInt64) (run : Except Fault ExecutionResult × Nat) : CallOutcome :=
  match run.1 with
  | .ok r => ⟨appId, r.approved, r.logs, none, r.cost⟩
  | .error e => ⟨appId, false, [], some e, run.2⟩

/-- All applications, and what the ledger tells the next run. -/
structure Registry where
  apps : SortedMap UInt64 Application := ∅
  nextId : UInt64 := 1
  round : UInt64 := 1
  latestTimestamp : UInt64 := 0
  costBudget : UInt64 := defaultCostBudget
deriving DecidableEq, Inhabited

namespace Registry

/-! ## Running programs -/

def context (r : Registry) (appId : UInt64) (creator : Address) : Context :=
  ⟨appId, creator, r.round, r.latestTimestamp, r.costBudget⟩

/-- The run of a program for a group member; one that cannot start has cost nothing. -/
def runProgram (program : Executable) (group : Group) (index : Nat) (state : AppState)
    (context : Context) : Except Fault ExecutionResult × Nat :=
  match Environment.forMember program group index state context with
  | .ok env => env.run
  | .error e => (.error e, 0)

/-- The writes of a run that approved. -/
def approvedDelta? (run : Except Fault ExecutionResult × Nat) : Option Delta :=
  match run.1 with
  | .ok result => if result.approved then some result.delta else none
  | .error _ => none

/-- The application call at an index: its sender, application and action. -/
def callAt (group : Group) (index : Nat) : Except AppError (Address × UInt64 × OnComplete) :=
  match group.member index with
  | .error e => .error (.transaction e)
  | .ok t =>
    match t.kind with
    | .applicationCall appId action _ _ => .ok (t.sender, appId, action)
    | _ => .error (.notAnApplicationCall index)

/-! ## Creation -/

/-- A program pair ready to run; both programs must be of one version. -/
def assemblePair (p : CompiledProgram) : Except AppError (Executable × Executable) :=
  match assemble p.approval, assemble p.clearState with
  | .error e, _ => .error (.assembler e)
  | .ok _, .error e => .error (.assembler e)
  | .ok approval, .ok clearState =>
    if approval.version = clearState.version then .ok (approval, clearState)
    else .error (.versionMismatch approval.version clearState.version)

/-- The creator, the action and the programs of a creation. -/
def admitCreation (p : CompiledProgram) (group : Group) (index : Nat) :
    Except AppError (Address × OnComplete × Executable × Executable) := do
  let (creator, appId, action) ← callAt group index
  if appId ≠ 0 then throw (.notACreation appId)
  let (approval, clearState) ← assemblePair p
  return (creator, action, approval, clearState)

/-- An application created by the group member at an index. -/
def create (r : Registry) (p : CompiledProgram) (globalSchema localSchema : Schema)
    (group : Group) (index : Nat) : Except AppError CallOutcome × Registry :=
  match admitCreation p group index with
  | .error e => (.error e, r)
  | .ok (creator, action, approval, clearState) =>
    let state : AppState := { globalSchema := globalSchema, localSchema := localSchema }
    let run := runProgram approval group index state (r.context 0 creator)
    match approvedDelta? run with
    | none => (.ok (.ofRun 0 run), r)
    | some delta =>
      let opted := if action = .optIn then state.optIn creator else state
      let app : Application :=
        ⟨r.nextId, creator, approval, clearState, opted.commit delta, r.round⟩
      (.ok (.ofRun r.nextId run),
        { r with apps := r.apps.insert r.nextId app, nextId := r.nextId + 1 })

/-! ## Calls -/

/-- Whether an action is possible for a sender. -/
def checkAction (state : AppState) (sender : Address) : OnComplete → Except AppError Unit
  | .updateApplication => .error (.unsupported .updateApplication)
  | .optIn => if state.isOptedIn sender then .error (.alreadyOptedIn sender) else .ok ()
  | .closeOut | .clearState =>
    if state.isOptedIn sender then .ok () else .error (.notOptedIn sender)
  | .noOp | .deleteApplication => .ok ()

/-- The sender, the action and the application of a call. -/
def admitCall (r : Registry) (group : Group) (index : Nat) :
    Except AppError (Address × OnComplete × UInt64 × Application) := do
  let (sender, appId, action) ← callAt group index
  if appId = 0 then throw .creationViaCall
  match r.apps.get? appId with
  | none => throw (.notFound appId)
  | some app =>
    checkAction app.state sender action
    return (sender, action, appId, app)

/-- The state of an application behind a call that clears the sender's state, whatever the program
says; its writes count if it approved. -/
def clearedState (state : AppState) (sender : Address) (delta : Option Delta) : AppState :=
  (match delta with
    | some d => state.commit d
    | none => state).closeOut sender

/-- The state of an application behind an approved call. -/
def approvedState (state : AppState) (sender : Address) (action : OnComplete) (delta : Delta) :
    AppState :=
  match action with
  | .optIn => (state.optIn sender).commit delta
  | .closeOut => (state.commit delta).closeOut sender
  | _ => state.commit delta

/-- An application replaced by one with other state. -/
def setState (r : Registry) (appId : UInt64) (app : Application) (state : AppState) : Registry :=
  { r with apps := r.apps.insert appId { app with state := state } }

/-- A call of an existing application by the group member at an index. -/
def call (r : Registry) (group : Group) (index : Nat) : Except AppError CallOutcome × Registry :=
  match r.admitCall group index with
  | .error e => (.error e, r)
  | .ok (sender, action, appId, app) =>
    let context := r.context appId app.creator
    if action = .clearState then
      let run := runProgram app.clearState group index app.state context
      (.ok (.ofRun appId run),
        r.setState appId app (clearedState app.state sender (approvedDelta? run)))
    else
      let run := runProgram app.approval group index app.state context
      match approvedDelta? run with
      | none => (.ok (.ofRun appId run), r)
      | some delta =>
        if action = .deleteApplication then
          (.ok (.ofRun appId run), { r with apps := r.apps.erase appId })
        else
          (.ok (.ofRun appId run),
            r.setState appId app (approvedState app.state sender action delta))

end Registry

end ContractBench
