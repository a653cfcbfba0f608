import ContractBench.Registry
import ContractBench.State.Document
import ContractBench.Template
import ContractBench.Transaction.Document
/-!
# Scenarios

A scenario says who creates an application and which groups call it afterwards. A simulation
creates the application in a fresh registry and submits every call in order, also after a creation
that was not approved. A call may move the round on; the round stays for later calls.
-/

namespace ContractBench

structure ScenarioCall where
  label : Option String
  /-- The round to move on to before this call. -/
  round : Option UInt64
  /-- Position of the application call in the group. -/
  index : UInt64
  txns : List Transaction
deriving DecidableEq

structure Scenario where
  creator : Address
  globalSchema : Option Schema
  localSchema : Option Schema
  round : UInt64
  latestTimestamp : Option UInt64
  createAction : Option OnComplete
  calls : List ScenarioCall
deriving DecidableEq

/-! ## Documents -/

def ScenarioCall.ofJson? (j : Json) : Option ScenarioCall := do
  let f ← j.record? ["label", "round", "index", "txns"]
  return {
    label := ← f.optional "label" Json.string?
    round := ← f.optional "round" Json.word?
    index := ← f.withDefault "index" Json.word? 0
    txns := ← f.required "txns" (Json.list? Transaction.ofJson?) }

def Scenario.ofJson? (j : Json) : Option Scenario := do
  let f ← j.record? ["creator", "global_schema", "local_schema", "round", "latest_timestamp",
    "create_action", "calls"]
  return {
    creator := ← f.required "creator" Address.ofJson?
    globalSchema := ← f.optional "global_schema" Schema.ofJson?
    localSchema := ← f.optional "local_schema" Schema.ofJson?
    round := ← f.withDefault "round" Json.word? 1
    latestTimestamp := ← f.optional "latest_timestamp" Json.word?
    createAction := ← f.optional "create_action" OnComplete.ofJson?
    calls := ← f.withDefault "calls" (Json.list? ScenarioCall.ofJson?) [] }

/-! ## Simulation -/

/-- What happened to one call. -/
structure CallRecord where
  label : String
  /-- The id of the group, if the transactions form one. -/
  groupId : Option Digest
  result : Except AppError CallOutcome

structure Simulation where
  registry : Registry
  creation : CallOutcome
  calls : List CallRecord

/-- The created application, if its creation was approved. -/
def Simulation.appId? (s : Simulation) : Option UInt64 :=
  if s.creation.approved then some s.creation.appId else none

namespace ScenarioCall

/-- The label of a call, or its number. -/
def labelAt (c : ScenarioCall) (position : Nat) : String :=
  c.label.getD ("call #" ++ toString (position + 1))

/-- The call submitted. -/
def submit (c : ScenarioCall) (position : Nat) (r : Registry) : CallRecord × Registry :=
  let r := match c.round with
    | some round => { r with round := round }
    | none => r
  match Group.ofList c.txns with
  | .ok group =>
    let (result, r) := r.call group c.index.toNat
    (⟨c.labelAt position, some group.id, result⟩, r)
  | .error e => (⟨c.labelAt position, none, .error (.transaction e)⟩, r)

/-- Calls submitted in order; the first has a position. -/
def submitAll (position : Nat) (r : Registry) : List ScenarioCall → List CallRecord × Registry
  | [] => ([], r)
  | c :: rest =>
    let (record, r) := c.submit position r
    let (records, r) := submitAll (position + 1) r rest
    (record :: records, r)

end ScenarioCall

/-- The simulation of a scenario; a template gives the schemas and the action it leaves open. -/
def Scenario.simulate (s : Scenario) (template : Template) (p : CompiledProgram) (now : UInt64) :
    Except AppError Simulation :=
  let r : Registry :=
    { round := s.round, latestTimestamp := s.latestTimestamp.getD now }
  let action := s.createAction.getD template.createAction
  let group := Group.single (.appCall s.creator 0 action)
  let (result, r) := r.create p (s.globalSchema.getD template.schemas.1)
    (s.localSchema.getD template.schemas.2) group 0
  match result with
  | .error e => .error e
  | .ok creation =>
    let (calls, r) := ScenarioCall.submitAll 0 r s.calls
    .ok ⟨r, creation, calls⟩

end ContractBench
