import ContractBench.Registry
import ContractBench.Success
/-!
# What creations and calls do to entries

An operation that is refused leaves the registry as it was. A creation that is admitted runs its
approval program over fresh state, and adds an application under the next id if that approves. A
call that is admitted runs one program of one application, and puts what becomes of the application
in its place:

    admitCreation program group index = .ok .. →
      r.create .. = (.ok .., r) or (.ok .., r.addApp app)  (create_of_rejected, create_of_approved)
    r.admitCall group index = .ok .. →
      r.call group index = (.ok .., r.setEntry appId (app.behind ..))           (call_of_admitted)
-/

namespace ContractBench

open Success

/-! ## Algorithm -/

namespace Application

/-- The program that runs for an action. -/
def programFor (app : Application) (action : OnComplete) : Executable :=
  if action = .clearState then app.clearState else app.approval

/-- What becomes of an application whose program ran for an action, with the writes of a run that
approved; nothing if it is deleted. -/
def behind (app : Application) (sender : Address) :
    OnComplete → Option Delta → Option Application
  | .clearState, delta =>
    some { app with state := Registry.clearedState app.state sender delta }
  | _, none => some app
  | .deleteApplication, some _ => none
  | action, some delta =>
    some { app with state := Registry.approvedState app.state sender action delta }

/-- Without writes that count an application stays as it is, unless the sender clears its state. -/
theorem behind_none {app : Application} {sender : Address} {action : OnComplete}
    (h : action ≠ .clearState) : app.behind sender action none = some app := by
  cases action with
  | clearState => exact absurd rfl h
  | _ => rfl

end Application

/-- The state of an application before its creation ran. -/
def AppState.fresh (globalSchema localSchema : Schema) : AppState :=
  { globalSchema := globalSchema, localSchema := localSchema }

namespace Registry

/-- The run of the approval program over the state of an application that is being created. -/
def creationRun (r : Registry) (group : Group) (index : Nat) (creator : Address)
    (approval : Executable) (state : AppState) : Except Fault ExecutionResult × Nat :=
  runProgram approval group index state (r.context 0 creator)

/-- The run of a program of an application for a call of it. -/
def callRun (r : Registry) (group : Group) (index : Nat) (appId : UInt64) (app : Application)
    (action : OnComplete) : Except Fault ExecutionResult × Nat :=
  runProgram (app.programFor action) group index app.state (r.context appId app.creator)

/-- The application that an approved creation makes of fresh state. -/
def newApp (r : Registry) (creator : Address) (action : OnComplete)
    (approval clearState : Executable) (state : AppState) (delta : Delta) : Application :=
  ⟨r.nextId, creator, approval, clearState,
    (if action = .optIn then state.optIn creator else state).commit delta, r.round⟩

/-- An application stored under the next id. -/
def addApp (r : Registry) (app : Application) : Registry :=
  { r with apps := r.apps.insert r.nextId app, nextId := r.nextId + 1 }

/-- An application put in its place, or taken away. -/
def setEntry (r : Registry) (appId : UInt64) : Option Application → Registry
  | some app => { r with apps := r.apps.insert appId app }
  | none => { r with apps := r.apps.erase appId }

/-! ## Lemmas -/

variable {r : Registry} {group : Group} {index : Nat} {sender : Address} {action : OnComplete}
  {appId : UInt64} {app : Application}

/-! ### Outcomes -/

theorem approved_ofRun (appId : UInt64) (run : Except Fault ExecutionResult × Nat) :
    (CallOutcome.ofRun appId run).approved = (approvedDelta? run).isSome := by
  obtain ⟨result, cost⟩ := run
  cases result with
  | error e => rfl
  | ok result =>
    show result.approved = (if result.approved then some result.delta else none).isSome
    cases result.approved <;> rfl

theorem appId_ofRun (appId : UInt64) (run : Except Fault ExecutionResult × Nat) :
    (CallOutcome.ofRun appId run).appId = appId := by
  obtain ⟨result, cost⟩ := run
  cases result <;> rfl

/-! ### Creations -/

section

variable {program : CompiledProgram} {globalSchema localSchema : Schema} {creator : Address}
  {approval clearState : Executable}

/-- What admits a creation. -/
theorem admitCreation_eq_ok
    (h : admitCreation program group index = .ok (creator, action, approval, clearState)) :
    callAt group index = .ok (creator, 0, action) ∧
      assemblePair program = .ok (approval, clearState) := by
  obtain ⟨⟨creator', appId, action'⟩, hcall, h⟩ := bind_eq_ok.1 h
  dsimp only at h
  split at h
  · cases h
  · next hid =>
    obtain ⟨⟨approval', clearState'⟩, hpair, h⟩ := bind_eq_ok.1 h
    cases h
    rw [hcall, Decidable.not_not.1 hid]
    exact ⟨rfl, hpair⟩

/-- A creation that is not admitted is refused for the same reason. -/
theorem create_of_refused {e : AppError} (h : admitCreation program group index = .error e) :
    r.create program globalSchema localSchema group index = (.error e, r) := by
  unfold create
  rw [h]

/-- A creation whose run is not approved stores nothing. -/
theorem create_of_rejected
    (h : admitCreation program group index = .ok (creator, action, approval, clearState))
    (hd : approvedDelta? (r.creationRun group index creator approval
      (.fresh globalSchema localSchema)) = none) :
    r.create program globalSchema localSchema group index =
      (.ok (.ofRun 0 (r.creationRun group index creator approval
        (.fresh globalSchema localSchema))), r) := by
  unfold creationRun AppState.fresh at hd ⊢
  unfold create
  rw [h]
  dsimp only
  rw [hd]

/-- A creation whose run is approved stores an application under the next id. -/
theorem create_of_approved {delta : Delta}
    (h : admitCreation program group index = .ok (creator, action, approval, clearState))
    (hd : approvedDelta? (r.creationRun group index creator approval
      (.fresh globalSchema localSchema)) = some delta) :
    r.create program globalSchema localSchema group index =
      (.ok (.ofRun r.nextId (r.creationRun group index creator approval
          (.fresh globalSchema localSchema))),
        r.addApp (r.newApp creator action approval clearState (.fresh globalSchema localSchema)
          delta)) := by
  unfold creationRun AppState.fresh at hd ⊢
  unfold create
  rw [h]
  dsimp only
  rw [hd]
  rfl

/-- A creation that is admitted tells of its run. -/
theorem create_of_admitted
    (h : admitCreation program group index = .ok (creator, action, approval, clearState)) :
    ∃ appId, (r.create program globalSchema localSchema group index).1 =
      .ok (.ofRun appId (r.creationRun group index creator approval
        (.fresh globalSchema localSchema))) := by
  cases hd : approvedDelta? (r.creationRun group index creator approval
      (.fresh globalSchema localSchema)) with
  | none => exact ⟨0, congrArg Prod.fst (create_of_rejected h hd)⟩
  | some delta => exact ⟨r.nextId, congrArg Prod.fst (create_of_approved h hd)⟩

/-- What an approved creation did. -/
theorem create_eq_of_approved {outcome : CallOutcome}
    (h : (r.create program globalSchema localSchema group index).1 = .ok outcome)
    (ha : outcome.approved = true) :
    ∃ creator action approval clearState delta,
      admitCreation program group index = .ok (creator, action, approval, clearState) ∧
      approvedDelta? (r.creationRun group index creator approval
        (.fresh globalSchema localSchema)) = some delta ∧
      outcome.appId = r.nextId ∧
      (r.create program globalSchema localSchema group index).2 =
        r.addApp (r.newApp creator action approval clearState (.fresh globalSchema localSchema)
          delta) := by
  cases hadm : admitCreation program group index with
  | error e =>
    rw [create_of_refused hadm] at h
    cases h
  | ok admitted =>
    obtain ⟨creator, action, approval, clearState⟩ := admitted
    cases hd : approvedDelta? (r.creationRun group index creator approval
        (.fresh globalSchema localSchema)) with
    | none =>
      rw [create_of_rejected hadm hd] at h
      cases h
      rw [approved_ofRun, hd] at ha
      cases ha
    | some delta =>
      rw [create_of_approved hadm hd] at h ⊢
      cases h
      exact ⟨creator, action, approval, clearState, delta, rfl, hd, appId_ofRun _ _, rfl⟩

end

/-! ### Calls -/

/-- What admits a call. -/
theorem admitCall_eq_ok (h : r.admitCall group index = .ok (sender, action, appId, app)) :
    callAt group index = .ok (sender, appId, action) ∧ r.apps.get? appId = some app ∧
      checkAction app.state sender action = .ok () := by
  obtain ⟨⟨sender', appId', action'⟩, hcall, h⟩ := bind_eq_ok.1 h
  dsimp only at h
  split at h
  · cases h
  · cases hget : r.apps.get? appId' with
    | none =>
      rw [hget] at h
      cases h
    | some app' =>
      rw [hget] at h
      obtain ⟨u, hcheck, h⟩ := bind_eq_ok.1 h
      cases h
      exact ⟨hcall, hget, hcheck⟩

theorem get?_setEntry (r : Registry) (appId : UInt64) (entry : Option Application) (id : UInt64) :
    (r.setEntry appId entry).apps.get? id = if id = appId then entry else r.apps.get? id := by
  cases entry with
  | none =>
    by_cases hid : id = appId
    · subst hid
      rw [if_pos rfl]
      exact SortedMap.get?_erase_self _ _
    · rw [if_neg hid]
      exact SortedMap.get?_erase_of_ne _ hid
  | some app =>
    by_cases hid : id = appId
    · subst hid
      rw [if_pos rfl]
      exact SortedMap.get?_insert_self _ _ _
    · rw [if_neg hid]
      exact SortedMap.get?_insert_of_ne _ _ hid

/-- Storing an application where it is stored changes nothing. -/
theorem setEntry_self (h : r.apps.get? appId = some app) : r.setEntry appId (some app) = r := by
  have happs : r.apps.insert appId app = r.apps := by
    refine SortedMap.ext_get? fun id => ?_
    by_cases hid : id = appId
    · subst hid
      rw [SortedMap.get?_insert_self, h]
    · rw [SortedMap.get?_insert_of_ne _ _ hid]
  show { r with apps := r.apps.insert appId app } = r
  rw [happs]

/-- A call that is not admitted is refused for the same reason. -/
theorem call_of_refused {e : AppError} (h : r.admitCall group index = .error e) :
    r.call group index = (.error e, r) := by
  unfold call
  rw [h]

/-- A call that is admitted runs a program of its application and changes the application alone. -/
theorem call_of_admitted (h : r.admitCall group index = .ok (sender, action, appId, app)) :
    r.call group index =
      (.ok (.ofRun appId (r.callRun group index appId app action)),
        r.setEntry appId (app.behind sender action
          (approvedDelta? (r.callRun group index appId app action)))) := by
  unfold call
  rw [h]
  dsimp only
  by_cases hclear : action = .clearState
  · subst hclear
    rfl
  · have hrun : r.callRun group index appId app action =
        runProgram app.approval group index app.state (r.context appId app.creator) := by
      rw [callRun, Application.programFor, if_neg hclear]
    rw [if_neg hclear, ← hrun]
    cases approvedDelta? (r.callRun group index appId app action) with
    | none =>
      -- what is put in its place is what was there
      rw [Application.behind_none hclear, setEntry_self (admitCall_eq_ok h).2.1]
    | some delta =>
      cases action with
      | clearState => exact absurd rfl hclear
      | _ => rfl

end Registry

end ContractBench
