import ContractBench.Proofs.Machine.Writes
import ContractBench.Proofs.Registry.Atomic
/-!
# How applications evolve

An application comes to be by an approved creation. After that only calls of it change it, and only
its state: an approved call commits what its run collected, before or after the sender opts in or
out, and a call that clears state drops the sender's local store in any case.

    r.create stores what AppState.Created gives, or rejects and leaves r              (create_cases)
    (r.call group index).1 = .ok outcome → one of the ways of AppState.Called         (call_outcome)
    (op.apply r).2.apps.get? id = some app → Origin r id app op (op.apply r).1    (origin_of_apply)
-/

namespace ContractBench

open Std Success

/-! ## Algorithm -/

namespace AppState

/-- Local state may be held by accounts that opted in, and by a sender that opts in. -/
def MayHold (s : AppState) (sender : Address) (action : OnComplete) (a : Address) : Prop :=
  s.isOptedIn a = true ∨ action = .optIn ∧ a = sender

/-- What a call makes of the state of an application, by its action and whether it was approved. -/
inductive Called (s : AppState) (sender : Address) : OnComplete → Bool → AppState → Prop
  | rejected {action : OnComplete} : action ≠ .clearState → Called s sender action false s
  | noOp {d : Delta} : Collected s (s.MayHold sender .noOp) d →
      Called s sender .noOp true (s.commit d)
  | optIn {d : Delta} : Collected s (s.MayHold sender .optIn) d →
      Called s sender .optIn true ((s.optIn sender).commit d)
  | closeOut {d : Delta} : Collected s (s.MayHold sender .closeOut) d →
      Called s sender .closeOut true ((s.commit d).closeOut sender)
  | clearState {approved : Bool} {d : Delta} : Collected s (s.MayHold sender .clearState) d →
      Called s sender .clearState approved ((s.commit d).closeOut sender)

/-- What an approved creation makes of a state. -/
inductive Created (s : AppState) (creator : Address) : OnComplete → AppState → Prop
  | optIn {d : Delta} : Collected s (s.MayHold creator .optIn) d →
      Created s creator .optIn ((s.optIn creator).commit d)
  | other {action : OnComplete} {d : Delta} : action ≠ .optIn →
      Collected s (s.MayHold creator action) d → Created s creator action (s.commit d)

end AppState

namespace Registry

/-- Where an application found behind an operation comes from. -/
inductive Origin (r : Registry) (appId : UInt64) (app : Application) : Operation → Response → Prop
  | kept {op : Operation} {response : Response} : r.apps.get? appId = some app →
      Origin r appId app op response
  | called {group : Group} {index : Nat} {sender : Address} {action : OnComplete}
      {outcome : CallOutcome} {old : Application} :
      callAt group index = .ok (sender, appId, action) → r.apps.get? appId = some old →
      old.state.Called sender action outcome.approved app.state →
      app = { old with state := app.state } →
      Origin r appId app (.call group index) (.outcome (.ok outcome))
  | created {program : CompiledProgram} {globalSchema localSchema : Schema} {group : Group}
      {index : Nat} {action : OnComplete} {outcome : CallOutcome} :
      callAt group index = .ok (app.creator, 0, action) → outcome.approved = true →
      outcome.appId = appId →
      (AppState.fresh globalSchema localSchema).Created app.creator action app.state →
      Origin r appId app (.create program globalSchema localSchema group index)
        (.outcome (.ok outcome))

/-! ## Lemmas -/

variable {r : Registry} {group : Group} {index : Nat}

/-! ### Runs -/

/-- The transaction a program runs for is the one that is asked for its action. -/
theorem current_of_callAt {env : Environment} {sender : Address} {appId : UInt64}
    {action : OnComplete} (h : callAt env.group env.index = .ok (sender, appId, action)) :
    env.current.sender = sender ∧ env.current.onCompletion? = some action := by
  have hget : env.group.get? env.index = some env.current :=
    List.getElem?_eq_getElem env.index_lt
  unfold callAt Group.member at h
  rw [hget] at h
  dsimp only at h
  split at h
  · next hkind =>
    cases h
    exact ⟨rfl, by rw [Transaction.onCompletion?, hkind]⟩
  · cases h

/-- The accounts a program may write are those that may hold local state. -/
theorem mayHold_of_mayWrite {env : Environment} {a sender : Address} {appId : UInt64}
    {action : OnComplete} (ha : env.MayWrite a)
    (h : callAt env.group env.index = .ok (sender, appId, action)) :
    env.state.MayHold sender action a := by
  obtain ⟨hsender, haction⟩ := current_of_callAt h
  have hmay := ha.2
  rw [Environment.mayHoldLocal, hsender, haction, Bool.or_eq_true, Bool.and_eq_true, beq_iff_eq,
    beq_iff_eq] at hmay
  rcases hmay with ⟨hopting, heq⟩ | hopted
  · exact .inr ⟨Option.some.inj hopting, heq.symm⟩
  · exact .inl hopted

/-- What an approved run hands back was collected over the state it read. -/
theorem collected_of_approved {program : Executable} {state : AppState} {context : Context}
    {sender : Address} {appId : UInt64} {action : OnComplete} {d : Delta}
    (hcall : callAt group index = .ok (sender, appId, action))
    (h : approvedDelta? (runProgram program group index state context) = some d) :
    Collected state (state.MayHold sender action) d := by
  unfold runProgram Environment.forMember at h
  split at h
  · next env henv =>
    split at henv
    · cases henv
      unfold approvedDelta? at h
      split at h
      · next result hrun =>
        split at h
        · cases h
          exact (Environment.collected_run hrun).mono fun a ha => mayHold_of_mayWrite ha hcall
        · cases h
      · cases h
    · cases henv
  · cases h

/-! ### Calls -/

theorem get?_setState (r : Registry) (appId : UInt64) (app : Application) (s : AppState)
    (id : UInt64) :
    (r.setState appId app s).apps.get? id =
      if id = appId then some { app with state := s } else r.apps.get? id :=
  get?_setEntry r appId (some { app with state := s }) id

/-- What a run for a call leaves of an application: one of the states a call can, or nothing. -/
theorem called_behind {app : Application} {sender : Address} {action : OnComplete}
    {delta : Option Delta} (hcheck : checkAction app.state sender action = .ok ())
    (hd : ∀ d, delta = some d → Collected app.state (app.state.MayHold sender action) d) :
    (∃ s, app.state.Called sender action delta.isSome s ∧
        app.behind sender action delta = some { app with state := s }) ∨
      (action = .deleteApplication ∧ delta.isSome = true ∧
        app.behind sender action delta = none) := by
  cases delta with
  | none =>
    by_cases hclear : action = .clearState
    · subst hclear
      exact .inl ⟨_, .clearState .none, rfl⟩
    · exact .inl ⟨app.state, .rejected hclear, Application.behind_none hclear⟩
  | some d =>
    have hd := hd d rfl
    cases action with
    | noOp => exact .inl ⟨_, .noOp hd, rfl⟩
    | optIn => exact .inl ⟨_, .optIn hd, rfl⟩
    | closeOut => exact .inl ⟨_, .closeOut hd, rfl⟩
    | clearState => exact .inl ⟨_, .clearState hd, rfl⟩
    | updateApplication => cases hcheck
    | deleteApplication => exact .inr ⟨rfl, rfl, rfl⟩

/-- What a call that got to an outcome did. -/
theorem call_outcome {outcome : CallOutcome} (h : (r.call group index).1 = .ok outcome) :
    ∃ sender appId action app, callAt group index = .ok (sender, appId, action) ∧
      r.apps.get? appId = some app ∧ checkAction app.state sender action = .ok () ∧
      ((∃ s, app.state.Called sender action outcome.approved s ∧
          (r.call group index).2 = r.setState appId app s) ∨
        (action = .deleteApplication ∧ outcome.approved = true ∧
          (r.call group index).2 = { r with apps := r.apps.erase appId })) := by
  cases hadm : r.admitCall group index with
  | error e =>
    rw [call_of_refused hadm] at h
    cases h
  | ok admitted =>
    obtain ⟨sender, action, appId, app⟩ := admitted
    obtain ⟨hcall, hget, hcheck⟩ := admitCall_eq_ok hadm
    refine ⟨sender, appId, action, app, hcall, hget, hcheck, ?_⟩
    rw [call_of_admitted hadm] at h ⊢
    cases h
    rw [approved_ofRun]
    have hcollected (d : Delta)
        (hd : approvedDelta? (r.callRun group index appId app action) = some d) :
        Collected app.state (app.state.MayHold sender action) d := collected_of_approved hcall hd
    rcases called_behind hcheck hcollected with
      ⟨s, hcalled, hbehind⟩ | ⟨hdelete, happroved, hbehind⟩
    · rw [hbehind]
      exact .inl ⟨s, hcalled, rfl⟩
    · rw [hbehind]
      exact .inr ⟨hdelete, happroved, rfl⟩

/-! ### Creations -/

theorem not_approved_of_rejects {outcome : CallOutcome} (h : rejects (.ok outcome) = true) :
    ¬ outcome.approved = true := by
  simpa [rejects] using h

/-- A creation is refused or not approved and leaves the registry as it was, or it stores an
application under the next id. -/
theorem create_cases (r : Registry) (program : CompiledProgram) (globalSchema localSchema : Schema)
    (group : Group) (index : Nat) :
    (rejects (r.create program globalSchema localSchema group index).1 = true ∧
      (r.create program globalSchema localSchema group index).2 = r) ∨
    ∃ outcome action app,
      (r.create program globalSchema localSchema group index).1 = .ok outcome ∧
      outcome.approved = true ∧ outcome.appId = r.nextId ∧
      callAt group index = .ok (app.creator, 0, action) ∧
      (AppState.fresh globalSchema localSchema).Created app.creator action app.state ∧
      (r.create program globalSchema localSchema group index).2 =
        { r with apps := r.apps.insert r.nextId app, nextId := r.nextId + 1 } := by
  cases hadm : admitCreation program group index with
  | error e =>
    rw [create_of_refused hadm]
    exact .inl ⟨rfl, rfl⟩
  | ok admitted =>
    obtain ⟨creator, action, approval, clearState⟩ := admitted
    have hcall := (admitCreation_eq_ok hadm).1
    cases hd : approvedDelta? (r.creationRun group index creator approval
        (.fresh globalSchema localSchema)) with
    | none =>
      rw [create_of_rejected hadm hd, rejects, approved_ofRun, hd]
      exact .inl ⟨rfl, rfl⟩
    | some d =>
      have hcollected := collected_of_approved hcall hd
      rw [create_of_approved hadm hd]
      refine .inr ⟨_, action, _, rfl, ?_, appId_ofRun _ _, hcall, ?_, rfl⟩
      · rw [approved_ofRun, hd]
        rfl
      · rw [newApp]
        by_cases haction : action = .optIn
        · subst haction
          exact .optIn hcollected
        · rw [if_neg haction]
          exact .other haction hcollected

/-! ### All operations -/

/-- Where the applications behind an operation come from. -/
theorem origin_of_apply {op : Operation} {appId : UInt64} {app : Application}
    (h : (op.apply r).2.apps.get? appId = some app) : Origin r appId app op (op.apply r).1 := by
  cases op with
  | create program globalSchema localSchema group index =>
    have h : (r.create program globalSchema localSchema group index).2.apps.get? appId =
      some app := h
    show Origin r appId app _ (.outcome (r.create program globalSchema localSchema group index).1)
    rcases r.create_cases program globalSchema localSchema group index with
      ⟨-, hafter⟩ | ⟨outcome, action, new, hresult, ha, hid, hcall, hstate, hafter⟩
    · rw [hafter] at h
      exact .kept h
    · rw [hafter] at h
      rw [hresult]
      by_cases happ : appId = r.nextId
      · subst happ
        rw [SortedMap.get?_insert_self] at h
        cases h
        exact .created hcall ha hid hstate
      · rw [SortedMap.get?_insert_of_ne _ _ happ] at h
        exact .kept h
  | call group index =>
    have h : (r.call group index).2.apps.get? appId = some app := h
    show Origin r appId app _ (.outcome (r.call group index).1)
    cases hresult : (r.call group index).1 with
    | error e =>
      rw [call_of_error hresult] at h
      exact .kept h
    | ok outcome =>
      obtain ⟨sender, id, action, old, hcall, hget, -, ⟨s, hs, hafter⟩ | ⟨-, -, hafter⟩⟩ :=
        call_outcome hresult
      · rw [hafter, get?_setState] at h
        split at h
        · next hid =>
          subst hid
          cases h
          exact .called hcall hget hs rfl
        · exact .kept h
      · rw [hafter] at h
        by_cases hid : appId = id
        · subst hid
          rw [SortedMap.get?_erase_self] at h
          cases h
        · rw [SortedMap.get?_erase_of_ne _ hid] at h
          exact .kept h
  | setRound | setTimestamp | setBudget | getRound | get | list | count => exact .kept h

end Registry

end ContractBench
