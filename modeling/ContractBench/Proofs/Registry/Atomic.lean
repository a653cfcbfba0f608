import ContractBench.Proofs.Registry.Entry
import ContractBench.Proofs.Registry.History
/-!
# Operations that fail leave nothing behind

An operation is void if it is a creation or call that is refused or not approved; only a call that
clears state does something then, it drops the local store of its sender. A void operation leaves
the registry as it was, so that a history without its void operations goes as before:

    op.isVoid (op.apply r).1 → (op.apply r).2 = r                          (apply_of_isVoid)
    r.history (r.effective ops) = (r.history ops).filter (!·.isVoid)       (history_effective)
-/

namespace ContractBench

namespace Registry

/-! ## Algorithm -/

/-- An error, or an outcome that was not approved. -/
def rejects : Except AppError CallOutcome → Bool
  | .ok outcome => !outcome.approved
  | .error _ => true

/-- Whether a group member calls an application to clear state. -/
def clears (group : Group) (index : Nat) : Bool :=
  match callAt group index with
  | .ok (_, _, action) => action == .clearState
  | .error _ => false

/-- A creation or call that was refused or not approved, other than one that clears state and got to
an outcome. -/
def Operation.isVoid : Operation → Response → Bool
  | .create .., .outcome result => rejects result
  | .call .., .outcome (.error _) => true
  | .call group index, .outcome (.ok outcome) => !outcome.approved && !clears group index
  | _, _ => false

/-- The operations that are not void when their turn comes, with their answers. -/
def effects (r : Registry) (ops : List Operation) : List (Operation × Response) :=
  (r.history ops).filter fun e => !e.1.isVoid e.2

/-- The operations that are not void when their turn comes. -/
def effective (r : Registry) (ops : List Operation) : List Operation :=
  (r.effects ops).map (·.1)

/-! ## Lemmas -/

variable {r : Registry}

/-- A creation that is refused or not approved leaves the registry as it was. -/
theorem create_of_rejects {program : CompiledProgram} {globalSchema localSchema : Schema}
    {group : Group} {index : Nat}
    (h : rejects (r.create program globalSchema localSchema group index).1) :
    (r.create program globalSchema localSchema group index).2 = r := by
  cases hadm : admitCreation program group index with
  | error e => rw [create_of_refused hadm]
  | ok admitted =>
    obtain ⟨creator, action, approval, clearState⟩ := admitted
    cases hdelta : approvedDelta? (r.creationRun group index creator approval
        (.fresh globalSchema localSchema)) with
    | none => rw [create_of_rejected hadm hdelta]
    | some delta =>
      -- a creation whose writes count was approved
      rw [create_of_approved hadm hdelta, rejects, approved_ofRun, hdelta] at h
      cases h

/-- A call that is refused leaves the registry as it was. -/
theorem call_of_error {group : Group} {index : Nat} {e : AppError}
    (h : (r.call group index).1 = .error e) : (r.call group index).2 = r := by
  cases hadm : r.admitCall group index with
  | error e => rw [call_of_refused hadm]
  | ok admitted =>
    obtain ⟨sender, action, appId, app⟩ := admitted
    rw [call_of_admitted hadm] at h
    cases h

/-- A call that is not approved leaves the registry as it was, unless it clears state. -/
theorem call_of_rejected {group : Group} {index : Nat} {outcome : CallOutcome}
    (h : (r.call group index).1 = .ok outcome) (ha : outcome.approved = false)
    (hc : clears group index = false) : (r.call group index).2 = r := by
  cases hadm : r.admitCall group index with
  | error e => rw [call_of_refused hadm]
  | ok admitted =>
    obtain ⟨sender, action, appId, app⟩ := admitted
    obtain ⟨hcall, hget, -⟩ := admitCall_eq_ok hadm
    have haction : action ≠ .clearState := by
      rw [clears, hcall] at hc
      simpa using hc
    rw [call_of_admitted hadm] at h ⊢
    cases h
    rw [approved_ofRun] at ha
    rw [Option.isSome_eq_false_iff, Option.isNone_iff_eq_none] at ha
    rw [ha, Application.behind_none haction, setEntry_self hget]

/-- A call that clears state and is not approved drops the local store of its sender, which was
there. -/
theorem call_of_rejected_clears {group : Group} {index : Nat} {sender : Address} {appId : UInt64}
    {outcome : CallOutcome} (hcall : callAt group index = .ok (sender, appId, .clearState))
    (h : (r.call group index).1 = .ok outcome) (ha : outcome.approved = false) :
    ∃ app, r.apps.get? appId = some app ∧ app.state.isOptedIn sender = true ∧
      (r.call group index).2 = r.setState appId app (app.state.closeOut sender) := by
  cases hadm : r.admitCall group index with
  | error e =>
    rw [call_of_refused hadm] at h
    cases h
  | ok admitted =>
    obtain ⟨sender', action, appId', app⟩ := admitted
    obtain ⟨hcall', hget, hcheck⟩ := admitCall_eq_ok hadm
    cases hcall'.symm.trans hcall
    rw [call_of_admitted hadm] at h ⊢
    cases h
    rw [approved_ofRun, Option.isSome_eq_false_iff, Option.isNone_iff_eq_none] at ha
    rw [ha]
    refine ⟨app, hget, ?_, rfl⟩
    by_cases hopt : app.state.isOptedIn sender
    · exact hopt
    · rw [checkAction, if_neg hopt] at hcheck
      cases hcheck

/-! ### Histories -/

/-- A void operation leaves the registry as it was. -/
theorem apply_of_isVoid {op : Operation} (h : op.isVoid (op.apply r).1 = true) :
    (op.apply r).2 = r := by
  cases op with
  | create program globalSchema localSchema group index => exact create_of_rejects h
  | call group index =>
    cases hres : (r.call group index).1 with
    | error e => exact call_of_error hres
    | ok outcome =>
      have h : Operation.isVoid (.call group index) (.outcome (r.call group index).1) = true := h
      rw [hres] at h
      simp only [Operation.isVoid, Bool.and_eq_true, Bool.not_eq_true'] at h
      exact call_of_rejected hres h.1 h.2
  | _ => cases h

theorem effects_cons_of_isVoid {op : Operation} {ops : List Operation}
    (h : op.isVoid (op.apply r).1 = true) : r.effects (op :: ops) = r.effects ops := by
  rw [effects, history_cons, List.filter_cons_of_neg (by simp [h]), apply_of_isVoid h, effects]

theorem effects_cons {op : Operation} {ops : List Operation}
    (h : op.isVoid (op.apply r).1 = false) :
    r.effects (op :: ops) = (op, (op.apply r).1) :: (op.apply r).2.effects ops := by
  rw [effects, history_cons, List.filter_cons_of_pos (by simp [h]), effects]

/-- Without its void operations a history goes as before and ends in the same registry. -/
theorem history_effective (r : Registry) (ops : List Operation) :
    r.history (r.effective ops) = r.effects ops ∧ r.after (r.effective ops) = r.after ops := by
  induction ops generalizing r with
  | nil => exact ⟨rfl, rfl⟩
  | cons op rest ih =>
    cases h : op.isVoid (op.apply r).1 with
    | true =>
      rw [effective, effects_cons_of_isVoid h, after_cons, apply_of_isVoid h]
      exact ih r
    | false =>
      obtain ⟨hh, ha⟩ := ih (op.apply r).2
      rw [effective, effects_cons h, List.map_cons, history_cons, after_cons, after_cons]
      exact ⟨congrArg _ hh, ha⟩

/-! ## Top theorems -/

/-- Creations and calls are atomic. What is refused or not approved leaves the registry as it was;
a call that clears state and is not approved only drops the local store of its sender. So a history
without its void operations has the same other answers and ends in the same registry. -/
theorem void_operations_leave_nothing (r : Registry) :
    (∀ program globalSchema localSchema group index,
      rejects (r.create program globalSchema localSchema group index).1 = true →
        (r.create program globalSchema localSchema group index).2 = r) ∧
    (∀ group index e, (r.call group index).1 = .error e → (r.call group index).2 = r) ∧
    (∀ group index outcome, (r.call group index).1 = .ok outcome → outcome.approved = false →
      clears group index = false → (r.call group index).2 = r) ∧
    (∀ group index sender appId outcome, callAt group index = .ok (sender, appId, .clearState) →
      (r.call group index).1 = .ok outcome → outcome.approved = false →
        ∃ app, r.apps.get? appId = some app ∧ app.state.isOptedIn sender = true ∧
          (r.call group index).2 = r.setState appId app (app.state.closeOut sender)) ∧
    ∀ ops, r.history (r.effective ops) = r.effects ops ∧ r.after (r.effective ops) = r.after ops :=
  ⟨fun _ _ _ _ _ h => create_of_rejects h, fun _ _ _ h => call_of_error h,
    fun _ _ _ h ha hc => call_of_rejected h ha hc,
    fun _ _ _ _ _ hcall h ha => call_of_rejected_clears hcall h ha, history_effective r⟩

end Registry

end ContractBench
