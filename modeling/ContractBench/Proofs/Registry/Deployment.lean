import ContractBench.Proofs.Registry.Ids
/-!
# What stays of an application

After its creation only calls of an application touch its entry, so what every call keeps holds of
the application as long as it lives. Calls keep all but the state, and of the state the schemas.
Until the counter of ids wraps, an id stands for one application:

    (calls keep P) → appId ∉ r.createdIds ops → P holds of the application in r.after ops
                                                                               (holds_after)
    app.behind sender action delta = some app' → app'.deployment = app.deployment
                                                                        (deployment_behind)
    r.Numbered → (r.createdIds ops).Pairwise (· < ·)                  (Numbered.increasing)
    the same id at two times → app'.deployment = app.deployment   (Numbered.deployment_after)
-/

namespace ContractBench

/-! ## Algorithm -/

/-- What an application keeps from its creation to its end. -/
structure Deployment where
  id : UInt64
  creator : Address
  /-- The round it was created in. -/
  createdAt : UInt64
  approval : Executable
  clearState : Executable
  globalSchema : Schema
  localSchema : Schema
deriving DecidableEq

def Application.deployment (app : Application) : Deployment where
  id := app.id
  creator := app.creator
  createdAt := app.createdAt
  approval := app.approval
  clearState := app.clearState
  globalSchema := app.state.globalSchema
  localSchema := app.state.localSchema

/-! ## Lemmas -/

namespace Application

variable {app app' : Application} {s : AppState} {sender : Address} {action : OnComplete}
  {delta : Option Delta}

theorem deployment_of_schemas
    (h : s.globalSchema = app.state.globalSchema ∧ s.localSchema = app.state.localSchema) :
    { app with state := s }.deployment = app.deployment := by
  unfold deployment
  rw [h.1, h.2]

/-- A call that leaves an application leaves all of it but what its stores hold. -/
theorem deployment_behind (h : app.behind sender action delta = some app') :
    app'.deployment = app.deployment := by
  cases delta with
  | none =>
    cases action with
    | clearState =>
      cases h
      exact deployment_of_schemas ⟨rfl, rfl⟩
    | _ =>
      cases h
      rfl
  | some d =>
    cases action with
    | deleteApplication => cases h
    | optIn =>
      cases h
      exact deployment_of_schemas (app.state.schemas_optIn sender)
    | _ =>
      cases h
      exact deployment_of_schemas ⟨rfl, rfl⟩

end Application

namespace Registry

variable {r : Registry} {op : Operation} {ops : List Operation} {appId : UInt64}
  {app app' : Application}

/-! ### The entry of an application -/

/-- An operation that does not create an application leaves its entry as it was, or is a call of
it. -/
theorem entry_of_apply (hid : op.created? (op.apply r).1 ≠ some appId) :
    (op.apply r).2.apps.get? appId = r.apps.get? appId ∨
      ∃ group index sender action app,
        r.admitCall group index = .ok (sender, action, appId, app) ∧
          (op.apply r).2.apps.get? appId = app.behind sender action
            (approvedDelta? (r.callRun group index appId app action)) := by
  cases op with
  | create program globalSchema localSchema group index =>
    left
    rcases r.create_cases program globalSchema localSchema group index with
      ⟨-, hafter⟩ | ⟨outcome, action, app, hresult, ha, hnew, -, -, hafter⟩
    · exact congrArg (·.apps.get? appId) hafter
    · have hcreated : Operation.created? (.create program globalSchema localSchema group index)
          (.outcome (r.create program globalSchema localSchema group index).1) = some r.nextId := by
        rw [hresult, Operation.created?, if_pos ha, hnew]
      have hne : appId ≠ r.nextId := fun h => hid (h ▸ hcreated)
      exact (congrArg (·.apps.get? appId) hafter).trans (SortedMap.get?_insert_of_ne _ _ hne)
  | call group index =>
    show (r.call group index).2.apps.get? appId = _ ∨ _
    cases hadm : r.admitCall group index with
    | error e =>
      rw [call_of_refused hadm]
      exact .inl rfl
    | ok admitted =>
      obtain ⟨sender, action, id, app⟩ := admitted
      have hcall := call_of_admitted hadm
      by_cases heq : appId = id
      · subst heq
        refine .inr ⟨group, index, sender, action, app, hadm, ?_⟩
        show (r.call group index).2.apps.get? appId = _
        rw [hcall, get?_setEntry, if_pos rfl]
      · rw [hcall, get?_setEntry, if_neg heq]
        exact .inl rfl
  | setRound | setTimestamp | setBudget | getRound | get | list | count => exact .inl rfl

/-- What all calls of an application keep holds of it as long as it lives. -/
theorem holds_after {P : Application → Prop}
    (hstep : ∀ (r : Registry) group index sender action app app',
      r.admitCall group index = .ok (sender, action, appId, app) → P app →
        app.behind sender action (approvedDelta? (r.callRun group index appId app action)) =
          some app' → P app')
    (hid : appId ∉ r.createdIds ops) (h : ∀ app, r.apps.get? appId = some app → P app) :
    ∀ app, (r.after ops).apps.get? appId = some app → P app := by
  induction ops generalizing r with
  | nil => exact h
  | cons op ops ih =>
    rw [createdIds_cons, List.mem_append, not_or, Option.mem_toList] at hid
    refine ih hid.2 fun app hget => ?_
    rcases entry_of_apply hid.1 with
      hkept | ⟨group, index, sender, action, old, hadm, hbehind⟩
    · exact h app (hkept.symm.trans hget)
    · have hold := h old (admitCall_eq_ok hadm).2.1
      exact hstep r group index sender action old app hadm hold (hbehind.symm.trans hget)

/-- An application that is not created on the way keeps its deployment. -/
theorem deployment_after (hid : appId ∉ r.createdIds ops) (h : r.apps.get? appId = some app)
    (h' : (r.after ops).apps.get? appId = some app') : app'.deployment = app.deployment := by
  refine holds_after (P := fun a => a.deployment = app.deployment) ?_ hid ?_ app' h'
  · intro r group index sender action old new _ hold hbehind
    exact (Application.deployment_behind hbehind).trans hold
  · intro app'' hget
    cases h.symm.trans hget
    rfl

/-! ### Creations -/

theorem deployment_newApp (r : Registry) (creator : Address) (action : OnComplete)
    (approval clearState : Executable) (globalSchema localSchema : Schema) (delta : Delta) :
    (r.newApp creator action approval clearState (.fresh globalSchema localSchema)
      delta).deployment =
      ⟨r.nextId, creator, r.round, approval, clearState, globalSchema, localSchema⟩ := by
  unfold newApp
  split <;> rfl

/-- An approved creation stores an application under the next id, deployed as it was asked for. -/
theorem deployment_of_create {program : CompiledProgram} {globalSchema localSchema : Schema}
    {group : Group} {index : Nat} {outcome : CallOutcome}
    (h : (r.create program globalSchema localSchema group index).1 = .ok outcome)
    (ha : outcome.approved = true) :
    ∃ creator action approval clearState app,
      admitCreation program group index = .ok (creator, action, approval, clearState) ∧
      outcome.appId = r.nextId ∧
      (r.create program globalSchema localSchema group index).2 = r.addApp app ∧
      app.deployment =
        ⟨r.nextId, creator, r.round, approval, clearState, globalSchema, localSchema⟩ := by
  obtain ⟨creator, action, approval, clearState, delta, hadm, -, hid, hafter⟩ :=
    create_eq_of_approved h ha
  exact ⟨creator, action, approval, clearState, _, hadm, hid, hafter,
    deployment_newApp r creator action approval clearState globalSchema localSchema delta⟩

/-- The application that an operation creates is stored under its id. -/
theorem id_eq_of_created (hid : op.created? (op.apply r).1 = some appId)
    (h : (op.apply r).2.apps.get? appId = some app) : app.id = appId := by
  cases op with
  | create program globalSchema localSchema group index =>
    have h : (r.create program globalSchema localSchema group index).2.apps.get? appId =
      some app := h
    have hid : Operation.created? (.create program globalSchema localSchema group index)
      (.outcome (r.create program globalSchema localSchema group index).1) = some appId := hid
    cases hresult : (r.create program globalSchema localSchema group index).1 with
    | error e =>
      rw [hresult] at hid
      cases hid
    | ok outcome =>
      rw [hresult, Operation.created?] at hid
      split at hid
      · next ha =>
        cases hid
        obtain ⟨creator, action, approval, clearState, new, -, hnext, hafter, hdeployed⟩ :=
          deployment_of_create hresult ha
        rw [hafter, hnext, addApp, SortedMap.get?_insert_self] at h
        cases h
        rw [hnext]
        exact congrArg Deployment.id hdeployed
      · cases hid
  | call | setRound | setTimestamp | setBudget | getRound | get | list | count => cases hid

/-- Applications stay stored under their ids. -/
theorem id_eq_of_after (hr : ∀ id app, r.apps.get? id = some app → app.id = id)
    (h : (r.after ops).apps.get? appId = some app) : app.id = appId := by
  induction ops generalizing r with
  | nil => exact hr appId app h
  | cons op ops ih =>
    refine ih (fun id app hget => ?_) h
    by_cases hid : op.created? (op.apply r).1 = some id
    · exact id_eq_of_created hid hget
    · rcases entry_of_apply hid with hkept | ⟨_, _, _, _, old, hadm, hbehind⟩
      · exact hr id app (hkept.symm.trans hget)
      · have hold := hr id old (admitCall_eq_ok hadm).2.1
        have hsame := Application.deployment_behind (hbehind.symm.trans hget)
        exact (congrArg Deployment.id hsame).trans hold

/-! ### The counter of ids -/

/-- While the counter does not wrap, ids are given out in increasing order, from the next one on. -/
theorem Numbered.increasing (hr : r.Numbered)
    (hroom : r.nextId.toNat + (r.createdIds ops).length < UInt64.size) :
    (r.createdIds ops).Pairwise (· < ·) ∧ (∀ id ∈ r.createdIds ops, r.nextId ≤ id) ∧
      (r.after ops).nextId.toNat = r.nextId.toNat + (r.createdIds ops).length := by
  induction ops generalizing r with
  | nil => exact ⟨.nil, fun _ h => (nomatch h), rfl⟩
  | cons op ops ih =>
    rw [createdIds_cons, List.length_append] at hroom
    obtain ⟨hnumbered, hnext⟩ := hr.apply op (by omega)
    obtain ⟨hrest, hle, hlast⟩ := ih hnumbered (by omega)
    rw [createdIds_cons, after_cons, List.length_append]
    rcases created?_apply r op with ⟨hcreated, -⟩ | ⟨hcreated, -⟩
    · rw [hcreated, Option.toList_some, List.length_singleton] at hnext ⊢
      -- later ids are above the one given out here
      have hlt : ∀ id ∈ (op.apply r).2.createdIds ops, r.nextId < id := by
        intro id hid
        have := UInt64.le_iff_toNat_le.1 (hle id hid)
        exact UInt64.lt_iff_toNat_lt.2 (by omega)
      refine ⟨List.pairwise_cons.2 ⟨hlt, hrest⟩, fun id hid => ?_, by omega⟩
      rcases List.mem_cons.1 hid with rfl | hid
      · exact UInt64.le_refl _
      · exact UInt64.le_of_lt (hlt id hid)
    · rw [hcreated, Option.toList_none, List.length_nil] at hnext ⊢
      refine ⟨hrest, fun id hid => ?_, by omega⟩
      have := UInt64.le_iff_toNat_le.1 (hle id hid)
      exact UInt64.le_iff_toNat_le.2 (by omega)

theorem createdIds_append (r : Registry) (ops ops' : List Operation) :
    r.createdIds (ops ++ ops') = r.createdIds ops ++ (r.after ops).createdIds ops' := by
  unfold createdIds
  rw [history_append, List.filterMap_append]

/-- While the counter does not wrap, two applications that are found under one id at different times
are one. -/
theorem Numbered.deployment_after {ops' : List Operation} (hr : r.Numbered)
    (hroom : r.nextId.toNat + (r.createdIds (ops ++ ops')).length < UInt64.size)
    (h : (r.after ops).apps.get? appId = some app)
    (h' : (r.after (ops ++ ops')).apps.get? appId = some app') :
    app'.deployment = app.deployment := by
  rw [createdIds_append, List.length_append] at hroom
  have hbefore : r.nextId.toNat + (r.createdIds ops).length < UInt64.size := by omega
  have hmid : (r.after ops).Numbered := hr.after hbefore
  obtain ⟨-, -, hnext⟩ := hr.increasing hbefore
  rw [after_append] at h'
  refine Registry.deployment_after (hmid.not_mem_createdIds (by omega) ?_) h h'
  exact (hmid.in_range appId app h).2

/-! ## A history -/

/-- Approves whatever it is asked. -/
def approver : CompiledProgram :=
  ⟨2, "#pragma version 2
int 1
return", "#pragma version 2
int 1
return"⟩

/-- Rejects whatever it is asked. -/
def rejecter : CompiledProgram :=
  ⟨2, "#pragma version 2
int 0
return", "#pragma version 2
int 0
return"⟩

/-- One application is created and deleted, one is rejected, and then another is created. -/
def turnover : List Operation :=
  let creation := .single (.appCall .zero 0 .noOp)
  [.create approver {} {} creation 0, .call (.single (.appCall .zero 1 .deleteApplication)) 0,
    .create rejecter {} {} creation 0, .create approver {} {} creation 0]

/-! ## Top theorem -/

/-- Ids are given out in increasing order, once each, and what is deployed stays. In a history of
fewer than `2^64 - 1` approved creations every application is stored under its id, which is at least
1 and below the next one; approved creations return the next id, one above the other, and what is
refused or not approved takes none; and an application that is found under an id at two times has
the same creator, round of creation, programs and schemas. -/
theorem ids_increase_and_deployments_stay (ops : List Operation)
    (hroom : (({} : Registry).createdIds ops).length < UInt64.size - 1) :
    (∀ id app, (({} : Registry).after ops).apps.get? id = some app →
      app.id = id ∧ 1 ≤ id ∧ id < (({} : Registry).after ops).nextId) ∧
    (({} : Registry).createdIds ops).Pairwise (· < ·) ∧
    (({} : Registry).after ops).nextId.toNat = 1 + (({} : Registry).createdIds ops).length ∧
    ∀ before later, ops = before ++ later →
      (∀ program globalSchema localSchema group index,
        let creation := (({} : Registry).after before).create program globalSchema localSchema
          group index
        (rejects creation.1 = true → creation.2.nextId = (({} : Registry).after before).nextId) ∧
        ∀ outcome, creation.1 = .ok outcome → outcome.approved = true →
          outcome.appId = (({} : Registry).after before).nextId) ∧
      ∀ id app app', (({} : Registry).after before).apps.get? id = some app →
        (({} : Registry).after ops).apps.get? id = some app' → app'.deployment = app.deployment := by
  have hstart : ({} : Registry).nextId.toNat = 1 := rfl
  have hroom' : ({} : Registry).nextId.toNat + (({} : Registry).createdIds ops).length <
      UInt64.size := by omega
  obtain ⟨hincreasing, -, hnext⟩ := numbered_empty.increasing hroom'
  refine ⟨fun id app h => ?_, hincreasing, hnext, ?_⟩
  · obtain ⟨hpos, hlt⟩ := (numbered_empty.after hroom').in_range id app h
    have hid : app.id = id := id_eq_of_after (fun _ _ hget => by cases hget) h
    exact ⟨hid, UInt64.le_iff_toNat_le.2 hpos, UInt64.lt_iff_toNat_lt.2 hlt⟩
  · rintro before later rfl
    refine ⟨fun program globalSchema localSchema group index => ⟨fun hrejects => ?_, ?_⟩, ?_⟩
    · rw [create_of_rejects hrejects]
    · intro outcome hresult ha
      obtain ⟨_, _, _, _, _, -, hid, -⟩ := deployment_of_create hresult ha
      exact hid
    · intro id app app' h h'
      exact numbered_empty.deployment_after hroom' h h'

/-- The id of the deleted application is not given to the next one. -/
theorem ids_increase_and_deployments_stay_turnover :
    ({} : Registry).createdIds turnover = [1, 2] ∧
    (({} : Registry).after turnover).apps.keys = [2] ∧
    (({} : Registry).after turnover).nextId.toNat = 3 ∧
    (({} : Registry).createdIds turnover).Pairwise (· < ·) := by
  have hids : ({} : Registry).createdIds turnover = [1, 2] := by decide +kernel
  obtain ⟨-, hincreasing, hnext, -⟩ :=
    ids_increase_and_deployments_stay turnover (by rw [hids]; decide)
  refine ⟨hids, by decide +kernel, ?_, hincreasing⟩
  rw [hnext, hids]
  rfl

end Registry

end ContractBench
