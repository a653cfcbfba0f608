import ContractBench.Proofs.Code.Pair
import ContractBench.Proofs.Registry.Deployment
/-!
# Deployed pairs and types

A creation runs the approval program of a pair over empty state, and a call one of the two programs
over what both have written so far. So a creation never goes wrong on types; calls do not either if
the trees use every key that one of them writes with one type, since all of them then leave state
that agrees with the types of both:

    app.Runs p → app.behind sender action delta = some app' → app'.Runs p            (Runs.behind)
    app.Runs p → TypesHold (r.call group index).1                              (typesHold_call)
-/

namespace ContractBench

/-! ## Algorithm -/

/-- An application runs a pair of trees, over state that agrees with the types of both. -/
structure Application.Runs (app : Application) (p : Program) : Prop where
  approval : app.approval = p.approvalCode
  clearState : app.clearState = p.clearStateCode
  state : app.state.Agrees p.keyUses

/-- An answer does not tell of a fault that types exclude. -/
def Registry.TypesHold (result : Except AppError CallOutcome) : Prop :=
  ∀ outcome fault, result = .ok outcome → outcome.fault = some fault → fault.illTyped = false

/-! ## Lemmas -/

/-! ### Runs -/

section

variable {run : Except Fault ExecutionResult × Nat} {types : KeyTypes}

/-- The writes of a run that keeps to the types are of the declared types, if they count. -/
theorem agrees_of_approvedDelta? {d : Delta}
    (h : Checked (fun r : ExecutionResult => r.delta.Agrees types) run.1)
    (hd : Registry.approvedDelta? run = some d) : d.Agrees types := by
  obtain ⟨result, cost⟩ := run
  cases h with
  | error he => cases hd
  | @ok r hr =>
    unfold Registry.approvedDelta? at hd
    dsimp only at hd
    split at hd
    · cases hd
      exact hr
    · cases hd

theorem typesHold_ofRun {Q : ExecutionResult → Prop} (h : Checked Q run.1) (appId : UInt64) :
    Registry.TypesHold (.ok (.ofRun appId run)) := by
  rintro outcome fault houtcome hfault
  cases houtcome
  obtain ⟨result, cost⟩ := run
  cases h with
  | ok hr => cases hfault
  | error he =>
    cases hfault
    exact he

end

/-! ### Applications -/

namespace Application.Runs

variable {p : Program} {compiled : CompiledProgram} {app app' : Application}

/-- Writes of the types of both trees leave an application that runs the pair, if it stays. -/
theorem behind (h : app.Runs p) {sender : Address} {action : OnComplete} {delta : Option Delta}
    (hdelta : ∀ d, delta = some d → d.Agrees p.keyUses)
    (hbehind : app.behind sender action delta = some app') : app'.Runs p := by
  have hkeep : ∀ s : AppState, s.Agrees p.keyUses → Runs { app with state := s } p :=
    fun s hs => ⟨h.approval, h.clearState, hs⟩
  cases delta with
  | none =>
    cases action with
    | clearState =>
      cases hbehind
      exact hkeep _ (AppState.agrees_closeOut h.state sender)
    | _ =>
      cases hbehind
      exact h
  | some d =>
    have hd := hdelta d rfl
    have hcommit := AppState.agrees_commit h.state hd
    cases action with
    | deleteApplication => cases hbehind
    | clearState | closeOut =>
      cases hbehind
      exact hkeep _ (AppState.agrees_closeOut hcommit sender)
    | optIn =>
      cases hbehind
      exact hkeep _ (AppState.agrees_commit (AppState.agrees_optIn h.state sender) hd)
    | noOp | updateApplication =>
      cases hbehind
      exact hkeep _ hcommit

/-- Whichever of the two programs a call runs, it keeps the types of both trees. -/
theorem checked_callRun (hb : p.Built) (hc : p.compile = .ok compiled) (hp : p.PutsAgreeWithin)
    (h : app.Runs p) (r : Registry) (group : Group) (index : Nat) (appId : UInt64)
    (action : OnComplete) :
    Checked (fun result : ExecutionResult => result.delta.Agrees p.keyUses)
      (r.callRun group index appId app action).1 := by
  obtain ⟨⟨-, ht⟩, -, ht'⟩ := Program.trees_of_compile hb hc
  obtain ⟨hd, hd'⟩ := Program.declared_of_putsAgree hb hc hp
  unfold Registry.callRun programFor
  split
  · rw [h.clearState]
    exact Expr.checked_linked hb.clearState ht' hd' _ _ h.state group index _
  · rw [h.approval]
    exact Expr.checked_linked hb.approval ht hd _ _ h.state group index _

end Application.Runs

namespace Registry

variable {r : Registry} {p : Program} {compiled : CompiledProgram} {group : Group} {index : Nat}
  {appId : UInt64}

/-! ### Creations -/

theorem agrees_fresh (globalSchema localSchema : Schema) (types : KeyTypes) :
    (AppState.fresh globalSchema localSchema).Agrees types :=
  ⟨SortedMap.all_empty, SortedMap.all_empty⟩

/-- A creation that calls application 0 runs the approval program. -/
theorem admitCreation_of_compile (hb : p.Built) (hc : p.compile = .ok compiled)
    {creator : Address} {action : OnComplete}
    (hcall : callAt group index = .ok (creator, 0, action)) :
    admitCreation compiled group index =
      .ok (creator, action, p.approvalCode, p.clearStateCode) := by
  unfold admitCreation
  rw [hcall, Program.assemblePair_of_compile hb hc]
  rfl

/-- The creation of a pair that compiles does not go wrong on types. -/
theorem typesHold_create (hb : p.Built) (hc : p.compile = .ok compiled) (r : Registry)
    (globalSchema localSchema : Schema) (group : Group) (index : Nat) :
    TypesHold (r.create compiled globalSchema localSchema group index).1 := by
  cases hadm : admitCreation compiled group index with
  | error e =>
    rw [create_of_refused hadm]
    rintro outcome fault h
    cases h
  | ok admitted =>
    obtain ⟨creator, action, approval, clearState⟩ := admitted
    have hpair := (admitCreation_eq_ok hadm).2
    cases (Program.assemblePair_of_compile hb hc).symm.trans hpair
    obtain ⟨⟨ha, ht⟩, -⟩ := Program.trees_of_compile hb hc
    -- the clear-state tree has no part in a creation
    have hrun := Expr.checked_linked hb.approval ht (Expr.declared_keyUses ha) p.version "approval"
      (agrees_fresh globalSchema localSchema _) group index (r.context 0 creator)
    obtain ⟨appId, hresult⟩ : ∃ appId, (r.create compiled globalSchema localSchema group index).1 =
        .ok (.ofRun appId _) := create_of_admitted hadm
    rw [hresult]
    exact typesHold_ofRun hrun appId

/-- An approved creation of a pair whose keys agree stores an application that runs the pair. -/
theorem runs_of_create (hb : p.Built) (hc : p.compile = .ok compiled) (hp : p.PutsAgreeWithin)
    {globalSchema localSchema : Schema} {outcome : CallOutcome}
    (h : (r.create compiled globalSchema localSchema group index).1 = .ok outcome)
    (ha : outcome.approved = true) :
    ∀ app, (r.create compiled globalSchema localSchema group index).2.apps.get? outcome.appId =
      some app → app.Runs p := by
  intro app hget
  obtain ⟨creator, action, approval, clearState, delta, hadm, hd, hid, hafter⟩ :=
    create_eq_of_approved h ha
  cases (Program.assemblePair_of_compile hb hc).symm.trans (admitCreation_eq_ok hadm).2
  rw [hafter, hid, addApp, SortedMap.get?_insert_self] at hget
  cases hget
  have hfresh : (AppState.fresh globalSchema localSchema).Agrees p.keyUses := agrees_fresh _ _ _
  obtain ⟨⟨-, ht⟩, -⟩ := Program.trees_of_compile hb hc
  obtain ⟨hdeclared, -⟩ := Program.declared_of_putsAgree hb hc hp
  have hrun := Expr.checked_linked hb.approval ht hdeclared p.version "approval" hfresh group index
    (r.context 0 creator)
  have hdelta := agrees_of_approvedDelta? hrun hd
  refine ⟨rfl, rfl, AppState.agrees_commit ?_ hdelta⟩
  split
  · exact AppState.agrees_optIn hfresh creator
  · exact hfresh

/-! ### Calls -/

/-- A call of an application that runs a pair does not go wrong on types. -/
theorem typesHold_call (hb : p.Built) (hc : p.compile = .ok compiled) (hp : p.PutsAgreeWithin)
    (h : ∀ app, r.apps.get? appId = some app → app.Runs p) {sender : Address} {action : OnComplete}
    (hcall : callAt group index = .ok (sender, appId, action)) :
    TypesHold (r.call group index).1 := by
  cases hadm : r.admitCall group index with
  | error e =>
    rw [call_of_refused hadm]
    rintro outcome fault h
    cases h
  | ok admitted =>
    obtain ⟨sender', action', appId', app⟩ := admitted
    obtain ⟨hcall', hget, -⟩ := admitCall_eq_ok hadm
    cases hcall.symm.trans hcall'
    rw [call_of_admitted hadm]
    exact typesHold_ofRun ((h app hget).checked_callRun hb hc hp r group index appId action) appId

/-- An application that runs a pair does so as long as it lives. -/
theorem runs_after (hb : p.Built) (hc : p.compile = .ok compiled) (hp : p.PutsAgreeWithin)
    (h : ∀ app, r.apps.get? appId = some app → app.Runs p) {ops : List Operation}
    (hid : appId ∉ r.createdIds ops) :
    ∀ app, (r.after ops).apps.get? appId = some app → app.Runs p := by
  refine holds_after ?_ hid h
  intro r group index sender action old new _ hold hbehind
  have hrun := hold.checked_callRun hb hc hp r group index appId action
  exact hold.behind (fun d hd => agrees_of_approvedDelta? hrun hd) hbehind

/-! ## Two pairs -/

/-- The approval program writes a word where the clear-state program writes a string. -/
def clashing : Program where
  approval := .seq [.globalPut [110] (.int 1), .approve]
  clearState := .seq [.globalPut [110] (.bytes [120]), .approve]
  version := 2

/-- Counts its calls, until someone clears state. -/
def settling : Program where
  approval := .counter
  clearState := .seq [.globalPut [110] (.int 0), .approve]
  version := 2

/-- A tree that stores a literal and approves. -/
theorem built_store {e : Expr} {t : ValueType} (key : Bytes) (he : e.Built)
    (ht : e.type = .value t) : Expr.Built (.seq [.globalPut key e, .approve]) := by
  refine .seq fun item hitem => ?_
  rcases List.mem_cons.1 hitem with rfl | hitem
  · exact .globalPut he (Expr.admitted_iff_fits.2 ⟨t, ht⟩)
  · cases List.mem_singleton.1 hitem
    exact .verdict true

theorem built_clashing : clashing.Built :=
  ⟨built_store _ (.int 1) rfl, built_store _ (.bytes _) rfl⟩

theorem built_settling : settling.Built := ⟨Expr.built_counter, built_store _ (.int 0) rfl⟩

theorem putsAgree_settling : settling.PutsAgree := by
  have hall : ∀ u ∈ settling.approval.keyUses, ∀ u' ∈ settling.clearState.keyUses, u.2 = u'.2 := by
    decide
  intro k _ t t' hu hu'
  exact hall _ (hu.mem_keyUses built_settling.approval) _ (hu'.mem_keyUses built_settling.clearState)

/-- The creation of a pair by an account that opts in. -/
def deploying (p : Program) : Except AppError CallOutcome × Registry :=
  ({} : Registry).create p.listings ⟨1, 1⟩ {} (.single (.appCall .zero 0 .optIn)) 0

/-- A call of the first application by the account that created it. -/
def calling (action : OnComplete) : Group := .single (.appCall .zero 1 action)

/-- What the approval program wrote, the clear-state program may not write over. -/
theorem clashing_goes_wrong :
    clashing.Built ∧ clashing.compile = .ok clashing.listings ∧
    (deploying clashing).1.toOption.map (fun outcome => (outcome.appId, outcome.approved)) =
      some (1, true) ∧
    ((deploying clashing).2.call (calling .clearState) 0).1.toOption.bind CallOutcome.fault =
      some (.state (.schemaViolation [110] .int .bytes)) :=
  ⟨built_clashing, rfl, by decide +kernel⟩

/-- Clearing state takes the count back. -/
theorem cleared_settling :
    (deploying settling).1.toOption.map (fun outcome => (outcome.appId, outcome.approved)) =
      some (1, true) ∧
    1 ∉ (deploying settling).2.createdIds [.call (calling .noOp) 0] ∧
    (((deploying settling).2.after [.call (calling .noOp) 0]).call (calling .clearState)
      0).1.toOption = some ⟨1, true, [], none, 5⟩ := by
  decide +kernel

/-! ## Top theorem -/

/-- A deployed pair does not go wrong on types. Whatever a registry holds and whatever the schemas
are, the creation of a pair that compiles gets to an outcome, which tells of no fault that types
exclude. If the trees use every key that one of them writes with one type, dead items aside, then no
call of the application, for any action and after any operations, tells of such a fault; its id is
that of the application as long as no other creation is given it. -/
theorem deployed_pairs_keep_types (hb : p.Built) (hc : p.compile = .ok compiled) (r : Registry)
    (globalSchema localSchema : Schema) (group : Group) (index : Nat) :
    let creation := r.create compiled globalSchema localSchema group index
    (∀ creator action, callAt group index = .ok (creator, 0, action) →
      ∃ outcome, creation.1 = .ok outcome) ∧
    TypesHold creation.1 ∧
    (p.PutsAgree → ∀ outcome, creation.1 = .ok outcome → outcome.approved = true →
      ∀ ops, outcome.appId ∉ creation.2.createdIds ops →
        ∀ group index sender action, callAt group index = .ok (sender, outcome.appId, action) →
          TypesHold ((creation.2.after ops).call group index).1) := by
  intro creation
  refine ⟨?_, typesHold_create hb hc r globalSchema localSchema group index, ?_⟩
  · intro creator action hcall
    obtain ⟨appId, hresult⟩ := create_of_admitted (admitCreation_of_compile hb hc hcall)
    exact ⟨_, hresult⟩
  · intro hp outcome h ha ops hid group index sender action hcall
    -- the pair runs as its live part does, all of whose nodes agree
    have hb' := Program.built_live hb
    have hc' := Program.compile_live hb hc
    have hp' := Program.putsAgreeWithin_live hb hp
    have hruns := runs_after hb' hc' hp' (runs_of_create hb' hc' hp' h ha) hid
    exact typesHold_call hb' hc' hp' hruns hcall

theorem deployed_pairs_keep_types_settling :
    let counted := (deploying settling).2.after [.call (calling .noOp) 0]
    (counted.call (calling .clearState) 0).1.toOption = some ⟨1, true, [], none, 5⟩ ∧
      TypesHold (counted.call (calling .clearState) 0).1 := by
  obtain ⟨hcreated, hlives, hcleared⟩ := cleared_settling
  have hcompile : settling.compile = .ok settling.listings := rfl
  obtain ⟨hcreates, -, hcalls⟩ := deployed_pairs_keep_types built_settling hcompile {} ⟨1, 1⟩ {}
    (.single (.appCall .zero 0 .optIn)) 0
  obtain ⟨outcome, houtcome⟩ := hcreates .zero .optIn rfl
  have hdeployed : (deploying settling).1 = .ok outcome := houtcome
  rw [hdeployed] at hcreated
  obtain ⟨hid, ha⟩ := Prod.mk.inj (Option.some.inj hcreated)
  refine ⟨hcleared, hcalls putsAgree_settling outcome houtcome ha _ ?_ _ 0 .zero .clearState ?_⟩
  · exact fun hagain => hlives (hid ▸ hagain)
  · rw [hid]
    rfl

end Registry

end ContractBench
