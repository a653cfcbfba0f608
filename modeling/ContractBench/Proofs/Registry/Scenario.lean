import ContractBench.Proofs.Registry.Atomic
import ContractBench.Scenario
/-!
# What a simulation touches

A simulation creates one application, in a registry that holds none, and calls cannot add another. So
whatever a call got to is that application (`Registry.Within`), and after a creation that was not
approved every call is refused. A call that leaves the round and the registry as they are
(`ScenarioCall.Idle`) can be left out: the other records stay, but for the labels that tell a position
(`ScenarioCall.told`):

    r.Within ids → (submitAll n r cs).2.Within ids                              (within_submitAll)
    c.Idle (c.submit n r).1 → (c.submit n r).2 = r                                 (submit_of_idle)
    cs[i]? = some c → records[i]? = some record → c.Idle record →
      the records of cs.eraseIdx i tell the same, and the registry is the same (submitAll_eraseIdx)
-/

namespace ContractBench

/-! ## Algorithm -/

/-- Every application has one of some ids. -/
def Registry.Within (ids : UInt64 → Prop) (r : Registry) : Prop :=
  ∀ id app, r.apps.get? id = some app → ids id

namespace ScenarioCall

/-- What a record of a call tells, a label only if the call gave one. -/
def told (c : ScenarioCall) (record : CallRecord) :
    Option String × Option Digest × Except AppError CallOutcome :=
  (c.label.map fun _ => record.label, record.groupId, record.result)

/-- A call that leaves the round alone and came to nothing: it was refused, or it was not approved and
does not clear state. -/
structure Idle (c : ScenarioCall) (record : CallRecord) : Prop where
  round : c.round = none
  rejects : Registry.rejects record.result = true
  clears : ∀ outcome, record.result = .ok outcome →
    ∀ group, Group.ofList c.txns = .ok group → Registry.clears group c.index.toNat = false

end ScenarioCall

/-- The creation a simulation starts with. -/
def Scenario.created (s : Scenario) (template : Template) (p : CompiledProgram) (now : UInt64) :
    Except AppError CallOutcome × Registry :=
  ({ round := s.round, latestTimestamp := s.latestTimestamp.getD now } : Registry).create p
    (s.globalSchema.getD template.schemas.1) (s.localSchema.getD template.schemas.2)
    (.single (.appCall s.creator 0 (s.createAction.getD template.createAction))) 0

/-! ## Lemmas -/

namespace Registry

variable {r : Registry} {ids : UInt64 → Prop}

/-- A call adds no application, and what it got to was there. -/
theorem within_call (h : r.Within ids) (group : Group) (index : Nat) :
    (r.call group index).2.Within ids ∧
      ∀ outcome, (r.call group index).1 = .ok outcome → ids outcome.appId := by
  cases hadm : r.admitCall group index with
  | error e =>
    rw [call_of_refused hadm]
    refine ⟨h, ?_⟩
    rintro outcome ⟨⟩
  | ok admitted =>
    obtain ⟨sender, action, appId, app⟩ := admitted
    have hid : ids appId := h appId app (admitCall_eq_ok hadm).2.1
    rw [call_of_admitted hadm]
    constructor
    · intro id app' hget
      rw [get?_setEntry] at hget
      split at hget
      · next heq =>
        rw [heq]
        exact hid
      · exact h id app' hget
    · rintro outcome ⟨⟩
      rw [appId_ofRun]
      exact hid

/-- A creation adds the next id to those there were, if it is approved. -/
theorem within_create {program : CompiledProgram} {globalSchema localSchema : Schema} {group : Group}
    {index : Nat} {outcome : CallOutcome}
    (h : (r.create program globalSchema localSchema group index).1 = .ok outcome)
    (hr : r.Within ids) :
    (r.create program globalSchema localSchema group index).2.Within fun id =>
      ids id ∨ outcome.approved = true ∧ id = r.nextId := by
  cases ha : outcome.approved with
  | false =>
    have hrejects : rejects (r.create program globalSchema localSchema group index).1 = true := by
      rw [h, rejects, ha]
      rfl
    rw [create_of_rejects hrejects]
    exact fun id app hget => .inl (hr id app hget)
  | true =>
    obtain ⟨creator, action, approval, clearState, delta, -, -, -, hcreate⟩ :=
      create_eq_of_approved h ha
    rw [hcreate]
    intro id app hget
    by_cases hid : id = r.nextId
    · exact .inr ⟨rfl, hid⟩
    · have hold : r.apps.get? id = some app := by
        rw [← hget]
        exact (SortedMap.get?_insert_of_ne _ _ hid).symm
      exact .inl (hr id app hold)

end Registry

namespace ScenarioCall

open Registry

variable {ids : UInt64 → Prop} {c : ScenarioCall} {cs : List ScenarioCall}

/-! ### Records -/

/-- What a call is submitted to. -/
def ready (c : ScenarioCall) (r : Registry) : Registry :=
  match c.round with
  | some round => { r with round := round }
  | none => r

theorem submit_of_group {group : Group} (h : Group.ofList c.txns = .ok group) (n : Nat)
    (r : Registry) :
    c.submit n r =
      (⟨c.labelAt n, some group.id, ((c.ready r).call group c.index.toNat).1⟩,
        ((c.ready r).call group c.index.toNat).2) := by
  unfold submit
  rw [h]
  rfl

theorem submit_of_no_group {e : TransactionError} (h : Group.ofList c.txns = .error e) (n : Nat)
    (r : Registry) :
    c.submit n r = (⟨c.labelAt n, none, .error (.transaction e)⟩, c.ready r) := by
  unfold submit
  rw [h]
  rfl

theorem within_ready {r : Registry} (h : r.Within ids) : (c.ready r).Within ids := by
  unfold ready
  split <;> exact h

theorem submitAll_cons (n : Nat) (r : Registry) (c : ScenarioCall) (cs : List ScenarioCall) :
    submitAll n r (c :: cs) =
      ((c.submit n r).1 :: (submitAll (n + 1) (c.submit n r).2 cs).1,
        (submitAll (n + 1) (c.submit n r).2 cs).2) := rfl

theorem label_submit (c : ScenarioCall) (n : Nat) (r : Registry) :
    (c.submit n r).1.label = c.labelAt n := by
  cases h : Group.ofList c.txns with
  | ok group => rw [submit_of_group h]
  | error e => rw [submit_of_no_group h]

theorem groupId_submit (c : ScenarioCall) (n : Nat) (r : Registry) :
    (c.submit n r).1.groupId = (Group.ofList c.txns).toOption.map Group.id := by
  cases h : Group.ofList c.txns with
  | ok group => rw [submit_of_group h]; rfl
  | error e => rw [submit_of_no_group h]; rfl

/-- Transactions form a group if there are some and not too many. -/
theorem isSome_groupId (txns : List Transaction) :
    ((Group.ofList txns).toOption.map Group.id).isSome = true ↔
      1 ≤ txns.length ∧ txns.length ≤ maxGroupSize := by
  unfold Group.ofList
  split
  · next h =>
    rw [h]
    simp [Except.toOption]
  · next h =>
    have hpos : 1 ≤ txns.length := List.length_pos_iff.2 h
    split
    · next hle => simp [Except.toOption, hpos, hle]
    · next hle => simp [Except.toOption, hle]

theorem length_submitAll (n : Nat) (r : Registry) (cs : List ScenarioCall) :
    (submitAll n r cs).1.length = cs.length := by
  induction cs generalizing n r with
  | nil => rfl
  | cons c cs ih => rw [submitAll_cons, List.length_cons, ih, List.length_cons]

/-- Every call is submitted at its position to some registry. -/
theorem getElem?_submitAll {i : Nat} (h : cs[i]? = some c) (n : Nat) (r : Registry) :
    ∃ r', (submitAll n r cs).1[i]? = some (c.submit (n + i) r').1 := by
  induction cs generalizing i n r with
  | nil => cases h
  | cons d cs ih =>
    rw [submitAll_cons]
    cases i with
    | zero =>
      cases h
      exact ⟨r, rfl⟩
    | succ i =>
      obtain ⟨r', hr'⟩ := ih h (n + 1) (d.submit n r).2
      refine ⟨r', hr'.trans ?_⟩
      rw [Nat.add_right_comm, Nat.add_assoc]

/-! ### Applications -/

theorem within_submit {r : Registry} (h : r.Within ids) (c : ScenarioCall) (n : Nat) :
    (c.submit n r).2.Within ids ∧
      ∀ outcome, (c.submit n r).1.result = .ok outcome → ids outcome.appId := by
  have hready : (c.ready r).Within ids := within_ready h
  cases hg : Group.ofList c.txns with
  | ok group =>
    rw [submit_of_group hg]
    exact within_call hready group c.index.toNat
  | error e =>
    rw [submit_of_no_group hg]
    refine ⟨hready, ?_⟩
    rintro outcome ⟨⟩

/-- Calls add no application, and what they got to was there. -/
theorem within_submitAll {r : Registry} (h : r.Within ids) (n : Nat) (cs : List ScenarioCall) :
    (submitAll n r cs).2.Within ids ∧
      ∀ record ∈ (submitAll n r cs).1, ∀ outcome, record.result = .ok outcome →
        ids outcome.appId := by
  induction cs generalizing n r with
  | nil => exact ⟨h, List.forall_mem_nil _⟩
  | cons c cs ih =>
    obtain ⟨hr, hc⟩ := within_submit h c n
    obtain ⟨hrest, hcs⟩ := ih hr (n + 1)
    rw [submitAll_cons]
    exact ⟨hrest, List.forall_mem_cons.2 ⟨hc, hcs⟩⟩

/-! ### Calls left out -/

/-- The position of a call shows in its label only, if it has none of its own. -/
theorem submit_position (c : ScenarioCall) (m n : Nat) (r : Registry) :
    (c.submit m r).2 = (c.submit n r).2 ∧
      c.told (c.submit m r).1 = c.told (c.submit n r).1 := by
  have hlabel : (c.label.map fun _ => c.labelAt m) = c.label.map fun _ => c.labelAt n := by
    unfold labelAt
    cases c.label <;> rfl
  cases hg : Group.ofList c.txns with
  | ok group =>
    rw [submit_of_group hg, submit_of_group hg]
    dsimp only [told]
    rw [hlabel]
    exact ⟨rfl, rfl⟩
  | error e =>
    rw [submit_of_no_group hg, submit_of_no_group hg]
    dsimp only [told]
    rw [hlabel]
    exact ⟨rfl, rfl⟩

theorem submitAll_position (cs : List ScenarioCall) (m n : Nat) (r : Registry) :
    (submitAll m r cs).2 = (submitAll n r cs).2 ∧
      List.zipWith told cs (submitAll m r cs).1 = List.zipWith told cs (submitAll n r cs).1 := by
  induction cs generalizing m n r with
  | nil => exact ⟨rfl, rfl⟩
  | cons c cs ih =>
    obtain ⟨hr, htold⟩ := submit_position c m n r
    obtain ⟨hrest, hall⟩ := ih (m + 1) (n + 1) (c.submit n r).2
    rw [submitAll_cons, submitAll_cons, hr, List.zipWith_cons_cons, List.zipWith_cons_cons, htold,
      hall]
    exact ⟨hrest, rfl⟩

theorem submit_of_idle {n : Nat} {r : Registry} (h : c.Idle (c.submit n r).1) :
    (c.submit n r).2 = r := by
  have hready : c.ready r = r := by
    unfold ready
    rw [h.round]
  cases hg : Group.ofList c.txns with
  | error e => rw [submit_of_no_group hg, hready]
  | ok group =>
    rw [submit_of_group hg, hready] at h ⊢
    cases hres : (r.call group c.index.toNat).1 with
    | error e => exact call_of_error hres
    | ok outcome =>
      have hrejects := h.rejects
      rw [hres] at hrejects
      exact call_of_rejected hres (by simpa [rejects] using hrejects)
        (h.clears outcome hres group hg)

/-- Without an idle call the others go as before. -/
theorem submitAll_eraseIdx {i n : Nat} {r : Registry} {record : CallRecord} (hc : cs[i]? = some c)
    (hrecord : (submitAll n r cs).1[i]? = some record) (h : c.Idle record) :
    (submitAll n r (cs.eraseIdx i)).2 = (submitAll n r cs).2 ∧
      List.zipWith told (cs.eraseIdx i) (submitAll n r (cs.eraseIdx i)).1 =
        (List.zipWith told cs (submitAll n r cs).1).eraseIdx i := by
  induction cs generalizing i n r with
  | nil => cases hc
  | cons d cs ih =>
    rw [submitAll_cons] at hrecord ⊢
    cases i with
    | zero =>
      cases hc
      cases hrecord
      rw [submit_of_idle h]
      exact submitAll_position cs n (n + 1) r
    | succ i =>
      obtain ⟨hrest, hall⟩ := ih hc hrecord
      rw [List.eraseIdx_cons_succ, submitAll_cons, List.zipWith_cons_cons, List.zipWith_cons_cons,
        List.eraseIdx_cons_succ, hall]
      exact ⟨hrest, rfl⟩

end ScenarioCall

namespace Scenario

open ScenarioCall

variable {s : Scenario} {template : Template} {p : CompiledProgram} {now : UInt64}
  {sim : Simulation}

/-! ### Whole simulations -/

theorem simulate_eq_map (s : Scenario) (template : Template) (p : CompiledProgram) (now : UInt64) :
    s.simulate template p now = (s.created template p now).1.map fun creation =>
      ⟨(submitAll 0 (s.created template p now).2 s.calls).2, creation,
        (submitAll 0 (s.created template p now).2 s.calls).1⟩ := by
  unfold simulate created
  dsimp only
  generalize Registry.create _ p _ _ _ 0 = created
  obtain ⟨_ | creation, r⟩ := created <;> rfl

theorem simulate_eq_ok :
    s.simulate template p now = .ok sim ↔
      ∃ creation, (s.created template p now).1 = .ok creation ∧
        ⟨(submitAll 0 (s.created template p now).2 s.calls).2, creation,
          (submitAll 0 (s.created template p now).2 s.calls).1⟩ = sim := by
  rw [simulate_eq_map, Success.map_eq_ok]

/-- The first application of a simulation is application 1, and there is no other. -/
theorem within_created {creation : CallOutcome}
    (h : (s.created template p now).1 = .ok creation) :
    (s.created template p now).2.Within fun id => creation.approved = true ∧ id = 1 := by
  intro id app hget
  have hempty : Registry.Within (fun _ => False)
      { round := s.round, latestTimestamp := s.latestTimestamp.getD now } := by
    rintro id app ⟨⟩
  exact (Registry.within_create h hempty id app hget).resolve_left not_false

/-- An application that is created is application 1. -/
theorem appId?_of_created {creation : CallOutcome}
    (h : (s.created template p now).1 = .ok creation) (r : Registry) (records : List CallRecord) :
    (Simulation.mk r creation records).appId? = if creation.approved then some 1 else none := by
  cases ha : creation.approved with
  | false => simp [Simulation.appId?, ha]
  | true =>
    obtain ⟨_, _, _, _, _, -, -, hid, -⟩ := Registry.create_eq_of_approved h ha
    simp [Simulation.appId?, ha, hid]

/-! ## Top theorem -/

/-- A simulation touches no application but the one it created. There is one record for each call, in
order, with a group id if the transactions form a group. If the creation was approved, the application
is application 1, which is still there in the end or was deleted, and no call got to another; if it
was not, every call is refused and there is no application. An idle call can be left out: the creation,
the other records and the registry stay. -/
theorem simulation_touches_creation (h : s.simulate template p now = .ok sim) :
    sim.calls.length = s.calls.length ∧
    (∀ (i : Nat) (c : ScenarioCall), s.calls[i]? = some c → ∃ record, sim.calls[i]? = some record ∧
      record.label = c.labelAt i ∧ record.groupId = (Group.ofList c.txns).toOption.map Group.id ∧
      (record.groupId.isSome = true ↔ 1 ≤ c.txns.length ∧ c.txns.length ≤ 16)) ∧
    sim.appId? = (if sim.creation.approved then some 1 else none) ∧
    (sim.appId? = none →
      (∀ record ∈ sim.calls, ∃ e, record.result = .error e) ∧ sim.registry.apps.keys = []) ∧
    (sim.appId? = some 1 →
      (∀ record ∈ sim.calls, ∀ outcome, record.result = .ok outcome → outcome.appId = 1) ∧
      (sim.registry.apps.keys = [1] ∨ sim.registry.apps.keys = [])) ∧
    ∀ (i : Nat) (c : ScenarioCall) (record : CallRecord), s.calls[i]? = some c →
      sim.calls[i]? = some record → c.Idle record →
      ∃ sim', ({ s with calls := s.calls.eraseIdx i } : Scenario).simulate template p now = .ok sim' ∧
        sim'.creation = sim.creation ∧ sim'.registry = sim.registry ∧
        List.zipWith told (s.calls.eraseIdx i) sim'.calls =
          (List.zipWith told s.calls sim.calls).eraseIdx i := by
  obtain ⟨creation, hcreated, rfl⟩ := simulate_eq_ok.1 h
  obtain ⟨hwithin, hresults⟩ := within_submitAll (within_created hcreated) 0 s.calls
  have hid := appId?_of_created hcreated (submitAll 0 (s.created template p now).2 s.calls).2
    (submitAll 0 (s.created template p now).2 s.calls).1
  refine ⟨length_submitAll _ _ _, fun i c hc => ?_, hid, fun hnone => ?_, fun hsome => ?_,
    fun i c record hc hrecord hidle => ?_⟩
  · obtain ⟨r, hr⟩ := getElem?_submitAll hc 0 (s.created template p now).2
    rw [Nat.zero_add] at hr
    refine ⟨_, hr, label_submit c i r, groupId_submit c i r, ?_⟩
    rw [groupId_submit]
    exact isSome_groupId c.txns
  · have hrejected : creation.approved = false := by
      cases ha : creation.approved with
      | false => rfl
      | true =>
        rw [hnone, ha] at hid
        cases hid
    refine ⟨fun record hrecord => ?_, SortedMap.keys_eq_nil fun id app hget => ?_⟩
    · cases hres : record.result with
      | error e => exact ⟨e, rfl⟩
      | ok outcome =>
        have happroved := (hresults record hrecord outcome hres).1
        rw [hrejected] at happroved
        cases happroved
    · have happroved := (hwithin id app hget).1
      rw [hrejected] at happroved
      cases happroved
  · exact ⟨fun record hrecord outcome hres => (hresults record hrecord outcome hres).2,
      SortedMap.keys_eq_of_all_eq fun id app hget => (hwithin id app hget).2⟩
  · obtain ⟨hregistry, htold⟩ := submitAll_eraseIdx hc hrecord hidle
    exact ⟨_, simulate_eq_ok.2 ⟨creation, hcreated, rfl⟩, rfl, hregistry, htold⟩

/-! ### A scenario -/

/-- Approves groups of one. -/
def loner : CompiledProgram :=
  ⟨2, "#pragma version 2
global GroupSize
int 2
<", "#pragma version 2
int 1"⟩

/-- The application is called, called in a group of two, and deleted. -/
def visits : Scenario where
  creator := .zero
  globalSchema := none
  localSchema := none
  round := 5
  latestTimestamp := none
  createAction := none
  calls := [⟨some "first", none, 0, [.appCall .zero 1 .noOp]⟩,
    ⟨none, none, 0, [.appCall .zero 1 .noOp, .appCall .zero 1 .noOp]⟩,
    ⟨none, some 9, 0, [.appCall .zero 1 .deleteApplication]⟩]

/-- The call in a group of two is not approved and can be left out. -/
theorem simulation_touches_creation_visits :
    ∃ sim sim', visits.simulate .approve loner 0 = .ok sim ∧ sim.calls.length = 3 ∧
      sim.appId? = some 1 ∧
      ({ visits with calls := visits.calls.eraseIdx 1 } : Scenario).simulate .approve loner 0 =
        .ok sim' ∧ sim'.registry = sim.registry := by
  have hcreated : (visits.created .approve loner 0).1 = .ok ⟨1, true, [], none, 3⟩ := by
    decide +kernel
  have hsim := simulate_eq_ok.2 ⟨_, hcreated, rfl⟩
  have hrejected : ((submitAll 0 (visits.created .approve loner 0).2 visits.calls).1[1]?).map
      (·.result) = some (.ok ⟨1, false, [], none, 3⟩) := by
    decide +kernel
  obtain ⟨record, hrecord, hresult⟩ := Option.map_eq_some_iff.1 hrejected
  have hidle : ScenarioCall.Idle
      ⟨none, none, 0, [.appCall .zero 1 .noOp, .appCall .zero 1 .noOp]⟩ record := by
    refine ⟨rfl, by rw [hresult]; rfl, fun _ _ group hgroup => ?_⟩
    cases hgroup
    rfl
  obtain ⟨hlength, -, hid, -, -, herase⟩ := simulation_touches_creation hsim
  obtain ⟨sim', hsim', -, hregistry, -⟩ := herase 1 _ record rfl hrecord hidle
  exact ⟨_, sim', hsim, hlength, hid, hsim', hregistry⟩

end Scenario

end ContractBench
