import Mathlib.Data.Set.Insert
import ContractBench.Proofs.Registry.Ids
/-!
# Accounts with local state

Committing a delta gives a local store to every account it writes to. Programs may only write for
accounts that opted in, and for a sender that opts in, so that commits leave the accounts with
local state as they are; the actions that callers ask for change them:

    (op.apply r).2.holders? id = op.holdersAfter id (r.holders? id) (op.apply r).1  (holders?_apply)
-/

namespace ContractBench

/-! ## Algorithm -/

/-- The accounts that hold local state. -/
def AppState.holders (s : AppState) : Set Address := {a | s.isOptedIn a = true}

/-- What a call makes of the accounts with local state, by its sender, its action and whether it was
approved; nothing if the application goes. -/
def holdersBehind (held : Set Address) (sender : Address) :
    OnComplete → Bool → Option (Set Address)
  | .optIn, true => some (insert sender held)
  | .closeOut, true => some (held \ {sender})
  | .clearState, _ => some (held \ {sender})
  | .deleteApplication, true => none
  | _, _ => some held

namespace Registry

/-- The accounts that hold local state in an application, if there is one. -/
def holders? (r : Registry) (appId : UInt64) : Option (Set Address) :=
  (r.apps.get? appId).map (·.state.holders)

/-- What an operation makes of the accounts that hold local state in an application: an approved
creation gives it to its sender or to nobody, a call does as its action says, anything else leaves
it as it was. -/
def Operation.holdersAfter (appId : UInt64) (before : Option (Set Address)) :
    Operation → Response → Option (Set Address)
  | .create _ _ _ group index, .outcome (.ok outcome) =>
    if outcome.approved ∧ outcome.appId = appId then
      match callAt group index with
      | .ok (creator, _, action) => some (if action = .optIn then {creator} else ∅)
      | .error _ => before
    else before
  | .call group index, .outcome (.ok outcome) =>
    match callAt group index with
    | .ok (sender, id, action) =>
      if id = appId then before.bind fun held => holdersBehind held sender action outcome.approved
      else before
    | .error _ => before
  | _, _ => before

end Registry

/-! ## Lemmas -/

namespace AppState

variable {s s' : AppState} {sender : Address} {action : OnComplete} {approved : Bool} {d : Delta}

@[simp] theorem mem_holders {a : Address} : a ∈ s.holders ↔ s.isOptedIn a = true := Iff.rfl

theorem holders_fresh (globalSchema localSchema : Schema) :
    (fresh globalSchema localSchema).holders = ∅ :=
  Set.eq_empty_iff_forall_notMem.2 fun _ ha => by cases ha

theorem holders_optIn (s : AppState) (a : Address) :
    (s.optIn a).holders = insert a s.holders := by
  ext b
  rw [mem_holders, isOptedIn_optIn, Set.mem_insert_iff, mem_holders, or_comm]

theorem holders_closeOut (s : AppState) (a : Address) :
    (s.closeOut a).holders = s.holders \ {a} := by
  ext b
  rw [mem_holders, isOptedIn_closeOut, Set.mem_sdiff, mem_holders, Set.mem_singleton_iff]

/-- A commit leaves the holders as they are, if they include all that may hold local state. -/
theorem holders_commit (hd : Collected s (s.MayHold sender action) d)
    (hmay : ∀ a, s.MayHold sender action a → a ∈ s'.holders) :
    (s'.commit d).holders = s'.holders := by
  ext a
  constructor
  · intro ha
    rcases hd.optedIn_of_commit ha with hopted | ha
    · exact hopted
    · exact hmay a ha
  · intro ha
    exact (s'.isOptedIn_commit d a).2 (.inl ha)

/-- Those that may hold local state do, unless the sender opts in. -/
theorem MayHold.mem_holders {a : Address} (h : s.MayHold sender action a)
    (haction : action ≠ .optIn) : a ∈ s.holders := by
  rcases h with hopted | ⟨hopting, -⟩
  · exact hopted
  · exact absurd hopting haction

/-- A sender that opts in holds local state like those that did. -/
theorem MayHold.mem_holders_optIn {a : Address} (h : s.MayHold sender action a) :
    a ∈ (s.optIn sender).holders := by
  rw [holders_optIn]
  rcases h with hopted | ⟨-, rfl⟩
  · exact .inr hopted
  · exact .inl rfl

/-- What a call did to the holders. -/
theorem Called.holders (h : s.Called sender action approved s') :
    holdersBehind s.holders sender action approved = some s'.holders := by
  cases h with
  | rejected haction =>
    cases action with
    | clearState => exact absurd rfl haction
    | noOp | optIn | closeOut | updateApplication | deleteApplication => rfl
  | noOp hd =>
    rw [holders_commit hd fun a ha => ha.mem_holders (by decide)]
    rfl
  | optIn hd =>
    rw [holders_commit hd fun a ha => ha.mem_holders_optIn, holders_optIn]
    rfl
  | closeOut hd =>
    rw [holders_closeOut, holders_commit hd fun a ha => ha.mem_holders (by decide)]
    rfl
  | clearState hd =>
    rw [holders_closeOut, holders_commit hd fun a ha => ha.mem_holders (by decide)]
    cases approved <;> rfl

/-- What a creation did to the holders. -/
theorem Created.holders (h : s.Created sender action s') :
    s'.holders = if action = .optIn then insert sender s.holders else s.holders := by
  cases h with
  | optIn hd =>
    rw [holders_commit hd fun a ha => ha.mem_holders_optIn, holders_optIn, if_pos rfl]
  | other haction hd =>
    rw [holders_commit hd fun a ha => ha.mem_holders haction, if_neg haction]

end AppState

namespace Registry

variable {r : Registry} {group : Group} {index : Nat} {sender : Address} {appId : UInt64}
  {action : OnComplete}

/-! ### Operations -/

theorem holdersAfter_of_rejects {program : CompiledProgram} {globalSchema localSchema : Schema}
    {before : Option (Set Address)} {result : Except AppError CallOutcome}
    (h : rejects result = true) :
    Operation.holdersAfter appId before
      (.create program globalSchema localSchema group index) (.outcome result) = before := by
  cases result with
  | error e => rfl
  | ok outcome => exact if_neg fun hid => not_approved_of_rejects h hid.1

theorem holders?_create (r : Registry) (program : CompiledProgram)
    (globalSchema localSchema : Schema) (group : Group) (index : Nat) (appId : UInt64) :
    (r.create program globalSchema localSchema group index).2.holders? appId =
      Operation.holdersAfter appId (r.holders? appId)
        (.create program globalSchema localSchema group index)
        (.outcome (r.create program globalSchema localSchema group index).1) := by
  rcases r.create_cases program globalSchema localSchema group index with
    ⟨hrejects, hafter⟩ | ⟨outcome, action, app, hresult, ha, hid, hcall, hcreated, hafter⟩
  · rw [hafter, holdersAfter_of_rejects hrejects]
  · rw [hafter, hresult, Operation.holdersAfter, holders?]
    dsimp only
    by_cases happ : appId = r.nextId
    · subst happ
      rw [if_pos ⟨ha, hid⟩, hcall, SortedMap.get?_insert_self, Option.map_some, hcreated.holders,
        AppState.holders_fresh, insert_empty_eq]
    · rw [if_neg fun h => happ (h.2.symm.trans hid), SortedMap.get?_insert_of_ne _ _ happ]
      rfl

theorem holders?_call (r : Registry) (group : Group) (index : Nat) (appId : UInt64) :
    (r.call group index).2.holders? appId =
      Operation.holdersAfter appId (r.holders? appId) (.call group index)
        (.outcome (r.call group index).1) := by
  cases hresult : (r.call group index).1 with
  | error e =>
    rw [call_of_error hresult]
    rfl
  | ok outcome =>
    obtain ⟨sender, id, action, app, hcall, hget, -, hafter⟩ := call_outcome hresult
    unfold Operation.holdersAfter
    dsimp only
    rw [hcall]
    dsimp only
    by_cases hid : id = appId
    · subst hid
      rw [if_pos rfl, show r.holders? id = some app.state.holders by rw [holders?, hget]; rfl,
        Option.bind_some]
      rcases hafter with ⟨s, hcalled, hafter⟩ | ⟨rfl, ha, hafter⟩
      · rw [hafter, holders?, get?_setState, if_pos rfl, hcalled.holders]
        rfl
      · rw [hafter, ha, holders?, SortedMap.get?_erase_self]
        rfl
    · rw [if_neg hid]
      rcases hafter with ⟨s, -, hafter⟩ | ⟨-, -, hafter⟩
      · rw [hafter, holders?, get?_setState, if_neg (Ne.symm hid), holders?]
      · rw [hafter, holders?, SortedMap.get?_erase_of_ne _ (Ne.symm hid), holders?]

/-- An operation changes the holders as its action says. -/
theorem holders?_apply (r : Registry) (op : Operation) (appId : UInt64) :
    (op.apply r).2.holders? appId =
      op.holdersAfter appId (r.holders? appId) (op.apply r).1 := by
  cases op with
  | create program globalSchema localSchema group index =>
    exact holders?_create r program globalSchema localSchema group index appId
  | call group index => exact holders?_call r group index appId
  | setRound | setTimestamp | setBudget | getRound | get | list | count => rfl

/-! ### Senders -/

/-- Whether a sender whose call got to an outcome held local state. -/
theorem holds_of_call {outcome : CallOutcome} {held : Set Address}
    (hcall : callAt group index = .ok (sender, appId, action))
    (h : (r.call group index).1 = .ok outcome) (hheld : r.holders? appId = some held) :
    (action = .optIn → sender ∉ held) ∧
      (action = .closeOut ∨ action = .clearState → sender ∈ held) := by
  obtain ⟨sender', id, action', app, hcall', hget, hcheck, -⟩ := call_outcome h
  cases hcall'.symm.trans hcall
  rw [holders?, hget] at hheld
  cases hheld
  rw [AppState.mem_holders]
  constructor
  · rintro rfl hopted
    rw [checkAction, if_pos hopted] at hcheck
    cases hcheck
  · intro haction
    by_cases hopted : app.state.isOptedIn sender = true
    · exact hopted
    · rcases haction with rfl | rfl
      all_goals
        rw [checkAction, if_neg hopted] at hcheck
        cases hcheck

/-- A call that clears state gets to an outcome, whatever its program does, if the sender holds
local state. -/
theorem call_clears {held : Set Address}
    (hcall : callAt group index = .ok (sender, appId, .clearState)) (hid : appId ≠ 0)
    (hheld : r.holders? appId = some held) (hsender : sender ∈ held) :
    ∃ outcome, (r.call group index).1 = .ok outcome := by
  obtain ⟨app, hget, rfl⟩ := Option.map_eq_some_iff.1 hheld
  have hadm : r.admitCall group index = .ok (sender, .clearState, appId, app) := by
    have hcheck : checkAction app.state sender .clearState = .ok () := if_pos hsender
    refine Success.bind_eq_ok.2 ⟨_, hcall, ?_⟩
    dsimp only
    rw [if_neg hid, hget]
    dsimp only
    rw [hcheck]
    rfl
  rw [call_of_admitted hadm]
  exact ⟨_, rfl⟩

/-- Until the counter of ids wraps, there is no application 0. -/
theorem holders?_zero (ops : List Operation)
    (hroom : (({} : Registry).createdIds ops).length < UInt64.size - 1) :
    (({} : Registry).after ops).holders? 0 = none := by
  have hnext : ({} : Registry).nextId.toNat = 1 := rfl
  have hnumbered := numbered_empty.after (by omega : _ + (({} : Registry).createdIds ops).length < _)
  cases hget : (({} : Registry).after ops).apps.get? 0 with
  | none => rw [holders?, hget, Option.map_none]
  | some app => exact absurd (hnumbered.in_range 0 app hget).1 (Nat.lt_irrefl 0)

/-! ## Top theorems -/

/-- The accounts with local state in an application change only as the actions of operations say,
whatever a registry has been asked to do before. One that opts in did not hold local state, one that
closes out or clears it did. Clearing state gets to an outcome for every account that holds some,
whatever the program does; it is refused for application 0 alone, which stands for creation and is
not in use before the counter of ids has wrapped. Commits alone give local state to nobody but a
sender that opts in. -/
theorem holders_evolve (ops : List Operation) :
    let r := ({} : Registry).after ops
    (∀ (op : Operation) (appId : UInt64), (op.apply r).2.holders? appId =
      op.holdersAfter appId (r.holders? appId) (op.apply r).1) ∧
    (∀ group index sender appId action outcome held,
      callAt group index = .ok (sender, appId, action) → (r.call group index).1 = .ok outcome →
        r.holders? appId = some held →
          (action = .optIn → sender ∉ held) ∧
            (action = .closeOut ∨ action = .clearState → sender ∈ held)) ∧
    (∀ group index sender appId held, callAt group index = .ok (sender, appId, .clearState) →
      appId ≠ 0 → r.holders? appId = some held → sender ∈ held →
        ∃ outcome, (r.call group index).1 = .ok outcome) ∧
    ((({} : Registry).createdIds ops).length < UInt64.size - 1 → r.holders? 0 = none) ∧
    ∀ program group index state context sender appId action d,
      callAt group index = .ok (sender, appId, action) →
        approvedDelta? (runProgram program group index state context) = some d →
          ∀ a ∈ (state.commit d).holders, a ∈ state.holders ∨ action = .optIn ∧ a = sender := by
  intro r
  refine ⟨holders?_apply r, ?_, ?_, holders?_zero ops, ?_⟩
  · intro group index sender appId action outcome held hcall h hheld
    exact holds_of_call hcall h hheld
  · intro group index sender appId held hcall hid hheld hsender
    exact call_clears hcall hid hheld hsender
  · intro program group index state context sender appId action d hcall hd a ha
    rcases (collected_of_approved hcall hd).optedIn_of_commit ha with hopted | hmay
    · exact .inl hopted
    · exact hmay

end Registry

end ContractBench
