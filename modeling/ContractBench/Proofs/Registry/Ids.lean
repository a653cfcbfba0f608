import ContractBench.Proofs.Registry.Evolution
/-!
# Application ids

Approved creations give out ids in turn, from 1. The counter wraps: after `2^64 - 1` creations it
is at 0, and then at ids that were given before. Until then no application has id 0, and an id is
given once:

    r.nextId + (r.createdIds ops).length < UInt64.size → (r.after ops).Numbered      (Numbered.after)
    id < r.nextId → id ∉ r.createdIds ops                       (Numbered.not_mem_createdIds)
-/

namespace ContractBench

namespace Registry

/-! ## Algorithm -/

/-- The id given out by a creation that was approved. -/
def Operation.created? : Operation → Response → Option UInt64
  | .create .., .outcome (.ok outcome) => if outcome.approved then some outcome.appId else none
  | _, _ => none

/-- The ids that operations give out, in turn. -/
def createdIds (r : Registry) (ops : List Operation) : List UInt64 :=
  (r.history ops).filterMap fun e => e.1.created? e.2

/-- The ids in use are below the next one, and none is 0. -/
structure Numbered (r : Registry) : Prop where
  next_pos : 0 < r.nextId.toNat
  in_range : ∀ id app, r.apps.get? id = some app → 0 < id.toNat ∧ id.toNat < r.nextId.toNat

/-! ## Lemmas -/

variable {r : Registry} {op : Operation} {ops : List Operation} {appId : UInt64}

/-- A call leaves the next id as it is. -/
theorem nextId_call (r : Registry) (group : Group) (index : Nat) :
    (r.call group index).2.nextId = r.nextId := by
  cases hresult : (r.call group index).1 with
  | error e => rw [call_of_error hresult]
  | ok outcome =>
    obtain ⟨sender, id, action, app, -, -, -, ⟨s, -, hafter⟩ | ⟨-, -, hafter⟩⟩ :=
      call_outcome hresult
    · rw [hafter]
      rfl
    · rw [hafter]

theorem created?_of_rejects {program : CompiledProgram} {globalSchema localSchema : Schema}
    {group : Group} {index : Nat} {result : Except AppError CallOutcome}
    (h : rejects result = true) :
    Operation.created? (.create program globalSchema localSchema group index) (.outcome result) =
      none := by
  cases result with
  | error e => rfl
  | ok outcome => exact if_neg (not_approved_of_rejects h)

/-- An operation gives out the next id and goes on to the one after it, or gives out none. -/
theorem created?_apply (r : Registry) (op : Operation) :
    op.created? (op.apply r).1 = some r.nextId ∧ (op.apply r).2.nextId = r.nextId + 1 ∨
      op.created? (op.apply r).1 = none ∧ (op.apply r).2.nextId = r.nextId := by
  cases op with
  | create program globalSchema localSchema group index =>
    show Operation.created? _ (.outcome (r.create program globalSchema localSchema group index).1)
        = _ ∧ (r.create program globalSchema localSchema group index).2.nextId = _ ∨
      Operation.created? _ (.outcome (r.create program globalSchema localSchema group index).1)
        = _ ∧ (r.create program globalSchema localSchema group index).2.nextId = _
    rcases r.create_cases program globalSchema localSchema group index with
      ⟨hrejects, hafter⟩ | ⟨outcome, action, app, hresult, ha, hid, -, -, hafter⟩
    · right
      rw [created?_of_rejects hrejects, hafter]
      exact ⟨rfl, rfl⟩
    · left
      rw [hresult, hafter, Operation.created?, if_pos ha, hid]
      exact ⟨rfl, rfl⟩
  | call group index => exact .inr ⟨rfl, nextId_call r group index⟩
  | setRound | setTimestamp | setBudget | getRound | get | list | count => exact .inr ⟨rfl, rfl⟩

/-- An application behind an operation was there before, or its id was given out by it. -/
theorem Origin.stored_or_created {app : Application} {response : Response}
    (h : Origin r appId app op response) :
    (∃ old, r.apps.get? appId = some old) ∨ op.created? response = some appId := by
  cases h with
  | kept hget => exact .inl ⟨app, hget⟩
  | called _ hget _ _ => exact .inl ⟨_, hget⟩
  | created _ ha hid _ => exact .inr (by rw [Operation.created?, if_pos ha, hid])

theorem createdIds_cons (r : Registry) (op : Operation) (ops : List Operation) :
    r.createdIds (op :: ops) =
      (op.created? (op.apply r).1).toList ++ (op.apply r).2.createdIds ops := by
  rw [createdIds, history_cons, List.filterMap_cons]
  cases op.created? (op.apply r).1 <;> rfl

theorem numbered_empty : ({} : Registry).Numbered :=
  ⟨by decide, fun _ _ h => by cases h⟩

namespace Numbered

/-- While the counter does not wrap, an operation keeps the ids below the next one. -/
theorem apply (hr : r.Numbered) (op : Operation)
    (hroom : r.nextId.toNat + (op.created? (op.apply r).1).toList.length < UInt64.size) :
    (op.apply r).2.Numbered ∧ (op.apply r).2.nextId.toNat =
      r.nextId.toNat + (op.created? (op.apply r).1).toList.length := by
  have hpos := hr.next_pos
  rcases created?_apply r op with ⟨hcreated, hafter⟩ | ⟨hcreated, hafter⟩
  · rw [hcreated, Option.toList_some, List.length_singleton] at hroom ⊢
    have hnext : (op.apply r).2.nextId.toNat = r.nextId.toNat + 1 := by
      rw [hafter, UInt64.toNat_add, UInt64.toNat_one, Nat.mod_eq_of_lt hroom]
    refine ⟨⟨by omega, fun id app hget => ?_⟩, hnext⟩
    rcases (origin_of_apply hget).stored_or_created with ⟨old, hold⟩ | hid
    · have := hr.in_range id old hold
      omega
    · -- the new id is the old counter
      cases hcreated.symm.trans hid
      omega
  · rw [hcreated]
    refine ⟨⟨by rw [hafter]; exact hpos, fun id app hget => ?_⟩, by rw [hafter]; rfl⟩
    rcases (origin_of_apply hget).stored_or_created with ⟨old, hold⟩ | hid
    · rw [hafter]
      exact hr.in_range id old hold
    · cases hcreated.symm.trans hid

/-- While the counter does not wrap, the ids in use stay below the next one. -/
theorem after (hr : r.Numbered) (hroom : r.nextId.toNat + (r.createdIds ops).length < UInt64.size) :
    (r.after ops).Numbered := by
  induction ops generalizing r with
  | nil => exact hr
  | cons op ops ih =>
    rw [createdIds_cons, List.length_append] at hroom
    obtain ⟨hnumbered, hnext⟩ := hr.apply op (by omega)
    rw [after_cons]
    exact ih hnumbered (by omega)

/-- While the counter does not wrap, ids in use are not given out again. -/
theorem not_mem_createdIds (hr : r.Numbered)
    (hroom : r.nextId.toNat + (r.createdIds ops).length < UInt64.size)
    (hid : appId.toNat < r.nextId.toNat) : appId ∉ r.createdIds ops := by
  induction ops generalizing r with
  | nil => exact List.not_mem_nil
  | cons op ops ih =>
    rw [createdIds_cons, List.length_append] at hroom
    obtain ⟨hnumbered, hnext⟩ := hr.apply op (by omega)
    rw [createdIds_cons, List.mem_append, not_or, Option.mem_toList]
    refine ⟨fun hmem => ?_, ih hnumbered (by omega) (by omega)⟩
    rcases created?_apply r op with ⟨hcreated, -⟩ | ⟨hcreated, -⟩
    · cases hcreated.symm.trans hmem
      omega
    · cases hcreated.symm.trans hmem

end Numbered

end Registry

end ContractBench
