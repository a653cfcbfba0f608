import ContractBench.Proofs.State.Schemas
/-!
# What puts collect

A delta is collected over a state if puts through views of the state led to it, local ones only for
accounts of a given kind. Committed, it adds keys and replaces values by others of their type, within
the schemas, and gives local stores to accounts of that kind only:

    Collected s P d → s.globals.KeptBy (s.commit d).globals                 (keptBy_globals_commit)
    Collected s P d → s.WithinSchemas → (s.commit d).WithinSchemas           (withinSchemas_commit)
    Collected s P d → (s.commit d).isOptedIn a → s.isOptedIn a ∨ P a             (optedIn_of_commit)
-/

namespace ContractBench

/-! ## Algorithm -/

/-- What puts through views of a state collect, local ones for accounts of a kind. -/
inductive Collected (base : AppState) (P : Address → Prop) : Delta → Prop
  | none : Collected base P {}
  | putGlobal {d : Delta} {key : Bytes} {x : Value} {v : View} : Collected base P d →
      (View.mk base d).putGlobal key x = .ok v → Collected base P v.pending
  | putLocal {d : Delta} {a : Address} {key : Bytes} {x : Value} {v : View} : Collected base P d →
      P a → (View.mk base d).putLocal a key x = .ok v → Collected base P v.pending

/-- Every key is still there, with a value of its type. -/
def KeyValues.KeptBy (m m' : KeyValues) : Prop :=
  ∀ key v, m.get? key = some v → ∃ v', m'.get? key = some v' ∧ v'.type = v.type

/-! ## Lemmas -/

namespace KeyValues

variable {m m' m'' : KeyValues}

theorem KeptBy.refl (m : KeyValues) : m.KeptBy m := fun _ v h => ⟨v, h, rfl⟩

theorem KeptBy.trans (h : m.KeptBy m') (h' : m'.KeptBy m'') : m.KeptBy m'' := by
  intro key v hv
  obtain ⟨v', hv', ht'⟩ := h key v hv
  obtain ⟨v'', hv'', ht''⟩ := h' key v' hv'
  exact ⟨v'', hv'', ht''.trans ht'⟩

/-- A look-up that sees new values first keeps all keys, if the new values have the types below. -/
theorem KeptBy.of_or (new : Bytes → Option Value)
    (hget : ∀ key, m'.get? key = (new key).or (m.get? key))
    (hnew : ∀ key x old, new key = some x → m.get? key = some old → old.type = x.type) :
    m.KeptBy m' := by
  intro key v hv
  rw [hget]
  cases hx : new key with
  | none => exact ⟨v, by rw [Option.none_or, hv], rfl⟩
  | some x => exact ⟨x, Option.some_or, (hnew key x v hx hv).symm⟩

end KeyValues

namespace Collected

variable {base : AppState} {P Q : Address → Prop} {d : Delta}

theorem mono (h : Collected base P d) (hPQ : ∀ a, P a → Q a) : Collected base Q d := by
  induction h with
  | none => exact .none
  | putGlobal _ hput ih => exact .putGlobal ih hput
  | putLocal _ ha hput ih => exact .putLocal ih (hPQ _ ha) hput

/-- The view behind a put still stands over the same state. -/
theorem view_eq {v : View} (h : v.base = base) : View.mk base v.pending = v := by
  subst h
  rfl

theorem keepsTypes (h : Collected base P d) : (View.mk base d).KeepsTypes := by
  induction h with
  | none => exact View.keepsTypes_start base
  | putGlobal _ hput ih =>
    rw [view_eq (View.putGlobal_eq hput).1]
    exact View.keepsTypes_putGlobal ih hput
  | putLocal _ _ hput ih =>
    rw [view_eq (View.putLocal_eq hput).1]
    exact View.keepsTypes_putLocal ih hput

/-- Local writes are for accounts of the kind. -/
theorem of_get?_locals (h : Collected base P d) {k : LocalKey} {x : Value}
    (hget : d.locals.get? k = some x) : P k.account := by
  induction h generalizing x with
  | none => cases hget
  | putGlobal _ hput ih =>
    rw [(View.putGlobal_eq hput).2.1] at hget
    exact ih hget
  | @putLocal d a key _ _ _ ha hput ih =>
    rw [(View.putLocal_eq hput).2.2] at hget
    by_cases hk : k = ⟨a, key⟩
    · subst hk
      exact ha
    · rw [SortedMap.get?_insert_of_ne _ _ hk] at hget
      exact ih hget

theorem withinSchemas_commit (h : Collected base P d) (hb : base.WithinSchemas) :
    (base.commit d).WithinSchemas := by
  induction h with
  | none => exact hb
  | @putGlobal d key x v hd hput ih =>
    have hsquare := View.map_committed_putGlobal hd.keepsTypes key x
    rw [hput] at hsquare
    have hcommit : base.commit v.pending = v.committed := by
      rw [View.committed, (View.putGlobal_eq hput).1]
    rw [hcommit]
    exact AppState.withinSchemas_putInGlobals ih hsquare.symm
  | @putLocal d a key x v hd _ hput ih =>
    have hsquare := View.map_committed_putLocal hd.keepsTypes a key x
    rw [hput] at hsquare
    have hcommit : base.commit v.pending = v.committed := by
      rw [View.committed, (View.putLocal_eq hput).1]
    rw [hcommit]
    exact AppState.withinSchemas_putInLocals ih hsquare.symm

/-- The same writes fit if their accounts get empty stores before. -/
theorem withinSchemas_optIn_commit (h : Collected base P d) (hb : base.WithinSchemas)
    (a : Address) : ((base.optIn a).commit d).WithinSchemas := by
  refine (h.withinSchemas_commit hb).of_stores ?_ (base.schemas_optIn a) fun b => ?_
  · show (base.optIn a).globals.insertAll _ = _
    rw [base.globals_optIn a]
    rfl
  · rw [AppState.storeOf_commit, AppState.storeOf_commit, AppState.storeOf_optIn]

theorem keptBy_globals_commit (h : Collected base P d) :
    base.globals.KeptBy (base.commit d).globals :=
  .of_or d.globals.get? (base.get?_globals_commit d) h.keepsTypes.globals

theorem keptBy_storeOf_commit (h : Collected base P d) (a : Address) :
    (storeOf base.locals a).KeptBy (storeOf (base.commit d).locals a) := by
  refine .of_or (fun key => d.locals.get? ⟨a, key⟩) (fun key => ?_) fun key x old hx hold => ?_
  · rw [← AppState.localValue?_eq_get?, ← AppState.localValue?_eq_get?,
      AppState.localValue?_commit]
  · rw [← AppState.localValue?_eq_get?] at hold
    exact h.keepsTypes.locals a key x old hx hold

/-- A committed delta gives local stores to accounts of the kind only. -/
theorem optedIn_of_commit (h : Collected base P d) {s : AppState} {a : Address}
    (ha : (s.commit d).isOptedIn a = true) : s.isOptedIn a = true ∨ P a := by
  rcases (s.isOptedIn_commit d a).1 ha with ha | ⟨key, x, hget⟩
  · exact .inl ha
  · exact .inr (h.of_get?_locals hget)

end Collected

end ContractBench
