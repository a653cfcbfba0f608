import ContractBench.Proofs.State.InPlace
/-!
# Stores within their schemas

A put replaces a value by one of its type or finds room for a new key, so that a store that fits its
schema goes on to fit it:

    m.Fits schema → m.put schema key x = .ok m' → m'.Fits schema                        (fits_put)
-/

namespace ContractBench

/-! ## Algorithm -/

/-- A store holds at most as many keys of each type as a schema says. -/
def KeyValues.Fits (m : KeyValues) (schema : Schema) : Prop :=
  ∀ t, m.count t ≤ (schema.capacity t).toNat

/-- No store holds more keys of a type than its schema says. -/
structure AppState.WithinSchemas (s : AppState) : Prop where
  globals : s.globals.Fits s.globalSchema
  locals : ∀ a store, s.locals.get? a = some store → store.Fits s.localSchema

/-! ## Lemmas -/

namespace KeyValues

variable {m m' : KeyValues} {schema : Schema}

theorem fits_empty (schema : Schema) : KeyValues.Fits ∅ schema := fun _ => Nat.zero_le _

/-- A put stays within the schema: it replaces a value of its type or finds room. -/
theorem fits_put {key : Bytes} {x : Value} (h : m.Fits schema)
    (hput : m.put schema key x = .ok m') : m'.Fits schema := by
  intro t
  unfold KeyValues.put at hput
  cases hget : m.get? key with
  | some old =>
    rw [hget] at hput
    dsimp only at hput
    split at hput
    · next ht =>
      cases hput
      rw [count_insert_old hget ht]
      exact h t
    · cases hput
  | none =>
    rw [hget] at hput
    dsimp only at hput
    split at hput
    · next hroom =>
      cases hput
      rw [count_insert_new x hget]
      have ht := h t
      split
      · next hx =>
        subst hx
        omega
      · omega
    · cases hput

end KeyValues

namespace AppState

variable {s s' : AppState}

/-- Schemas may be checked store by store, an account without one having an empty store. -/
theorem withinSchemas_iff :
    s.WithinSchemas ↔ s.globals.Fits s.globalSchema ∧
      ∀ a, (storeOf s.locals a).Fits s.localSchema := by
  constructor
  · rintro ⟨hg, hl⟩
    refine ⟨hg, fun a => ?_⟩
    unfold storeOf
    cases hget : s.locals.get? a with
    | none => exact KeyValues.fits_empty _
    | some store => exact hl a store hget
  · rintro ⟨hg, hl⟩
    refine ⟨hg, fun a store hget => ?_⟩
    have h := hl a
    rw [storeOf, hget] at h
    exact h

theorem WithinSchemas.of_stores (h : s.WithinSchemas) (hg : s'.globals = s.globals)
    (hs : s'.globalSchema = s.globalSchema ∧ s'.localSchema = s.localSchema)
    (hl : ∀ a, storeOf s'.locals a = storeOf s.locals a) : s'.WithinSchemas := by
  obtain ⟨hglobals, hlocals⟩ := withinSchemas_iff.1 h
  refine withinSchemas_iff.2 ⟨?_, fun a => ?_⟩
  · rw [hg, hs.1]
    exact hglobals
  · rw [hl, hs.2]
    exact hlocals a

theorem withinSchemas_putInGlobals {key : Bytes} {x : Value} (h : s.WithinSchemas)
    (hput : s.putInGlobals key x = .ok s') : s'.WithinSchemas := by
  obtain ⟨store, hstore, hput⟩ := Success.bind_eq_ok.1 hput
  cases hput
  exact ⟨KeyValues.fits_put h.globals hstore, h.locals⟩

theorem withinSchemas_putInLocals {a : Address} {key : Bytes} {x : Value} (h : s.WithinSchemas)
    (hput : s.putInLocals a key x = .ok s') : s'.WithinSchemas := by
  obtain ⟨store, hstore, hput⟩ := Success.bind_eq_ok.1 hput
  cases hput
  have hfits := KeyValues.fits_put ((withinSchemas_iff.1 h).2 a) hstore
  refine ⟨h.globals, fun a' store' hget => ?_⟩
  by_cases ha : a' = a
  · subst ha
    rw [SortedMap.get?_insert_self] at hget
    cases hget
    exact hfits
  · rw [SortedMap.get?_insert_of_ne _ _ ha] at hget
    exact h.locals a' store' hget

/-- The stores that stay when an account leaves fit as before. -/
theorem withinSchemas_closeOut (h : s.WithinSchemas) (a : Address) :
    (s.closeOut a).WithinSchemas := by
  refine ⟨h.globals, fun b store hget => ?_⟩
  have hget : (s.locals.erase a).get? b = some store := hget
  by_cases hb : b = a
  · subst hb
    rw [SortedMap.get?_erase_self] at hget
    cases hget
  · rw [SortedMap.get?_erase_of_ne _ hb] at hget
    exact h.locals b store hget

end AppState

end ContractBench
