import ContractBench.State.Store
/-!
# Entries put in turn

Puts of different keys commute and a later put of a key replaces an earlier one. So putting the
entries of a map that got one more is putting that one last. A map filled from an increasing list
answers from the list first and counts its new keys:

    (insertEntry k v l).foldl f m = f (l.foldl f m) k v                  (Puts.foldl_insertEntry)
    (m.insertAll l).get? k = (findEntry k l).or (m.get? k)                        (get?_insertAll)
    (m.insertAll l).count t = m.count t + l.countP (new and of type t)           (count_insertAll)
-/

namespace ContractBench

open Std

namespace SortedMap

variable {κ ν μ : Type}

/-- A way to put values by key: different keys commute, and of two puts of a key the later stays. -/
structure Puts (f : μ → κ → ν → μ) : Prop where
  comm : ∀ m {k k'} v v', k ≠ k' → f (f m k v) k' v' = f (f m k' v') k v
  again : ∀ m k v v', f (f m k v) k v' = f m k v'

/-- A put moves behind puts of other keys. -/
theorem Puts.foldl_put {f : μ → κ → ν → μ} (hf : Puts f) {k : κ} (v : ν) {l : List (κ × ν)}
    (h : ∀ e ∈ l, e.1 ≠ k) (m : μ) :
    l.foldl (fun m e => f m e.1 e.2) (f m k v) = f (l.foldl (fun m e => f m e.1 e.2) m) k v := by
  induction l generalizing m with
  | nil => rfl
  | cons e rest ih =>
    have he : k ≠ e.1 := (h e List.mem_cons_self).symm
    rw [List.foldl_cons, List.foldl_cons, hf.comm m v e.2 he]
    exact ih (fun e' he' => h e' (List.mem_cons_of_mem _ he')) _

/-! ## Keys of increasing lists -/

variable [Ord κ]

theorem ne_of_lt [ReflOrd κ] {a b : κ} (h : compare a b = .lt) : a ≠ b := by
  intro e
  subst e
  rw [ReflOrd.compare_self] at h
  cases h

/-- The keys of an increasing list differ from its first. -/
theorem ne_of_increasing [ReflOrd κ] {e : κ × ν} {l : List (κ × ν)}
    (h : (e :: l).Pairwise fun a b => compare a.1 b.1 = .lt) : ∀ e' ∈ l, e'.1 ≠ e.1 :=
  fun _ he' => (ne_of_lt (List.rel_of_pairwise_cons h he')).symm

theorem contains_eq_isSome (m : SortedMap κ ν) (k : κ) : m.contains k = (m.get? k).isSome := rfl

variable [TransOrd κ] [LawfulEqOrd κ]

/-- A key below the first one of an increasing list is not in the list. -/
theorem ne_of_lt_head {k : κ} {hd : κ × ν} {tl : List (κ × ν)}
    (h : (hd :: tl).Pairwise fun a b => compare a.1 b.1 = .lt) (hk : compare k hd.1 = .lt) :
    ∀ e ∈ hd :: tl, e.1 ≠ k := by
  intro e he
  rcases List.mem_cons.1 he with rfl | he
  · exact (ne_of_lt hk).symm
  · exact (ne_of_lt (TransCmp.lt_trans hk (List.rel_of_pairwise_cons h he))).symm

omit [TransOrd κ] in
theorem findEntry_of_ne {k : κ} {l : List (κ × ν)} (h : ∀ e ∈ l, e.1 ≠ k) :
    findEntry k l = none := by
  cases hf : findEntry k l with
  | none => rfl
  | some v => exact absurd rfl (h _ (mem_of_findEntry hf))

/-! ## Putting entries -/

/-- Putting the entries of a map that got one more is putting that one last. -/
theorem Puts.foldl_insertEntry {f : μ → κ → ν → μ} (hf : Puts f) (k : κ) (v : ν)
    {l : List (κ × ν)} (h : l.Pairwise fun a b => compare a.1 b.1 = .lt) (m : μ) :
    (insertEntry k v l).foldl (fun m e => f m e.1 e.2) m =
      f (l.foldl (fun m e => f m e.1 e.2) m) k v := by
  induction l generalizing m with
  | nil => rfl
  | cons hd tl ih =>
    unfold insertEntry
    split
    · next hlt => exact hf.foldl_put v (ne_of_lt_head h hlt) m
    · next heq =>
      have hk : k = hd.1 := LawfulEqOrd.eq_of_compare heq
      subst hk
      show tl.foldl _ (f m hd.1 v) = f (tl.foldl _ (f m hd.1 hd.2)) hd.1 v
      rw [← hf.foldl_put v (ne_of_increasing h), hf.again]
    · exact ih h.of_cons _

theorem puts_insert : Puts (insert : SortedMap κ ν → κ → ν → SortedMap κ ν) where
  comm m k k' v v' hne := by
    refine ext_get? fun x => ?_
    by_cases hk : x = k
    · subst hk
      rw [get?_insert_of_ne _ _ hne, get?_insert_self, get?_insert_self]
    · rw [get?_insert_of_ne _ v hk]
      by_cases hk' : x = k'
      · subst hk'
        rw [get?_insert_self, get?_insert_self]
      · rw [get?_insert_of_ne _ _ hk', get?_insert_of_ne _ _ hk', get?_insert_of_ne _ _ hk]
  again m k v v' := by
    refine ext_get? fun x => ?_
    by_cases hk : x = k
    · subst hk
      rw [get?_insert_self, get?_insert_self]
    · rw [get?_insert_of_ne _ _ hk, get?_insert_of_ne _ _ hk, get?_insert_of_ne _ _ hk]

/-- A map filled from a list answers from the list first. -/
theorem get?_insertAll {l : List (κ × ν)} (h : l.Pairwise fun a b => compare a.1 b.1 = .lt)
    (m : SortedMap κ ν) (k : κ) : (m.insertAll l).get? k = (findEntry k l).or (m.get? k) := by
  induction l generalizing m with
  | nil => rfl
  | cons e rest ih =>
    show ((m.insert e.1 e.2).insertAll rest).get? k = _
    rw [ih h.of_cons]
    by_cases hk : k = e.1
    · subst hk
      rw [findEntry_of_ne (ne_of_increasing h), get?_insert_self]
      simp [findEntry]
    · have hne : compare k e.1 ≠ .eq := fun heq => hk (LawfulEqOrd.eq_of_compare heq)
      rw [get?_insert_of_ne _ _ hk, findEntry, if_neg hne]

/-! ## Counting entries -/

omit [TransOrd κ] [LawfulEqOrd κ] in
/-- A new entry counts once more. -/
theorem countP_insertEntry_new (p : κ × ν → Bool) {k : κ} {v : ν} {l : List (κ × ν)}
    (h : findEntry k l = none) :
    (insertEntry k v l).countP p = l.countP p + if p (k, v) then 1 else 0 := by
  induction l with
  | nil => simp [insertEntry, List.countP_cons]
  | cons hd tl ih =>
    obtain ⟨k', v'⟩ := hd
    rw [findEntry] at h
    split at h
    · cases h
    · next hne =>
      unfold insertEntry
      split
      · rw [List.countP_cons]
      · next heq => exact absurd heq hne
      · rw [List.countP_cons, List.countP_cons, ih h]
        omega

/-- An entry in the place of one that counts alike changes no count. -/
theorem countP_insertEntry_old (p : κ × ν → Bool) {k : κ} {v old : ν} {l : List (κ × ν)}
    (hl : l.Pairwise fun a b => compare a.1 b.1 = .lt) (h : findEntry k l = some old)
    (hp : p (k, v) = p (k, old)) : (insertEntry k v l).countP p = l.countP p := by
  induction l with
  | nil => cases h
  | cons hd tl ih =>
    unfold insertEntry
    split
    · next hlt =>
      rw [findEntry_of_ne (ne_of_lt_head hl hlt)] at h
      cases h
    · next heq =>
      rw [findEntry, if_pos heq] at h
      cases h
      have hk : k = hd.1 := LawfulEqOrd.eq_of_compare heq
      subst hk
      rw [List.countP_cons, List.countP_cons, hp]
    · next hgt =>
      have hne : compare k hd.1 ≠ .eq := by
        rw [hgt]
        decide
      rw [findEntry, if_neg hne] at h
      rw [List.countP_cons, List.countP_cons, ih hl.of_cons h]

end SortedMap

namespace KeyValues

/-- A new key counts for the type of its value. -/
theorem count_insert_new {s : KeyValues} {key : Bytes} (value : Value) (h : s.get? key = none)
    (t : ValueType) :
    KeyValues.count (s.insert key value) t = s.count t + if value.type = t then 1 else 0 := by
  refine (SortedMap.countP_insertEntry_new _ h).trans ?_
  simp only [beq_iff_eq]
  rfl

/-- A value in the place of one of its type changes no count. -/
theorem count_insert_old {s : KeyValues} {key : Bytes} {value old : Value}
    (h : s.get? key = some old) (ht : old.type = value.type) (t : ValueType) :
    KeyValues.count (s.insert key value) t = s.count t := by
  refine SortedMap.countP_insertEntry_old _ s.increasing h ?_
  simp only [ht]

/-- A store filled from a list that keeps the types of its keys counts the new ones. -/
theorem count_insertAll {l : List (Bytes × Value)}
    (hl : l.Pairwise fun a b => compare a.1 b.1 = .lt) (m : KeyValues)
    (h : ∀ e ∈ l, ∀ old, m.get? e.1 = some old → old.type = e.2.type) (t : ValueType) :
    KeyValues.count (m.insertAll l) t =
      m.count t + l.countP fun e => e.2.type == t && !m.contains e.1 := by
  induction l generalizing m with
  | nil => rfl
  | cons e rest ih =>
    have hne := SortedMap.ne_of_increasing hl
    -- what is looked up for the rest does not see the first entry
    have hget : ∀ e' ∈ rest, (m.insert e.1 e.2).get? e'.1 = m.get? e'.1 := fun e' he' =>
      SortedMap.get?_insert_of_ne _ _ (hne e' he')
    have hrest : ∀ e' ∈ rest, ∀ old, (m.insert e.1 e.2).get? e'.1 = some old →
        old.type = e'.2.type := by
      intro e' he' old hold
      rw [hget e' he'] at hold
      exact h e' (List.mem_cons_of_mem _ he') old hold
    have hcount : (rest.countP fun e' => e'.2.type == t && !(m.insert e.1 e.2).contains e'.1) =
        rest.countP fun e' => e'.2.type == t && !m.contains e'.1 := by
      refine List.countP_congr fun e' he' => ?_
      rw [SortedMap.contains_eq_isSome, hget e' he', SortedMap.contains_eq_isSome]
    show KeyValues.count ((m.insert e.1 e.2).insertAll rest) t = _
    rw [ih hl.of_cons _ hrest, hcount, List.countP_cons]
    cases hold : m.get? e.1 with
    | none =>
      rw [count_insert_new _ hold, SortedMap.contains_eq_isSome, hold]
      simp only [Option.isSome_none, Bool.not_false, Bool.and_true, beq_iff_eq]
      omega
    | some old =>
      rw [count_insert_old hold (h e List.mem_cons_self old hold), SortedMap.contains_eq_isSome,
        hold]
      simp

end KeyValues

end ContractBench
