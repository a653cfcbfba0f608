/-!
# Maps kept in key order

A map is the list of its entries, keys strictly increasing, so two maps that answer
every look-up alike are equal (`SortedMap.ext_get?`) and the entries come out in key order.

    (m.insert k v).get? k' = if k' = k then some v else m.get? k'     (get?_insert)
    (m.erase k).get? k'    = if k' = k then none else m.get? k'       (get?_erase)
-/

namespace ContractBench

open Std

/-- A finite map whose entries are listed by strictly increasing key. -/
structure SortedMap (κ ν : Type) [Ord κ] where
  entries : List (κ × ν)
  increasing : entries.Pairwise fun a b => compare a.1 b.1 = .lt

namespace SortedMap

variable {κ ν : Type} [Ord κ]

/-! ## Operations -/

/-- The map without entries. -/
def empty : SortedMap κ ν := ⟨[], .nil⟩

instance : EmptyCollection (SortedMap κ ν) := ⟨empty⟩
instance : Inhabited (SortedMap κ ν) := ⟨empty⟩

instance [DecidableEq κ] [DecidableEq ν] : DecidableEq (SortedMap κ ν) := fun a b =>
  if h : a.entries = b.entries then
    isTrue (by cases a; cases b; cases h; rfl)
  else isFalse fun e => h (congrArg entries e)

def findEntry (k : κ) : List (κ × ν) → Option ν
  | [] => none
  | (k', v) :: rest => if compare k k' = .eq then some v else findEntry k rest

/-- An entry put in its place; an entry of the same key is replaced. -/
def insertEntry (k : κ) (v : ν) : List (κ × ν) → List (κ × ν)
  | [] => [(k, v)]
  | (k', v') :: rest =>
    match compare k k' with
    | .lt => (k, v) :: (k', v') :: rest
    | .eq => (k, v) :: rest
    | .gt => (k', v') :: insertEntry k v rest

def eraseEntry (k : κ) (entries : List (κ × ν)) : List (κ × ν) :=
  entries.filter fun e => compare k e.1 != .eq

theorem mem_insertEntry {k : κ} {v : ν} {e : κ × ν} {l : List (κ × ν)} :
    e ∈ insertEntry k v l → e = (k, v) ∨ e ∈ l := by
  induction l with
  | nil => simp [insertEntry]
  | cons hd tl ih =>
    unfold insertEntry
    split <;> grind

theorem insertEntry_increasing [TransOrd κ] [LawfulEqOrd κ] (k : κ) (v : ν) {l : List (κ × ν)}
    (h : l.Pairwise fun a b => compare a.1 b.1 = .lt) :
    (insertEntry k v l).Pairwise fun a b => compare a.1 b.1 = .lt := by
  induction l with
  | nil => simp [insertEntry]
  | cons hd tl ih =>
    have htl {a} (ha : a ∈ tl) := List.rel_of_pairwise_cons h ha
    unfold insertEntry
    split
    · next hlt =>
      refine h.cons fun a ha => ?_
      rcases List.mem_cons.1 ha with rfl | ha
      · exact hlt
      · exact TransCmp.lt_trans hlt (htl ha)
    · next heq =>
      have : k = hd.1 := LawfulEqOrd.eq_of_compare heq
      subst this
      exact h.of_cons.cons fun a ha => htl ha
    · next hgt =>
      refine (ih h.of_cons).cons fun a ha => ?_
      rcases mem_insertEntry ha with rfl | ha
      · exact OrientedCmp.lt_of_gt hgt
      · exact htl ha

def get? (m : SortedMap κ ν) (k : κ) : Option ν := findEntry k m.entries

def contains (m : SortedMap κ ν) (k : κ) : Bool := (m.get? k).isSome

def insert [TransOrd κ] [LawfulEqOrd κ] (m : SortedMap κ ν) (k : κ) (v : ν) : SortedMap κ ν :=
  ⟨insertEntry k v m.entries, insertEntry_increasing k v m.increasing⟩

def erase (m : SortedMap κ ν) (k : κ) : SortedMap κ ν :=
  ⟨eraseEntry k m.entries, m.increasing.filter _⟩

def size (m : SortedMap κ ν) : Nat := m.entries.length

def isEmpty (m : SortedMap κ ν) : Bool := m.entries.isEmpty

def keys (m : SortedMap κ ν) : List κ := m.entries.map (·.1)

/-- Every entry of the list inserted in turn: of two with one key the later stays. -/
def insertAll [TransOrd κ] [LawfulEqOrd κ] (m : SortedMap κ ν) (l : List (κ × ν)) :
    SortedMap κ ν :=
  l.foldl (fun m e => m.insert e.1 e.2) m

def ofList [TransOrd κ] [LawfulEqOrd κ] (l : List (κ × ν)) : SortedMap κ ν :=
  (empty : SortedMap κ ν).insertAll l

/-! ## Lemmas -/

theorem ext_entries {a b : SortedMap κ ν} (h : a.entries = b.entries) : a = b := by
  cases a; cases b; cases h; rfl

@[simp] theorem get?_empty (k : κ) : (empty : SortedMap κ ν).get? k = none := rfl

section
variable [TransOrd κ] [LawfulEqOrd κ]

theorem findEntry_insertEntry (k k' : κ) (v : ν) (l : List (κ × ν)) :
    findEntry k' (insertEntry k v l) =
      if compare k' k = .eq then some v else findEntry k' l := by
  induction l with
  | nil => simp [insertEntry, findEntry]
  | cons hd tl ih =>
    unfold insertEntry
    split
    · simp [findEntry]
    · next heq =>
      have : k = hd.1 := LawfulEqOrd.eq_of_compare heq
      subst this
      by_cases h : compare k' hd.1 = .eq <;> simp [findEntry, h]
    · next hgt =>
      by_cases h : compare k' hd.1 = .eq
      · have : k' = hd.1 := LawfulEqOrd.eq_of_compare h
        subst this
        have hne : compare hd.1 k ≠ .eq := by
          rw [OrientedCmp.lt_of_gt hgt]; decide
        simp [findEntry, hne]
      · simp [findEntry, h, ih]

theorem get?_insert (m : SortedMap κ ν) (k k' : κ) (v : ν) :
    (m.insert k v).get? k' = if compare k' k = .eq then some v else m.get? k' :=
  findEntry_insertEntry k k' v m.entries

@[simp] theorem get?_insert_self (m : SortedMap κ ν) (k : κ) (v : ν) :
    (m.insert k v).get? k = some v := by
  simp [get?_insert]

theorem get?_insert_of_ne (m : SortedMap κ ν) {k k' : κ} (v : ν) (h : k' ≠ k) :
    (m.insert k v).get? k' = m.get? k' := by
  have : compare k' k ≠ .eq := fun e => h (LawfulEqOrd.eq_of_compare e)
  simp [get?_insert, this]

theorem findEntry_eraseEntry (k k' : κ) (l : List (κ × ν)) :
    findEntry k' (eraseEntry k l) = if compare k' k = .eq then none else findEntry k' l := by
  induction l with
  | nil => simp [eraseEntry, findEntry]
  | cons hd tl ih =>
    unfold eraseEntry at ih ⊢
    by_cases h : compare k hd.1 = .eq
    · have : k = hd.1 := LawfulEqOrd.eq_of_compare h
      subst this
      by_cases h' : compare k' hd.1 = .eq <;> simp [findEntry, h', ih]
    · by_cases h' : compare k' hd.1 = .eq
      · have : k' = hd.1 := LawfulEqOrd.eq_of_compare h'
        subst this
        have hne : compare hd.1 k ≠ .eq := fun e => h (OrientedCmp.eq_symm e)
        simp [findEntry, h, hne]
      · simp [findEntry, h, h', ih]

theorem get?_erase (m : SortedMap κ ν) (k k' : κ) :
    (m.erase k).get? k' = if compare k' k = .eq then none else m.get? k' :=
  findEntry_eraseEntry k k' m.entries

@[simp] theorem get?_erase_self (m : SortedMap κ ν) (k : κ) : (m.erase k).get? k = none := by
  simp [get?_erase]

theorem get?_erase_of_ne (m : SortedMap κ ν) {k k' : κ} (h : k' ≠ k) :
    (m.erase k).get? k' = m.get? k' := by
  have : compare k' k ≠ .eq := fun e => h (LawfulEqOrd.eq_of_compare e)
  simp [get?_erase, this]

omit [TransOrd κ] in
theorem mem_of_findEntry {k : κ} {v : ν} {l : List (κ × ν)} (h : findEntry k l = some v) :
    (k, v) ∈ l := by
  induction l with
  | nil => simp [findEntry] at h
  | cons hd tl ih =>
    unfold findEntry at h
    split at h
    · next heq =>
      have : k = hd.1 := LawfulEqOrd.eq_of_compare heq
      subst this
      cases h
      exact List.mem_cons_self
    · exact List.mem_cons_of_mem _ (ih h)

theorem findEntry_of_mem {k : κ} {v : ν} {l : List (κ × ν)}
    (hl : l.Pairwise fun a b => compare a.1 b.1 = .lt) (h : (k, v) ∈ l) :
    findEntry k l = some v := by
  induction l with
  | nil => simp at h
  | cons hd tl ih =>
    rcases List.mem_cons.1 h with rfl | h
    · simp [findEntry]
    · have hlt := List.rel_of_pairwise_cons hl h
      have hne : compare k hd.1 ≠ .eq := by
        rw [OrientedCmp.gt_of_lt hlt]; decide
      simp [findEntry, hne, ih hl.of_cons h]

theorem mem_entries_iff (m : SortedMap κ ν) (k : κ) (v : ν) :
    (k, v) ∈ m.entries ↔ m.get? k = some v :=
  ⟨findEntry_of_mem m.increasing, mem_of_findEntry⟩

/-- Strictly increasing lists with the same members are equal. -/
theorem eq_of_mem_iff {l₁ l₂ : List (κ × ν)}
    (h₁ : l₁.Pairwise fun a b => compare a.1 b.1 = .lt)
    (h₂ : l₂.Pairwise fun a b => compare a.1 b.1 = .lt)
    (h : ∀ e, e ∈ l₁ ↔ e ∈ l₂) : l₁ = l₂ := by
  induction l₁ generalizing l₂ with
  | nil =>
    cases l₂ with
    | nil => rfl
    | cons b t => exact absurd ((h b).2 List.mem_cons_self) (by simp)
  | cons a s ih =>
    cases l₂ with
    | nil => exact absurd ((h a).1 List.mem_cons_self) (by simp)
    | cons b t =>
      have hab : a = b := by
        rcases List.mem_cons.1 ((h a).1 List.mem_cons_self) with e | ha
        · exact e
        · rcases List.mem_cons.1 ((h b).2 List.mem_cons_self) with e | hb
          · exact e.symm
          · have h1 := List.rel_of_pairwise_cons h₂ ha
            have h2 := List.rel_of_pairwise_cons h₁ hb
            have := OrientedCmp.not_lt_of_lt h1
            exact absurd h2 this
      subst hab
      congr 1
      refine ih h₁.of_cons h₂.of_cons fun e => ?_
      have irr : compare a.1 a.1 ≠ .lt := by
        rw [ReflOrd.compare_self]; decide
      constructor
      · intro he
        rcases List.mem_cons.1 ((h e).1 (List.mem_cons_of_mem _ he)) with rfl | he'
        · exact absurd (List.rel_of_pairwise_cons h₁ he) irr
        · exact he'
      · intro he
        rcases List.mem_cons.1 ((h e).2 (List.mem_cons_of_mem _ he)) with rfl | he'
        · exact absurd (List.rel_of_pairwise_cons h₂ he) irr
        · exact he'

/-- Maps that answer every look-up alike are equal. -/
theorem ext_get? {a b : SortedMap κ ν} (h : ∀ k, a.get? k = b.get? k) : a = b :=
  ext_entries (eq_of_mem_iff a.increasing b.increasing fun e => by
    rw [mem_entries_iff a e.1 e.2, mem_entries_iff b e.1 e.2, h])

/-- A map with one key at most. -/
theorem keys_eq_of_all_eq {m : SortedMap κ ν} {k : κ} (h : ∀ k' v, m.get? k' = some v → k' = k) :
    m.keys = [k] ∨ m.keys = [] := by
  have hkey (e : κ × ν) (he : e ∈ m.entries) : e.1 = k := h e.1 e.2 ((mem_entries_iff m _ _).1 he)
  have hincreasing := m.increasing
  unfold keys
  cases hm : m.entries with
  | nil => exact .inr rfl
  | cons e rest =>
    rw [hm] at hkey hincreasing
    cases rest with
    | nil => exact .inl (congrArg ([·]) (hkey e List.mem_cons_self))
    | cons e' rest =>
      have hlt := List.rel_of_pairwise_cons hincreasing List.mem_cons_self
      rw [hkey e List.mem_cons_self, hkey e' (List.mem_cons_of_mem _ List.mem_cons_self),
        ReflOrd.compare_self] at hlt
      cases hlt

theorem keys_eq_nil {m : SortedMap κ ν} (h : ∀ k v, m.get? k ≠ some v) : m.keys = [] := by
  unfold keys
  cases hm : m.entries with
  | nil => rfl
  | cons e rest =>
    have he : e ∈ m.entries := by
      rw [hm]
      exact List.mem_cons_self
    exact absurd ((mem_entries_iff m _ _).1 he) (h e.1 e.2)

end

end SortedMap

end ContractBench
