import ContractBench.Proofs.State.Entries
import ContractBench.State.View
/-!
# What a committed delta leaves behind

Committed state holds the writes of the delta and, where there is none, what was there before. One
more write is the same before and after it is committed, and an account that opts in finds its store
empty:

    (s.commit d).globals.get? k = (d.globals.get? k).or (s.globals.get? k)    (get?_globals_commit)
    (s.commit d).localValue? a k = (d.locals.get? ⟨a, k⟩).or (s.localValue? a k)
                                                                             (localValue?_commit)
    s.commit (d with a local write) = putLocal into s.commit d                 (commit_insertLocal)
    storeOf (s.optIn a).locals b = storeOf s.locals b                                (storeOf_optIn)
-/

namespace ContractBench

open Std

/-! ## Local stores -/

/-- The local store of an account, empty if there is none. -/
def storeOf (locals : SortedMap Address KeyValues) (account : Address) : KeyValues :=
  (locals.get? account).getD ∅

/-- The writes of a delta to the local store of an account. -/
def Delta.writesTo (d : Delta) (account : Address) : List (Bytes × Value) :=
  (d.locals.entries.filter fun e => e.1.account == account).map fun e => (e.1.key, e.2)

/-- Keys of one account are ordered as they are without it. -/
theorem LocalKey.compare_of_account_eq {k k' : LocalKey} (h : k.account = k'.account) :
    compare k k' = compare k.key k'.key := by
  show (compare k.account k'.account).then (compare k.key k'.key) = _
  rw [h, ReflOrd.compare_self]
  rfl

namespace Delta

theorem mem_writesTo {d : Delta} {a : Address} {e : Bytes × Value} :
    e ∈ d.writesTo a ↔ d.locals.get? ⟨a, e.1⟩ = some e.2 := by
  obtain ⟨key, value⟩ := e
  rw [← SortedMap.mem_entries_iff]
  constructor
  · intro h
    obtain ⟨⟨⟨account, key'⟩, value'⟩, hfilter, heq⟩ := List.mem_map.1 h
    obtain ⟨he, ha⟩ := List.mem_filter.1 hfilter
    have ha : account = a := eq_of_beq ha
    cases heq
    subst ha
    exact he
  · intro h
    exact List.mem_map.2 ⟨(⟨a, key⟩, value), List.mem_filter.2 ⟨h, beq_self_eq_true a⟩, rfl⟩

theorem writesTo_increasing (d : Delta) (a : Address) :
    (d.writesTo a).Pairwise fun e e' => compare e.1 e'.1 = .lt := by
  refine List.pairwise_map.2 ((d.locals.increasing.filter _).imp_of_mem fun {e e'} he he' h => ?_)
  have ha : e.1.account = a := eq_of_beq (List.mem_filter.1 he).2
  have ha' : e'.1.account = a := eq_of_beq (List.mem_filter.1 he').2
  rw [LocalKey.compare_of_account_eq (ha.trans ha'.symm)] at h
  exact h

theorem findEntry_writesTo (d : Delta) (a : Address) (key : Bytes) :
    SortedMap.findEntry key (d.writesTo a) = d.locals.get? ⟨a, key⟩ := by
  refine Option.ext fun v => ?_
  rw [← mem_writesTo (e := (key, v))]
  exact ⟨SortedMap.mem_of_findEntry, SortedMap.findEntry_of_mem (d.writesTo_increasing a)⟩

end Delta

namespace AppState

/-! ## One local write -/

theorem localValue?_eq_get? (s : AppState) (a : Address) (key : Bytes) :
    s.localValue? a key = (storeOf s.locals a).get? key := by
  unfold localValue? storeOf
  cases s.locals.get? a <;> rfl

theorem get?_putLocal (locals : SortedMap Address KeyValues) (k : LocalKey) (v : Value)
    (a : Address) :
    (putLocal locals k v).get? a =
      if a = k.account then some ((storeOf locals a).insert k.key v) else locals.get? a := by
  unfold putLocal
  by_cases ha : a = k.account
  · subst ha
    rw [if_pos rfl, SortedMap.get?_insert_self]
    rfl
  · rw [if_neg ha, SortedMap.get?_insert_of_ne _ _ ha]

theorem storeOf_putLocal (locals : SortedMap Address KeyValues) (k : LocalKey) (v : Value)
    (a : Address) :
    storeOf (putLocal locals k v) a =
      if a = k.account then (storeOf locals a).insert k.key v else storeOf locals a := by
  rw [storeOf, get?_putLocal]
  split <;> rfl

theorem puts_putLocal : SortedMap.Puts putLocal where
  comm locals k k' v v' hne := by
    refine SortedMap.ext_get? fun a => ?_
    simp only [get?_putLocal, storeOf_putLocal]
    by_cases ha : a = k.account
    · by_cases ha' : a = k'.account
      · have hkey : k.key ≠ k'.key := by
          intro e
          obtain ⟨account, key⟩ := k
          obtain ⟨account', key'⟩ := k'
          cases ha.symm.trans ha'
          cases e
          exact hne rfl
        simp only [if_pos ha, if_pos ha', SortedMap.puts_insert.comm _ v v' hkey]
      · simp only [if_pos ha, if_neg ha']
    · simp only [if_neg ha]
  again locals k v v' := by
    unfold putLocal
    rw [SortedMap.get?_insert_self, Option.getD_some, SortedMap.puts_insert.again,
      SortedMap.puts_insert.again]

/-! ## Whole deltas -/

/-- The fold of a delta's local writes, store by store. -/
theorem storeOf_foldl_putLocal (l : List (LocalKey × Value))
    (locals : SortedMap Address KeyValues) (a : Address) :
    storeOf (l.foldl (fun m e => putLocal m e.1 e.2) locals) a =
      (storeOf locals a).insertAll
        ((l.filter fun e => e.1.account == a).map fun e => (e.1.key, e.2)) := by
  induction l generalizing locals with
  | nil => rfl
  | cons e rest ih =>
    rw [List.foldl_cons, ih, storeOf_putLocal, List.filter_cons]
    by_cases ha : a = e.1.account
    · have hb : (e.1.account == a) = true := beq_iff_eq.2 ha.symm
      rw [if_pos ha, if_pos hb]
      rfl
    · have hb : ¬ (e.1.account == a) = true := fun h => ha (eq_of_beq h).symm
      rw [if_neg ha, if_neg hb]

theorem storeOf_commit (s : AppState) (d : Delta) (a : Address) :
    storeOf (s.commit d).locals a = (storeOf s.locals a).insertAll (d.writesTo a) :=
  storeOf_foldl_putLocal d.locals.entries s.locals a

theorem get?_globals_commit (s : AppState) (d : Delta) (key : Bytes) :
    (s.commit d).globals.get? key = (d.globals.get? key).or (s.globals.get? key) :=
  SortedMap.get?_insertAll d.globals.increasing s.globals key

theorem localValue?_commit (s : AppState) (d : Delta) (a : Address) (key : Bytes) :
    (s.commit d).localValue? a key = (d.locals.get? ⟨a, key⟩).or (s.localValue? a key) := by
  rw [localValue?_eq_get?, storeOf_commit, SortedMap.get?_insertAll (d.writesTo_increasing a),
    d.findEntry_writesTo, ← localValue?_eq_get?]

/-- Local writes give local stores to their accounts. -/
theorem contains_foldl_putLocal (l : List (LocalKey × Value))
    (locals : SortedMap Address KeyValues) (a : Address) :
    (l.foldl (fun m e => putLocal m e.1 e.2) locals).contains a = true ↔
      locals.contains a = true ∨ ∃ e ∈ l, e.1.account = a := by
  induction l generalizing locals with
  | nil => simp
  | cons e rest ih =>
    rw [List.foldl_cons, ih, SortedMap.contains_eq_isSome, get?_putLocal]
    by_cases ha : a = e.1.account
    · simp [ha]
    · have ha' : ¬ e.1.account = a := fun h => ha h.symm
      simp [ha, ha', SortedMap.contains_eq_isSome]

/-- A committed delta gives local stores to the accounts it writes to. -/
theorem isOptedIn_commit (s : AppState) (d : Delta) (a : Address) :
    (s.commit d).isOptedIn a = true ↔
      s.isOptedIn a = true ∨ ∃ key v, d.locals.get? ⟨a, key⟩ = some v := by
  refine (contains_foldl_putLocal d.locals.entries s.locals a).trans (or_congr Iff.rfl ?_)
  constructor
  · rintro ⟨⟨⟨account, key⟩, v⟩, he, rfl⟩
    exact ⟨key, v, (SortedMap.mem_entries_iff _ _ _).1 he⟩
  · rintro ⟨key, v, hget⟩
    exact ⟨(⟨a, key⟩, v), (SortedMap.mem_entries_iff _ _ _).2 hget, rfl⟩

/-! ## One more write -/

theorem commit_insertGlobal (s : AppState) (d : Delta) (key : Bytes) (v : Value) :
    s.commit { d with globals := d.globals.insert key v } =
      { s.commit d with globals := (s.commit d).globals.insert key v } := by
  have h := SortedMap.puts_insert.foldl_insertEntry key v d.globals.increasing s.globals
  unfold commit
  rw [show s.globals.insertAll (d.globals.insert key v).entries = _ from h]
  rfl

theorem commit_insertLocal (s : AppState) (d : Delta) (k : LocalKey) (v : Value) :
    s.commit { d with locals := d.locals.insert k v } =
      { s.commit d with locals := putLocal (s.commit d).locals k v } := by
  have h := puts_putLocal.foldl_insertEntry k v d.locals.increasing s.locals
  unfold commit
  rw [show (d.locals.insert k v).entries.foldl _ s.locals = _ from h]

/-! ## Opting in and out -/

theorem storeOf_optIn (s : AppState) (a b : Address) :
    storeOf (s.optIn a).locals b = storeOf s.locals b := by
  unfold optIn
  split
  · rfl
  · next hopt =>
    unfold storeOf
    by_cases hb : b = a
    · subst hb
      have hnone : s.locals.get? b = none := by
        rw [isOptedIn, SortedMap.contains_eq_isSome] at hopt
        simpa using hopt
      rw [hnone]
      show ((s.locals.insert b ∅).get? b).getD ∅ = _
      rw [SortedMap.get?_insert_self]
      rfl
    · show ((s.locals.insert a ∅).get? b).getD ∅ = _
      rw [SortedMap.get?_insert_of_ne _ _ hb]

theorem globals_optIn (s : AppState) (a : Address) : (s.optIn a).globals = s.globals := by
  unfold optIn
  split <;> rfl

theorem schemas_optIn (s : AppState) (a : Address) :
    (s.optIn a).globalSchema = s.globalSchema ∧ (s.optIn a).localSchema = s.localSchema := by
  unfold optIn
  split <;> exact ⟨rfl, rfl⟩

theorem isOptedIn_optIn (s : AppState) (a b : Address) :
    (s.optIn a).isOptedIn b = true ↔ s.isOptedIn b = true ∨ b = a := by
  unfold optIn
  split
  · next hopt =>
    refine ⟨.inl, ?_⟩
    rintro (h | rfl)
    · exact h
    · exact hopt
  · show (s.locals.insert a ∅).contains b = true ↔ s.locals.contains b = true ∨ b = a
    rw [SortedMap.contains_eq_isSome, SortedMap.contains_eq_isSome]
    by_cases hb : b = a
    · subst hb
      simp [SortedMap.get?_insert_self]
    · simp [SortedMap.get?_insert_of_ne _ _ hb, hb]

theorem isOptedIn_closeOut (s : AppState) (a b : Address) :
    (s.closeOut a).isOptedIn b = true ↔ s.isOptedIn b = true ∧ b ≠ a := by
  show (s.locals.erase a).contains b = true ↔ s.locals.contains b = true ∧ b ≠ a
  rw [SortedMap.contains_eq_isSome, SortedMap.contains_eq_isSome]
  by_cases hb : b = a
  · subst hb
    simp [SortedMap.get?_erase_self]
  · simp [SortedMap.get?_erase_of_ne _ hb, hb]

end AppState

end ContractBench
