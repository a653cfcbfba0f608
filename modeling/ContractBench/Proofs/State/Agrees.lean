import ContractBench.Expr.Keys
import ContractBench.State.View
/-!
# State of the declared types

Keys have declared types. A state agrees with them if every value stored at such a key is of its
type, in the global store and in the local stores of all accounts. Writes of the declared types
keep it so, before and after they are committed:

    s.Agrees types → d.Agrees types → (s.commit d).Agrees types               (agrees_commit)
-/

namespace ContractBench

open Std

/-! ## Entries of a map -/

namespace SortedMap

variable {κ ν : Type} [Ord κ] {P : κ → ν → Prop} {m : SortedMap κ ν}

/-- Every entry satisfies a predicate. -/
def All (P : κ → ν → Prop) (m : SortedMap κ ν) : Prop := ∀ k v, m.get? k = some v → P k v

theorem all_empty : All P (∅ : SortedMap κ ν) := fun _ _ h => nomatch h

variable [TransOrd κ] [LawfulEqOrd κ]

theorem All.insert (h : m.All P) {k : κ} {v : ν} (hv : P k v) : (m.insert k v).All P := by
  intro k' v' hget
  rw [get?_insert] at hget
  split at hget
  · next heq =>
    cases LawfulEqOrd.eq_of_compare heq
    cases hget
    exact hv
  · exact h k' v' hget

theorem All.insertAll {l : List (κ × ν)} (h : m.All P) (hl : ∀ e ∈ l, P e.1 e.2) :
    (m.insertAll l).All P := by
  induction l generalizing m with
  | nil => exact h
  | cons e rest ih =>
    have he := hl e List.mem_cons_self
    exact ih (h.insert he) fun e' he' => hl e' (List.mem_cons_of_mem _ he')

theorem All.erase (h : m.All P) (k : κ) : (m.erase k).All P := by
  intro k' v hget
  rw [get?_erase] at hget
  split at hget
  · cases hget
  · exact h k' v hget

theorem All.of_mem {e : κ × ν} (h : m.All P) (he : e ∈ m.entries) : P e.1 e.2 :=
  h _ _ ((mem_entries_iff m e.1 e.2).1 he)

end SortedMap

/-! ## Algorithm -/

/-- A value is of the types declared for a key. -/
def KeyTypes.Admits (types : KeyTypes) (space : KeySpace) (key : Bytes) (v : Value) : Prop :=
  ∀ t, (⟨space, key⟩, t) ∈ types → v.type = t

/-- A key has one type only. -/
def KeyTypes.ConsistentAt (types : KeyTypes) (k : StateKey) : Prop :=
  ∀ t t', (k, t) ∈ types → (k, t') ∈ types → t = t'

/-- All stores hold values of the declared types. -/
structure AppState.Agrees (s : AppState) (types : KeyTypes) : Prop where
  globals : s.globals.All (types.Admits .global)
  locals : s.locals.All fun _ store => store.All (types.Admits .account)

/-- All writes are of the declared types. -/
structure Delta.Agrees (d : Delta) (types : KeyTypes) : Prop where
  globals : d.globals.All (types.Admits .global)
  locals : d.locals.All fun k v => types.Admits .account k.key v

/-! ## Lemmas -/

variable {types : KeyTypes}

theorem KeyTypes.ConsistentAt.admits {space : KeySpace} {key : Bytes} {v : Value} {t : ValueType}
    (hc : types.ConsistentAt ⟨space, key⟩) (hu : (⟨space, key⟩, t) ∈ types) (hv : v.type = t) :
    types.Admits space key v := by
  intro t' hu'
  rw [hv]
  exact hc t t' hu hu'

theorem Delta.agrees_empty : ({} : Delta).Agrees types :=
  ⟨SortedMap.all_empty, SortedMap.all_empty⟩

namespace AppState

variable {s : AppState}

theorem Agrees.localValue? (h : s.Agrees types) {a : Address} {key : Bytes} {v : Value}
    (hv : s.localValue? a key = some v) : types.Admits .account key v := by
  obtain ⟨store, hstore, hget⟩ := Option.bind_eq_some_iff.1 hv
  exact h.locals a store hstore key v hget

theorem agrees_putLocal {locals : SortedMap Address KeyValues} {k : LocalKey} {v : Value}
    (h : locals.All fun _ store => store.All (types.Admits .account))
    (hv : types.Admits .account k.key v) :
    (putLocal locals k v).All fun _ store => store.All (types.Admits .account) := by
  refine h.insert ?_
  have hstore : ((locals.get? k.account).getD ∅).All (types.Admits .account) := by
    cases hget : locals.get? k.account with
    | none => exact SortedMap.all_empty
    | some store => exact h _ store hget
  exact hstore.insert hv

/-- Committed writes of the declared types leave a state that agrees with them. -/
theorem agrees_commit {d : Delta} (h : s.Agrees types) (hd : d.Agrees types) :
    (s.commit d).Agrees types := by
  refine ⟨h.globals.insertAll fun e he => hd.globals.of_mem he, ?_⟩
  have hentries : ∀ e ∈ d.locals.entries, types.Admits .account e.1.key e.2 := fun e he =>
    hd.locals.of_mem he
  have hlocals := h.locals
  show (d.locals.entries.foldl (fun m e => putLocal m e.1 e.2) s.locals).All _
  generalize d.locals.entries = entries at hentries
  generalize s.locals = locals at hlocals
  induction entries generalizing locals with
  | nil => exact hlocals
  | cons e rest ih =>
    refine ih (fun e' he' => hentries e' (List.mem_cons_of_mem _ he')) _ ?_
    exact agrees_putLocal hlocals (hentries e List.mem_cons_self)

/-- Values that are there before an account opts in are those there behind it. -/
theorem agrees_optIn (h : s.Agrees types) (a : Address) : (s.optIn a).Agrees types := by
  unfold optIn
  split
  · exact h
  · exact ⟨h.globals, h.locals.insert SortedMap.all_empty⟩

theorem agrees_closeOut (h : s.Agrees types) (a : Address) : (s.closeOut a).Agrees types :=
  ⟨h.globals, h.locals.erase a⟩

end AppState

/-! ## Views -/

namespace View

variable {v v' : View} {key : Bytes} {x : Value} {t : ValueType}

theorem admits_getGlobal? (hb : v.base.Agrees types) (hp : v.pending.Agrees types)
    (h : v.getGlobal? key = some x) : types.Admits .global key x := by
  rcases Option.or_eq_some_iff.1 h with hget | ⟨-, hget⟩
  · exact hp.globals key x hget
  · exact hb.globals key x hget

theorem admits_getLocal? {a : Address} (hb : v.base.Agrees types) (hp : v.pending.Agrees types)
    (h : v.getLocal? a key = some x) : types.Admits .account key x := by
  rcases Option.or_eq_some_iff.1 h with hget | ⟨-, hget⟩
  · exact hp.locals ⟨a, key⟩ x hget
  · exact hb.localValue? hget

/-- A value of the type stored is refused only for want of room. -/
theorem checkPut_error {stored : Option Value} {used : Nat} {limit : UInt64} {e : StateError}
    (hs : ∀ old, stored = some old → old.type = x.type)
    (h : checkPut key stored x used limit = .error e) : e = .schemaFull x.type limit := by
  cases stored with
  | none =>
    unfold checkPut at h
    dsimp only at h
    split at h
    · cases h
      rfl
    · cases h
  | some old =>
    have hok : checkPut key (some old) x used limit = .ok () := if_pos (hs old rfl)
    rw [hok] at h
    cases h

/-- A write of the declared type is refused only for want of room. -/
theorem putGlobal_error {e : StateError} (hb : v.base.Agrees types)
    (hp : v.pending.Agrees types) (hu : (⟨.global, key⟩, x.type) ∈ types)
    (h : v.putGlobal key x = .error e) :
    e = .schemaFull x.type (v.base.globalSchema.capacity x.type) := by
  rcases Success.bind_eq_error.1 h with h | ⟨-, -, h⟩
  · refine checkPut_error (fun old hold => ?_) h
    exact admits_getGlobal? hb hp hold _ hu
  · cases h

theorem putLocal_error {a : Address} {e : StateError} (hb : v.base.Agrees types)
    (hp : v.pending.Agrees types) (hu : (⟨.account, key⟩, x.type) ∈ types)
    (h : v.putLocal a key x = .error e) :
    e = .schemaFull x.type (v.base.localSchema.capacity x.type) := by
  rcases Success.bind_eq_error.1 h with h | ⟨-, -, h⟩
  · refine checkPut_error (fun old hold => ?_) h
    exact admits_getLocal? hb hp hold _ hu
  · cases h

theorem agrees_putGlobal (hp : v.pending.Agrees types) (hx : types.Admits .global key x)
    (h : v.putGlobal key x = .ok v') : v'.pending.Agrees types := by
  obtain ⟨-, hl, hg⟩ := putGlobal_eq h
  constructor
  · rw [hg]
    exact hp.globals.insert hx
  · rw [hl]
    exact hp.locals

theorem agrees_putLocal {a : Address} (hp : v.pending.Agrees types)
    (hx : types.Admits .account key x) (h : v.putLocal a key x = .ok v') :
    v'.pending.Agrees types := by
  obtain ⟨-, hg, hl⟩ := putLocal_eq h
  constructor
  · rw [hg]
    exact hp.globals
  · rw [hl]
    exact hp.locals.insert hx

end View

end ContractBench
