import ContractBench.Expr.Keys
import ContractBench.Proofs.Expr.Built
/-!
# The keys of a tree

`Expr.keyUses` lists every read and write of a key in a tree, unreachable nodes included. The
check of a built tree registers exactly these, in order, and has nothing else to object to:

    registerAll [] e.keyUses ≠ none ↔ e.KeysAgree                (registerAll_keyUses_ne_none_iff)
    Built e → e.KeysAgree → ∃ types, e.checkTypes path [] = .ok types        (checkTypes_of_built)
-/

namespace ContractBench

open Success

namespace Expr

mutual

/-- Every use of a key in a tree, children first. -/
def keyUses (e : Expr) : List (StateKey × ValueType) :=
  (match e with
    | .unary _ operand => keyUses operand
    | .binary _ left right => keyUses left ++ keyUses right
    | .localGet account _ _ => keyUses account
    | .globalPut _ value => keyUses value
    | .localPut account _ value => keyUses account ++ keyUses value
    | .log value => keyUses value
    | .seq items => itemUses items
    | .cond arms => armUses arms
    | _ => []) ++ e.keyUse?.toList
termination_by structural e

def itemUses (items : List Expr) : List (StateKey × ValueType) :=
  match items with
  | [] => []
  | e :: rest => keyUses e ++ itemUses rest
termination_by structural items

def armUses (arms : List (Expr × Expr)) : List (StateKey × ValueType) :=
  match arms with
  | [] => []
  | (test, body) :: rest => keyUses test ++ (keyUses body ++ armUses rest)
termination_by structural arms

end

/-- All uses of one key in a tree are of one type. -/
def KeysAgree (e : Expr) : Prop :=
  ∀ u ∈ e.keyUses, ∀ u' ∈ e.keyUses, u.1 = u'.1 → u.2 = u'.2

end Expr

/-! ## Registering uses in turn -/

namespace KeyTypes

/-- The types after a list of uses; nothing if one disagrees with an earlier one. -/
def registerAll (types : KeyTypes) : List (StateKey × ValueType) → Option KeyTypes
  | [] => some types
  | (k, t) :: rest =>
    match types.lookup k with
    | some known => if known = t then registerAll types rest else none
    | none => registerAll ((k, t) :: types) rest

theorem registerAll_append (types : KeyTypes) (uses uses' : List (StateKey × ValueType)) :
    registerAll types (uses ++ uses') = (registerAll types uses).bind (registerAll · uses') := by
  induction uses generalizing types with
  | nil => rfl
  | cons u rest ih =>
    simp only [List.cons_append, registerAll]
    split
    · split
      · exact ih types
      · rfl
    · exact ih _

theorem lookup_cons_of_ne (types : KeyTypes) {k k' : StateKey} (t : ValueType) (h : k' ≠ k) :
    List.lookup k' ((k, t) :: types) = List.lookup k' types := by
  have hb : (k' == k) = false := by simpa using h
  rw [List.lookup_cons, hb]

/-- Uses can be registered exactly when they agree with the types so far and with each other. -/
theorem registerAll_ne_none_iff (types : KeyTypes) (uses : List (StateKey × ValueType)) :
    registerAll types uses ≠ none ↔
      (∀ u ∈ uses, ∀ t, types.lookup u.1 = some t → t = u.2) ∧
        ∀ u ∈ uses, ∀ u' ∈ uses, u.1 = u'.1 → u.2 = u'.2 := by
  induction uses generalizing types with
  | nil => simp [registerAll]
  | cons u rest ih =>
    obtain ⟨k, t⟩ := u
    simp only [registerAll]
    cases hk : types.lookup k with
    | some known =>
      by_cases hkt : known = t
      · subst hkt
        simp only [if_true, ih, List.forall_mem_cons, hk]
        constructor
        · rintro ⟨hl, hp⟩
          have hown : ∀ u ∈ rest, k = u.1 → known = u.2 := by
            intro u hu e
            exact hl u hu known (e ▸ hk)
          refine ⟨⟨fun t h => (Option.some.inj h).symm, hl⟩, ⟨fun _ => trivial, hown⟩, ?_⟩
          intro u hu
          exact ⟨fun e => (hown u hu e.symm).symm, hp u hu⟩
        · rintro ⟨⟨-, hl⟩, ⟨-, -⟩, hp⟩
          exact ⟨hl, fun u hu => (hp u hu).2⟩
      · simp only [hkt, if_false, ne_eq, not_true_eq_false, false_iff, not_and]
        intro hl
        exact absurd (hl (k, t) List.mem_cons_self known hk) hkt
    | none =>
      simp only [ih, List.forall_mem_cons, hk]
      constructor
      · rintro ⟨hl, hp⟩
        have hown : ∀ u ∈ rest, k = u.1 → t = u.2 := by
          intro u hu e
          exact hl u hu t (e ▸ List.lookup_cons_self)
        refine ⟨⟨fun _ h => (nomatch h), fun u hu t' h => ?_⟩, ⟨fun _ => trivial, hown⟩,
          fun u hu => ⟨fun e => (hown u hu e.symm).symm, hp u hu⟩⟩
        have hne : u.1 ≠ k := by
          intro e
          rw [e, hk] at h
          cases h
        exact hl u hu t' (by rw [lookup_cons_of_ne types t hne, h])
      · rintro ⟨⟨-, hl⟩, ⟨-, hown⟩, hp⟩
        refine ⟨fun u hu t' h => ?_, fun u hu => (hp u hu).2⟩
        by_cases e : u.1 = k
        · rw [e, List.lookup_cons_self] at h
          rw [← Option.some.inj h]
          exact hown u hu e.symm
        · exact hl u hu t' (by rwa [lookup_cons_of_ne types t e] at h)

/-- A type found after registering was there before, or is that of a registered use. -/
theorem lookup_of_registerAll {types types' : KeyTypes} {uses : List (StateKey × ValueType)}
    (h : registerAll types uses = some types') {k : StateKey} {t : ValueType}
    (hk : types'.lookup k = some t) : types.lookup k = some t ∨ (k, t) ∈ uses := by
  induction uses generalizing types with
  | nil =>
    cases h
    exact .inl hk
  | cons u rest ih =>
    obtain ⟨k', t'⟩ := u
    rw [registerAll] at h
    cases hl : types.lookup k' with
    | some known =>
      simp only [hl] at h
      split at h
      · exact (ih h).imp_right (List.mem_cons_of_mem _)
      · cases h
    | none =>
      simp only [hl] at h
      rcases ih h with he | he
      · by_cases e : k = k'
        · subst e
          rw [List.lookup_cons_self] at he
          cases he
          exact .inr List.mem_cons_self
        · rw [lookup_cons_of_ne types t' e] at he
          exact .inl he
      · exact .inr (List.mem_cons_of_mem _ he)

/-- The error for a key that is used with one type where it is known with another. -/
def clash (path : NodePath) (k : StateKey) (known type : ValueType) : CompileError :=
  .typeMismatch (path.text ++ " (key " ++ k.key.readable ++ ")") (.value known) (.value type)

/-- A check that registers some uses and fails only where two types of a key clash. -/
def Registers (types : KeyTypes) (uses : List (StateKey × ValueType)) :
    Except CompileError KeyTypes → Prop
  | .ok types' => registerAll types uses = some types'
  | .error e =>
    registerAll types uses = none ∧
      ∃ path k t t', t ≠ t' ∧ (types.lookup k = some t ∨ (k, t) ∈ uses) ∧ (k, t') ∈ uses ∧
        e = clash path k t t'

theorem Registers.pure (types : KeyTypes) : Registers types [] (.ok types) := rfl

theorem Registers.bind {types : KeyTypes} {uses uses' : List (StateKey × ValueType)}
    {x : Except CompileError KeyTypes} {f : KeyTypes → Except CompileError KeyTypes}
    (hx : Registers types uses x) (hf : ∀ types', Registers types' uses' (f types')) :
    Registers types (uses ++ uses') (x >>= f) := by
  cases x with
  | error e =>
    obtain ⟨hn, path, k, t, t', hne, hk, hu, he⟩ := hx
    refine ⟨?_, path, k, t, t', hne, hk.imp_right (List.mem_append_left _),
      List.mem_append_left _ hu, he⟩
    rw [registerAll_append, hn]
    rfl
  | ok types' =>
    have h1 : registerAll types uses = some types' := hx
    have h2 := hf types'
    show Registers types (uses ++ uses') (f types')
    cases hr : f types' with
    | ok types'' =>
      rw [hr] at h2
      show registerAll types (uses ++ uses') = some types''
      rw [registerAll_append, h1]
      exact h2
    | error e =>
      rw [hr] at h2
      obtain ⟨hn, path, k, t, t', hne, hk, hu, he⟩ := h2
      refine ⟨?_, path, k, t, t', hne, ?_, List.mem_append_right _ hu, he⟩
      · rw [registerAll_append, h1]
        exact hn
      · rcases hk with hk | hk
        · exact (lookup_of_registerAll h1 hk).imp_right (List.mem_append_left _)
        · exact .inr (List.mem_append_right _ hk)

theorem registers_register (types : KeyTypes) (path : NodePath) (k : StateKey) (t : ValueType) :
    Registers types [(k, t)] (types.register path k t) := by
  unfold register
  cases hk : types.lookup k with
  | none => simp [Registers, registerAll, hk]
  | some known =>
    by_cases h : known = t
    · simp [Registers, registerAll, hk, h]
    · simp only [h, if_false]
      exact ⟨by simp [registerAll, hk, h], path, k, known, t, h, .inl hk,
        List.mem_singleton_self _, rfl⟩

end KeyTypes

/-! ## The check registers the uses of a tree -/

namespace Expr

open KeyTypes

theorem registers_checkNode {e : Expr} (h : Built e) (path : NodePath) (types : KeyTypes) :
    Registers types e.keyUse?.toList (e.checkNode path types) := by
  unfold checkNode
  rw [infer_of_built h]
  simp only [bind, Except.bind]
  rw [if_neg (by simp)]
  cases e.keyUse? with
  | none => exact Registers.pure types
  | some u => exact registers_register types path u.1 u.2

/-- The check of a tree does what its uses say, at every path. -/
def Checks (e : Expr) : Prop :=
  ∀ path types, Registers types e.keyUses (e.checkTypes path types)

theorem checkItems_registers {items : List Expr} (h : ∀ e ∈ items, Checks e) (path : NodePath)
    (i : Nat) (types : KeyTypes) :
    Registers types (itemUses items) (checkItems path i types items) := by
  induction items generalizing i types with
  | nil => exact Registers.pure types
  | cons e rest ih =>
    rw [List.forall_mem_cons] at h
    exact (h.1 _ types).bind fun types' => ih h.2 (i + 1) types'

theorem checkArms_registers {arms : List (Expr × Expr)} (ht : ∀ arm ∈ arms, Checks arm.1)
    (hb : ∀ arm ∈ arms, Checks arm.2) (path : NodePath) (i : Nat) (types : KeyTypes) :
    Registers types (armUses arms) (checkArms path i types arms) := by
  induction arms generalizing i types with
  | nil => exact Registers.pure types
  | cons arm rest ih =>
    rw [List.forall_mem_cons] at ht hb
    exact (ht.1 _ types).bind fun types1 => (hb.1 _ types1).bind fun types2 =>
      ih ht.2 hb.2 (i + 1) types2

theorem checks_of_built {e : Expr} (h : Built e) : Checks e := by
  intro path types
  induction h generalizing path types with
  | int | bytes | named | txn | global | globalGet | verdict =>
    exact (Registers.pure types).bind fun types' => registers_checkNode (by constructor) path types'
  | unary ha hc iha =>
    rw [checkTypes, keyUses]
    exact (iha _ types).bind fun types' => registers_checkNode (.unary ha hc) path types'
  | binary ha hb hc iha ihb =>
    rw [checkTypes, keyUses, List.append_assoc]
    exact (iha _ types).bind fun types1 => (ihb _ types1).bind fun types2 =>
      registers_checkNode (.binary ha hb hc) path types2
  | localGet ha hc iha =>
    rw [checkTypes, keyUses]
    exact (iha _ types).bind fun types' => registers_checkNode (.localGet ha hc) path types'
  | globalPut ha hc iha =>
    rw [checkTypes, keyUses]
    exact (iha _ types).bind fun types' => registers_checkNode (.globalPut ha hc) path types'
  | localPut ha hb hc iha ihb =>
    rw [checkTypes, keyUses, List.append_assoc]
    exact (iha _ types).bind fun types1 => (ihb _ types1).bind fun types2 =>
      registers_checkNode (.localPut ha hb hc) path types2
  | log ha hc iha =>
    rw [checkTypes, keyUses]
    exact (iha _ types).bind fun types' => registers_checkNode (.log ha hc) path types'
  | seq hs ih =>
    rw [checkTypes, keyUses]
    exact (checkItems_registers ih path 0 types).bind fun types' =>
      registers_checkNode (.seq hs) path types'
  | cond ht hb hc iht ihb =>
    rw [checkTypes, keyUses]
    exact (checkArms_registers iht ihb path 0 types).bind fun types' =>
      registers_checkNode (.cond ht hb hc) path types'

theorem registerAll_keyUses_ne_none_iff (e : Expr) :
    registerAll [] e.keyUses ≠ none ↔ e.KeysAgree := by
  rw [registerAll_ne_none_iff]
  simp [KeysAgree]

/-- A built tree passes the check if its keys agree; else the check tells two uses of one key that
do not. -/
theorem checkTypes_of_built {e : Expr} (h : Built e) (path : NodePath) :
    (e.KeysAgree ∧ ∃ types, e.checkTypes path [] = .ok types) ∨
      (¬ e.KeysAgree ∧ ∃ node k t t', t ≠ t' ∧ (k, t) ∈ e.keyUses ∧ (k, t') ∈ e.keyUses ∧
        e.checkTypes path [] = .error (clash node k t t')) := by
  have hr := checks_of_built h path []
  rw [← registerAll_keyUses_ne_none_iff]
  cases hc : e.checkTypes path [] with
  | ok types =>
    rw [hc] at hr
    have hr : registerAll [] e.keyUses = some types := hr
    exact .inl ⟨by simp [hr], types, rfl⟩
  | error err =>
    rw [hc] at hr
    obtain ⟨hn, node, k, t, t', hne, hk, hu, rfl⟩ := hr
    have hk : (k, t) ∈ e.keyUses := hk.resolve_left fun hl => by cases hl
    exact .inr ⟨by simp [hn], node, k, t, t', hne, hk, hu, rfl⟩

end Expr

end ContractBench
