import ContractBench.Proofs.Expr.KeyUses
/-!
# Nodes of a tree

Which nodes a tree has, and which of them are lowered: in a sequence nothing behind an item that
terminates is. Every node of a built tree is built.

    Built e ↔ e.Fits ∧ ∀ c ∈ e.children, Built c                                  (built_iff)
    Built e → Within n e → n.infer node = .ok (n.type, n.terminates)            (Built.of_within)
    Built e → (u ∈ e.keyUses ↔ ∃ n, Within n e ∧ n.keyUse? = some u)              (mem_keyUses_iff)
-/

namespace ContractBench

namespace Expr

/-- The nodes right below a node. -/
def children : Expr → List Expr
  | .unary _ operand => [operand]
  | .binary _ left right => [left, right]
  | .localGet account _ _ => [account]
  | .globalPut _ value => [value]
  | .localPut account _ value => [account, value]
  | .log value => [value]
  | .seq items => items
  | .cond arms => arms.flatMap fun arm => [arm.1, arm.2]
  | _ => []

/-- The items of a sequence up to the first that terminates. -/
def liveItems : List Expr → List Expr
  | [] => []
  | e :: rest => if e.terminates then [e] else e :: liveItems rest

/-- The nodes right below a node that are lowered with it. -/
def liveChildren : Expr → List Expr
  | .seq items => liveItems items
  | e => e.children

/-- A node of a tree, unreachable ones included. -/
inductive Within (n : Expr) : Expr → Prop
  | self : Within n n
  | child {c e : Expr} : c ∈ e.children → Within n c → Within n e

/-- A node of a tree that is lowered with it. -/
inductive Reached (n : Expr) : Expr → Prop
  | self : Reached n n
  | child {c e : Expr} : c ∈ e.liveChildren → Reached n c → Reached n e

/-- The key that a node itself writes. -/
def put? : Expr → Option StateKey
  | .globalPut key _ => some ⟨.global, key⟩
  | .localPut _ key _ => some ⟨.account, key⟩
  | _ => none

/-- A tree writes a key, or would at a node that is unreachable. -/
def Puts (e : Expr) (k : StateKey) : Prop := ∃ n, Within n e ∧ n.put? = some k

/-- A tree writes a key at a node that is lowered. -/
def PutsLive (e : Expr) (k : StateKey) : Prop := ∃ n, Reached n e ∧ n.put? = some k

/-- A tree uses a key with a type at a node that is lowered. -/
def UsesLive (e : Expr) (u : StateKey × ValueType) : Prop :=
  ∃ n, Reached n e ∧ n.keyUse? = some u

/-! ## Lemmas -/

theorem within_iff {n e : Expr} : Within n e ↔ n = e ∨ ∃ c ∈ e.children, Within n c := by
  constructor
  · rintro (_ | ⟨hc, hn⟩)
    · exact .inl rfl
    · exact .inr ⟨_, hc, hn⟩
  · rintro (rfl | ⟨c, hc, hn⟩)
    · exact .self
    · exact .child hc hn

/-- What holds of all nodes that are lowered holds of the node and of those below it. -/
theorem forall_reached_iff {e : Expr} {P : Expr → Prop} :
    (∀ n, Reached n e → P n) ↔ P e ∧ ∀ c ∈ e.liveChildren, ∀ n, Reached n c → P n := by
  constructor
  · intro h
    exact ⟨h e .self, fun c hc n hn => h n (.child hc hn)⟩
  · rintro ⟨he, hc⟩ n (_ | ⟨hm, hn⟩)
    · exact he
    · exact hc _ hm n hn

theorem mem_of_mem_liveItems {e : Expr} {items : List Expr} (h : e ∈ liveItems items) :
    e ∈ items := by
  induction items with
  | nil => exact h
  | cons e' rest ih =>
    rw [liveItems] at h
    split at h
    · rw [List.mem_singleton] at h
      exact h ▸ List.mem_cons_self
    · rcases List.mem_cons.1 h with rfl | h
      · exact List.mem_cons_self
      · exact List.mem_cons_of_mem _ (ih h)

theorem within_of_reached {n e : Expr} (h : Reached n e) : Within n e := by
  induction h with
  | self => exact .self
  | @child c e hc _ ih =>
    refine .child ?_ ih
    cases e with
    | seq items => exact mem_of_mem_liveItems hc
    | _ => exact hc

theorem mem_children_cond {arms : List (Expr × Expr)} {c : Expr} :
    c ∈ (Expr.cond arms).children ↔ ∃ arm ∈ arms, c = arm.1 ∨ c = arm.2 := by
  simp [children]

theorem Built.children {e : Expr} (h : Built e) : ∀ c ∈ e.children, Built c := by
  cases h with
  | int | bytes | named | txn | global | globalGet | verdict => exact fun c hc => nomatch hc
  | unary ha _ | localGet ha _ | globalPut ha _ | log ha _ => simpa [Expr.children] using ha
  | binary ha hb _ | localPut ha hb _ => simpa [Expr.children] using ⟨ha, hb⟩
  | seq hs => exact hs
  | cond ht hb _ =>
    intro c hc
    obtain ⟨arm, harm, rfl | rfl⟩ := mem_children_cond.1 hc
    · exact ht arm harm
    · exact hb arm harm

/-- A tree is built if it fits together and the trees right below it are built. -/
theorem built_iff {e : Expr} : Built e ↔ e.Fits ∧ ∀ c ∈ e.children, Built c := by
  constructor
  · exact fun h => ⟨h.fits, h.children⟩
  · rintro ⟨hf, hc⟩
    have ha := admitted_iff_fits.2 hf
    cases e with
    | int | bytes | named | txn | global | globalGet | verdict => constructor
    | unary => exact .unary (hc _ List.mem_cons_self) ha
    | localGet => exact .localGet (hc _ List.mem_cons_self) ha
    | globalPut => exact .globalPut (hc _ List.mem_cons_self) ha
    | log => exact .log (hc _ List.mem_cons_self) ha
    | binary =>
      exact .binary (hc _ List.mem_cons_self) (hc _ (List.mem_cons_of_mem _ List.mem_cons_self)) ha
    | localPut =>
      exact .localPut (hc _ List.mem_cons_self)
        (hc _ (List.mem_cons_of_mem _ List.mem_cons_self)) ha
    | seq => exact .seq hc
    | cond =>
      exact .cond (fun arm harm => hc _ (mem_children_cond.2 ⟨arm, harm, .inl rfl⟩))
        (fun arm harm => hc _ (mem_children_cond.2 ⟨arm, harm, .inr rfl⟩)) ha

/-- What holds of a node whenever it holds of those right below it holds of every built tree. -/
@[elab_as_elim]
theorem Built.of_children {motive : Expr → Prop} {e : Expr} (h : Built e)
    (step : ∀ e, Built e → (∀ c ∈ e.children, motive c) → motive e) : motive e := by
  induction h with
  | int | bytes | named | txn | global | globalGet | verdict =>
    exact step _ (by constructor) fun c hc => nomatch hc
  | unary ha h ih => exact step _ (.unary ha h) (by simpa [Expr.children] using ih)
  | localGet ha h ih => exact step _ (.localGet ha h) (by simpa [Expr.children] using ih)
  | globalPut ha h ih => exact step _ (.globalPut ha h) (by simpa [Expr.children] using ih)
  | log ha h ih => exact step _ (.log ha h) (by simpa [Expr.children] using ih)
  | binary ha hb h iha ihb =>
    exact step _ (.binary ha hb h) (by simpa [Expr.children] using ⟨iha, ihb⟩)
  | localPut ha hb h iha ihb =>
    exact step _ (.localPut ha hb h) (by simpa [Expr.children] using ⟨iha, ihb⟩)
  | seq hs ih => exact step _ (.seq hs) ih
  | cond ht hb h iht ihb =>
    refine step _ (.cond ht hb h) fun c hc => ?_
    obtain ⟨arm, harm, rfl | rfl⟩ := mem_children_cond.1 hc
    · exact iht arm harm
    · exact ihb arm harm

/-- Every node of a built tree is built. -/
theorem Built.of_within {n e : Expr} (h : Built e) (hn : Within n e) : Built n := by
  induction hn with
  | self => exact h
  | child hc _ ih => exact ih (h.children _ hc)

/-! ### Uses of keys -/

theorem mem_itemUses_iff {u : StateKey × ValueType} {items : List Expr} :
    u ∈ itemUses items ↔ ∃ c ∈ items, u ∈ c.keyUses := by
  induction items with
  | nil => simp [itemUses]
  | cons e rest ih => simp [itemUses, ih]

theorem mem_armUses_iff {u : StateKey × ValueType} {arms : List (Expr × Expr)} :
    u ∈ armUses arms ↔ ∃ c ∈ (Expr.cond arms).children, u ∈ c.keyUses := by
  induction arms with
  | nil => simp [armUses, children]
  | cons arm rest ih =>
    obtain ⟨test, body⟩ := arm
    rw [armUses, List.mem_append, List.mem_append, ih]
    simp [children]

/-- The uses of a tree are those of its children and its own. -/
theorem mem_keyUses_iff_children {u : StateKey × ValueType} {e : Expr} :
    u ∈ e.keyUses ↔ e.keyUse? = some u ∨ ∃ c ∈ e.children, u ∈ c.keyUses := by
  rw [keyUses.eq_def, List.mem_append, Option.mem_toList, or_comm]
  refine or_congr Iff.rfl ?_
  cases e with
  | seq items => exact mem_itemUses_iff
  | cond arms => exact mem_armUses_iff
  | _ => simp [children]

/-- The uses of a built tree are those of its nodes. -/
theorem mem_keyUses_iff {u : StateKey × ValueType} {e : Expr} (h : Built e) :
    u ∈ e.keyUses ↔ ∃ n, Within n e ∧ n.keyUse? = some u := by
  refine h.of_children fun e _ ih => ?_
  rw [mem_keyUses_iff_children]
  constructor
  · rintro (hu | ⟨c, hc, hu⟩)
    · exact ⟨e, .self, hu⟩
    · obtain ⟨n, hn, hu⟩ := (ih c hc).1 hu
      exact ⟨n, .child hc hn, hu⟩
  · rintro ⟨n, hn, hu⟩
    rcases within_iff.1 hn with rfl | ⟨c, hc, hn⟩
    · exact .inl hu
    · exact .inr ⟨c, hc, (ih c hc).2 ⟨n, hn, hu⟩⟩

/-- What a node uses that is lowered is among the uses of the tree. -/
theorem UsesLive.mem_keyUses {u : StateKey × ValueType} {e : Expr} (hb : Built e)
    (h : e.UsesLive u) : u ∈ e.keyUses := by
  obtain ⟨n, hn, hu⟩ := h
  exact (mem_keyUses_iff hb).2 ⟨n, within_of_reached hn, hu⟩

end Expr

end ContractBench
