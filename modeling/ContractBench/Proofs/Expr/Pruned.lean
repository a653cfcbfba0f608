import ContractBench.Proofs.Expr.Nodes
import Mathlib.Data.List.Forall2
/-!
# Trees without some of their dead items

In a sequence the items behind one that terminates are dead. Pruning a tree (`Expr.prune`) deletes some
of them at any depth, chosen by their paths. No node that remains changes its type or its termination, so
the pruned tree can be built as well, and it uses no key that the tree did not use:

    Built e → Alike e (e.prune drop p)                                         (alike_prune)
    Built e → Forall₂ Alike (e.remaining drop p) (e.prune drop p).nodes        (alike_remaining)
    Built e → Built (e.prune drop p)                                           (built_prune)
    Built e → e.KeysAgree → (e.prune drop p).KeysAgree                         (keysAgree_prune)

Without all of its dead items (`Expr.live`) a tree has only nodes that are lowered:

    Within n' e.live → ∃ n q, Reached n e ∧ n' = n.prune (fun _ => true) q
                                                                       (reached_of_within_live)
-/

namespace ContractBench

namespace Expr

/-! ## Algorithm -/

mutual

/-- The tree at a path without the dead items whose paths are to be dropped. -/
def prune (drop : List Role → Bool) (p : List Role) : Expr → Expr
  | .unary op operand => .unary op (prune drop (.operand :: p) operand)
  | .binary op left right =>
    .binary op (prune drop (.lhs :: p) left) (prune drop (.rhs :: p) right)
  | .localGet account key type => .localGet (prune drop (.account :: p) account) key type
  | .globalPut key value => .globalPut key (prune drop (.value :: p) value)
  | .localPut account key value =>
    .localPut (prune drop (.account :: p) account) key (prune drop (.value :: p) value)
  | .log value => .log (prune drop (.operand :: p) value)
  | .seq items => .seq (pruneItems drop p 0 false items)
  | .cond arms => .cond (pruneArms drop p 0 arms)
  | e => e

/-- The items of a sequence from position `i` on; `ended` tells whether one before terminates. -/
def pruneItems (drop : List Role → Bool) (p : List Role) (i : Nat) (ended : Bool) :
    List Expr → List Expr
  | [] => []
  | e :: rest =>
    if ended && drop (.item i :: p) then pruneItems drop p (i + 1) ended rest
    else
      prune drop (.item i :: p) e :: pruneItems drop p (i + 1) (ended || e.terminates) rest

/-- The arms of a choice from arm `i` on. -/
def pruneArms (drop : List Role → Bool) (p : List Role) (i : Nat) :
    List (Expr × Expr) → List (Expr × Expr)
  | [] => []
  | (test, body) :: rest =>
    (prune drop (.test i :: p) test, prune drop (.body i :: p) body) ::
      pruneArms drop p (i + 1) rest

end

mutual

/-- The nodes of a tree at a path that pruning leaves, a node before those below it. -/
def remaining (drop : List Role → Bool) (p : List Role) (e : Expr) : List Expr :=
  e :: (match e with
    | .unary _ operand => remaining drop (.operand :: p) operand
    | .binary _ left right =>
      remaining drop (.lhs :: p) left ++ remaining drop (.rhs :: p) right
    | .localGet account _ _ => remaining drop (.account :: p) account
    | .globalPut _ value => remaining drop (.value :: p) value
    | .localPut account _ value =>
      remaining drop (.account :: p) account ++ remaining drop (.value :: p) value
    | .log value => remaining drop (.operand :: p) value
    | .seq items => remainingItems drop p 0 false items
    | .cond arms => remainingArms drop p 0 arms
    | _ => [])
termination_by structural e

def remainingItems (drop : List Role → Bool) (p : List Role) (i : Nat) (ended : Bool)
    (items : List Expr) : List Expr :=
  match items with
  | [] => []
  | e :: rest =>
    if ended && drop (.item i :: p) then remainingItems drop p (i + 1) ended rest
    else
      remaining drop (.item i :: p) e ++
        remainingItems drop p (i + 1) (ended || e.terminates) rest
termination_by structural items

def remainingArms (drop : List Role → Bool) (p : List Role) (i : Nat)
    (arms : List (Expr × Expr)) : List Expr :=
  match arms with
  | [] => []
  | (test, body) :: rest =>
    remaining drop (.test i :: p) test ++
      (remaining drop (.body i :: p) body ++ remainingArms drop p (i + 1) rest)
termination_by structural arms

end

/-- All nodes of a tree: those that are left where nothing is dropped. -/
def nodes (e : Expr) : List Expr := e.remaining (fun _ => false) []

/-- A tree without any of its dead items. -/
def live (e : Expr) : Expr := e.prune (fun _ => true) []

/-- Two nodes have the same type and the same termination. -/
structure Alike (e e' : Expr) : Prop where
  type : e'.type = e.type
  terminates : e'.terminates = e.terminates

/-! ## Lemmas -/

variable (drop : List Role → Bool)

/-- An item of the pruned sequence is what pruning leaves of an item. -/
theorem exists_of_mem_pruneItems {p : List Role} {i : Nat} {ended : Bool} {items : List Expr}
    {e' : Expr} (h : e' ∈ pruneItems drop p i ended items) :
    ∃ e ∈ items, ∃ q, e' = e.prune drop q := by
  induction items generalizing i ended with
  | nil => cases h
  | cons e rest ih =>
    have hrest : ∀ {ended}, e' ∈ pruneItems drop p (i + 1) ended rest →
        ∃ d ∈ e :: rest, ∃ q, e' = d.prune drop q := by
      intro ended hm
      obtain ⟨d, hd, hq⟩ := ih hm
      exact ⟨d, List.mem_cons_of_mem _ hd, hq⟩
    rw [pruneItems] at h
    split at h
    · exact hrest h
    · rcases List.mem_cons.1 h with rfl | h
      · exact ⟨e, List.mem_cons_self, _, rfl⟩
      · exact hrest h

/-- An arm of the pruned choice is what pruning leaves of an arm. -/
theorem exists_of_mem_pruneArms {p : List Role} {i : Nat} {arms : List (Expr × Expr)}
    {arm' : Expr × Expr} (h : arm' ∈ pruneArms drop p i arms) :
    ∃ arm ∈ arms, ∃ q q', arm' = (arm.1.prune drop q, arm.2.prune drop q') := by
  induction arms generalizing i with
  | nil => cases h
  | cons arm rest ih =>
    rcases List.mem_cons.1 h with rfl | h
    · exact ⟨arm, List.mem_cons_self, _, _, rfl⟩
    · obtain ⟨a, ha, hq⟩ := ih h
      exact ⟨a, List.mem_cons_of_mem _ ha, hq⟩

/-- The first item of a sequence is not dead. -/
theorem isEmpty_pruneItems (p : List Role) (i : Nat) (items : List Expr) :
    (pruneItems drop p i false items).isEmpty = items.isEmpty := by
  cases items <;> rfl

/-! ### Types and termination -/

/-- Pruning leaves the type and the termination of a node alone, whatever its path. -/
def Stays (e : Expr) : Prop := ∀ p, Alike e (e.prune drop p)

variable {drop}

theorem anyTerminates_pruneItems {items : List Expr} (h : ∀ e ∈ items, Stays drop e)
    (p : List Role) (i : Nat) :
    anyTerminates (pruneItems drop p i false items) = anyTerminates items := by
  induction items generalizing i with
  | nil => rfl
  | cons e rest ih =>
    rw [List.forall_mem_cons] at h
    rw [pruneItems, Bool.false_and, if_neg Bool.false_ne_true, anyTerminates, anyTerminates,
      (h.1 _).terminates]
    -- what is left behind an item that terminates does not matter
    cases he : e.terminates with
    | true => rfl
    | false => exact congrArg _ (ih h.2 (i + 1))

/-- A sequence that goes on keeps all its items. -/
theorem lastType_pruneItems {items : List Expr} (h : ∀ e ∈ items, Stays drop e)
    (hg : anyTerminates items = false) (p : List Role) (i : Nat) :
    lastType (pruneItems drop p i false items) = lastType items := by
  have hmap : (pruneItems drop p i false items).map type = items.map type := by
    induction items generalizing i with
    | nil => rfl
    | cons e rest ih =>
      rw [List.forall_mem_cons] at h
      obtain ⟨he, hr⟩ := Bool.or_eq_false_iff.1 hg
      rw [pruneItems, Bool.false_and, if_neg Bool.false_ne_true, he, List.map_cons, List.map_cons,
        (h.1 _).type, Bool.false_or, ih h.2 hr]
  rw [lastType_eq, lastType_eq, ← List.getLast?_map, ← List.getLast?_map, hmap]

theorem bodiesTerminate_pruneArms {arms : List (Expr × Expr)}
    (h : ∀ arm ∈ arms, Stays drop arm.2) (p : List Role) (i : Nat) :
    bodiesTerminate (pruneArms drop p i arms) = bodiesTerminate arms := by
  induction arms generalizing i with
  | nil => rfl
  | cons arm rest ih =>
    rw [List.forall_mem_cons] at h
    rw [pruneArms, bodiesTerminate, bodiesTerminate, (h.1 _).terminates, ih h.2]

theorem bodyType_pruneArms {arms : List (Expr × Expr)} (h : ∀ arm ∈ arms, Stays drop arm.2)
    (p : List Role) (i : Nat) : bodyType (pruneArms drop p i arms) = bodyType arms := by
  induction arms generalizing i with
  | nil => rfl
  | cons arm rest ih =>
    rw [List.forall_mem_cons] at h
    rw [pruneArms, bodyType, bodyType, (h.1 _).terminates, (h.1 _).type, ih h.2]

variable (drop)

theorem alike_prune {e : Expr} (h : Built e) (p : List Role) : Alike e (e.prune drop p) := by
  induction h generalizing p with
  | int | bytes | named | txn | global | globalGet | verdict => exact ⟨rfl, rfl⟩
  | unary | binary | localGet | globalPut | localPut | log => exact ⟨rfl, rfl⟩
  | @seq items _ ih =>
    have hany := anyTerminates_pruneItems ih p 0
    refine ⟨?_, hany⟩
    rw [prune, type, type, hany]
    cases hi : anyTerminates items with
    | true => rfl
    | false => exact lastType_pruneItems ih hi p 0
  | cond _ _ _ _ ihb => exact ⟨bodyType_pruneArms ihb p 0, bodiesTerminate_pruneArms ihb p 0⟩

/-! ### Nodes that remain -/

/-- Each node that remains is like what is left of it. -/
def Remains (e : Expr) : Prop :=
  ∀ p q, List.Forall₂ Alike (e.remaining drop p) ((e.prune drop p).remaining (fun _ => false) q)

variable {drop}

theorem alike_remainingItems {items : List Expr} (h : ∀ e ∈ items, Remains drop e)
    (p q : List Role) (i j : Nat) (ended ended' : Bool) :
    List.Forall₂ Alike (remainingItems drop p i ended items)
      (remainingItems (fun _ => false) q j ended' (pruneItems drop p i ended items)) := by
  induction items generalizing i j ended ended' with
  | nil => exact .nil
  | cons e rest ih =>
    rw [List.forall_mem_cons] at h
    rw [remainingItems, pruneItems]
    split
    · exact ih h.2 _ _ _ _
    · rw [remainingItems, Bool.and_false, if_neg Bool.false_ne_true]
      exact List.rel_append (h.1 _ _) (ih h.2 _ _ _ _)

theorem alike_remainingArms {arms : List (Expr × Expr)} (ht : ∀ arm ∈ arms, Remains drop arm.1)
    (hb : ∀ arm ∈ arms, Remains drop arm.2) (p q : List Role) (i j : Nat) :
    List.Forall₂ Alike (remainingArms drop p i arms)
      (remainingArms (fun _ => false) q j (pruneArms drop p i arms)) := by
  induction arms generalizing i j with
  | nil => exact .nil
  | cons arm rest ih =>
    rw [List.forall_mem_cons] at ht hb
    exact List.rel_append (ht.1 _ _) (List.rel_append (hb.1 _ _) (ih ht.2 hb.2 _ _))

variable (drop)

theorem remains_of_built {e : Expr} (h : Built e) : Remains drop e := by
  refine h.of_children fun e he ih p q => ?_
  have hnode := alike_prune drop he p
  cases e with
  | int | bytes | named | txn | global | globalGet | verdict => exact .cons hnode .nil
  | unary | localGet | globalPut | log => exact .cons hnode (ih _ List.mem_cons_self _ _)
  | binary | localPut =>
    exact .cons hnode (List.rel_append (ih _ List.mem_cons_self _ _)
      (ih _ (List.mem_cons_of_mem _ List.mem_cons_self) _ _))
  | seq items => exact .cons hnode (alike_remainingItems ih p q 0 0 false false)
  | cond arms =>
    have ht : ∀ arm ∈ arms, Remains drop arm.1 :=
      fun arm harm => ih _ (mem_children_cond.2 ⟨arm, harm, .inl rfl⟩)
    have hb : ∀ arm ∈ arms, Remains drop arm.2 :=
      fun arm harm => ih _ (mem_children_cond.2 ⟨arm, harm, .inr rfl⟩)
    exact .cons hnode (alike_remainingArms ht hb p q 0 0)

/-- The nodes of the pruned tree are what is left of the nodes that remain, one by one. -/
theorem alike_remaining {e : Expr} (h : Built e) (p : List Role) :
    List.Forall₂ Alike (e.remaining drop p) (e.prune drop p).nodes :=
  remains_of_built drop h p []

/-! ### Building and keys -/

/-- A node right below the pruned one is what is left of a node right below. -/
theorem exists_of_mem_children_prune {e c' : Expr} {p : List Role}
    (h : c' ∈ (e.prune drop p).children) : ∃ c ∈ e.children, ∃ q, c' = c.prune drop q := by
  cases e with
  | int | bytes | named | txn | global | globalGet | verdict => cases h
  | unary | localGet | globalPut | log =>
    cases List.mem_singleton.1 h
    exact ⟨_, List.mem_cons_self, _, rfl⟩
  | binary | localPut =>
    rcases List.mem_cons.1 h with rfl | h
    · exact ⟨_, List.mem_cons_self, _, rfl⟩
    · cases List.mem_singleton.1 h
      exact ⟨_, List.mem_cons_of_mem _ List.mem_cons_self, _, rfl⟩
  | seq items => exact exists_of_mem_pruneItems drop h
  | cond arms =>
    obtain ⟨arm', harm', hc⟩ := mem_children_cond.1 h
    obtain ⟨arm, harm, q, q', rfl⟩ := exists_of_mem_pruneArms drop harm'
    rcases hc with rfl | rfl
    · exact ⟨arm.1, mem_children_cond.2 ⟨arm, harm, .inl rfl⟩, q, rfl⟩
    · exact ⟨arm.2, mem_children_cond.2 ⟨arm, harm, .inr rfl⟩, q', rfl⟩

/-- The pruned node finds what it asks of its children. -/
theorem fits_prune {e : Expr} (h : Built e) (p : List Role) : (e.prune drop p).Fits := by
  have hf := h.fits
  cases h with
  | int | bytes | named | txn | global | globalGet | verdict | seq => trivial
  | unary ha _ | localGet ha _ | globalPut ha _ | log ha _ =>
    simpa only [prune, Fits, (alike_prune drop ha _).type] using hf
  | binary ha hb _ | localPut ha hb _ =>
    simpa only [prune, Fits, (alike_prune drop ha _).type, (alike_prune drop hb _).type] using hf
  | @cond arms ht hb _ =>
    have hbody : bodyType (pruneArms drop p 0 arms) = bodyType arms :=
      bodyType_pruneArms (fun arm harm => alike_prune drop (hb arm harm)) p 0
    constructor
    · intro arm' harm'
      obtain ⟨arm, harm, q, q', rfl⟩ := exists_of_mem_pruneArms drop harm'
      rw [(alike_prune drop (ht arm harm) q).type]
      exact hf.1 arm harm
    · intro arm' harm' hg
      obtain ⟨arm, harm, q, q', rfl⟩ := exists_of_mem_pruneArms drop harm'
      have ha := alike_prune drop (hb arm harm) q'
      rw [ha.type, hbody]
      rw [ha.terminates] at hg
      exact hf.2 arm harm hg

theorem built_prune {e : Expr} (h : Built e) : ∀ p, Built (e.prune drop p) := by
  refine h.of_children fun e he ih p => ?_
  refine built_iff.2 ⟨fits_prune drop he p, fun c' hc' => ?_⟩
  obtain ⟨c, hc, q, rfl⟩ := exists_of_mem_children_prune drop hc'
  exact ih c hc q

/-- Pruning leaves the key alone that a node itself uses. -/
theorem keyUse?_prune {e : Expr} (h : Built e) (p : List Role) :
    (e.prune drop p).keyUse? = e.keyUse? := by
  cases h with
  | globalPut ha _ => simp only [prune, keyUse?, (alike_prune drop ha _).type]
  | localPut _ hb _ => simp only [prune, keyUse?, (alike_prune drop hb _).type]
  | _ => rfl

/-- Pruning leaves the key alone that a node itself writes. -/
theorem put?_prune (e : Expr) (p : List Role) : (e.prune drop p).put? = e.put? := by
  cases e <;> rfl

/-- The pruned tree uses no key that the tree does not use. -/
theorem mem_keyUses_of_prune {u : StateKey × ValueType} {e : Expr} (h : Built e) :
    ∀ p, u ∈ (e.prune drop p).keyUses → u ∈ e.keyUses := by
  refine h.of_children fun e he ih p hu => ?_
  rw [mem_keyUses_iff_children, keyUse?_prune drop he] at hu
  rw [mem_keyUses_iff_children]
  rcases hu with hu | ⟨c', hc', hu⟩
  · exact .inl hu
  · obtain ⟨c, hc, q, rfl⟩ := exists_of_mem_children_prune drop hc'
    exact .inr ⟨c, hc, ih c hc q hu⟩

theorem keysAgree_prune {e : Expr} (h : Built e) (hk : e.KeysAgree) (p : List Role) :
    (e.prune drop p).KeysAgree := by
  intro u hu u' hu'
  exact hk u (mem_keyUses_of_prune drop h p hu) u' (mem_keyUses_of_prune drop h p hu')

/-! ### Nothing dead -/

/-- Behind an item that terminates nothing is left. -/
theorem pruneItems_ended (p : List Role) (i : Nat) (items : List Expr) :
    pruneItems (fun _ => true) p i true items = [] := by
  induction items generalizing i with
  | nil => rfl
  | cons e rest ih => exact ih (i + 1)

theorem exists_of_mem_pruneItems_live {p : List Role} {i : Nat} {items : List Expr} {e' : Expr}
    (h : e' ∈ pruneItems (fun _ => true) p i false items) :
    ∃ e ∈ liveItems items, ∃ q, e' = e.prune (fun _ => true) q := by
  induction items generalizing i with
  | nil => cases h
  | cons e rest ih =>
    rw [pruneItems, Bool.false_and, if_neg Bool.false_ne_true, Bool.false_or] at h
    rw [liveItems]
    rcases List.mem_cons.1 h with rfl | h
    · refine ⟨e, ?_, _, rfl⟩
      split <;> exact List.mem_cons_self
    · cases he : e.terminates with
      | true =>
        rw [he, pruneItems_ended] at h
        cases h
      | false =>
        rw [he] at h
        obtain ⟨c, hc, hq⟩ := ih h
        rw [if_neg Bool.false_ne_true]
        exact ⟨c, List.mem_cons_of_mem _ hc, hq⟩

/-- Of the nodes right below one, those are left that are lowered. -/
theorem exists_of_mem_children_live {e c' : Expr} {p : List Role}
    (h : c' ∈ (e.prune (fun _ => true) p).children) :
    ∃ c ∈ e.liveChildren, ∃ q, c' = c.prune (fun _ => true) q := by
  cases e with
  | seq items => exact exists_of_mem_pruneItems_live h
  | _ => exact exists_of_mem_children_prune _ h

/-- The nodes of a tree without its dead items are what is left of those that are lowered. -/
theorem reached_of_within_live {n' e : Expr} (h : Within n' e.live) :
    ∃ n q, Reached n e ∧ n' = n.prune (fun _ => true) q := by
  unfold live at h
  generalize ([] : List Role) = p at h
  generalize he : e.prune (fun _ => true) p = e' at h
  induction h generalizing e p with
  | self => exact ⟨e, p, .self, he.symm⟩
  | child hc _ ih =>
    subst he
    obtain ⟨c, hlive, q, rfl⟩ := exists_of_mem_children_live hc
    obtain ⟨n, q', hn, rfl⟩ := ih q rfl
    exact ⟨n, q', .child hlive hn, rfl⟩

theorem putsLive_of_live {e : Expr} {k : StateKey} (h : e.live.Puts k) : e.PutsLive k := by
  obtain ⟨n', hn', hk⟩ := h
  obtain ⟨n, q, hn, rfl⟩ := reached_of_within_live hn'
  rw [put?_prune] at hk
  exact ⟨n, hn, hk⟩

theorem usesLive_of_live {e : Expr} {u : StateKey × ValueType} (hb : Built e)
    (h : u ∈ e.live.keyUses) : e.UsesLive u := by
  obtain ⟨n', hn', hu⟩ := (mem_keyUses_iff (built_prune _ hb [])).1 h
  obtain ⟨n, q, hn, rfl⟩ := reached_of_within_live hn'
  rw [keyUse?_prune _ (hb.of_within (within_of_reached hn))] at hu
  exact ⟨n, hn, hu⟩

end Expr

end ContractBench
