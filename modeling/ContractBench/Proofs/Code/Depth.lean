import ContractBench.Code.Depth
import ContractBench.Proofs.Code.Labels
/-!
# Depth of lowered code

The check of the depth never fails on a built tree, whatever lies below on the stack: the code of
a node that goes on ends one value higher, or at the same depth for a statement, and control does
not get behind the code of a node that terminates.

    Built e → e.checkDepth p ⟨some d, []⟩ = .ok ⟨e.depthAfter d, A⟩        (checkDepth_of_built)
    e.checkDepth p s = .ok s' → s.run (e.lower p) = .ok s'                     (run_of_checkDepth)

So the pass over the items alone goes through as well (run_lower). The invariant that carries the
induction speaks of the labels a piece of code owns: they are fresh before it, and it records no
arrival anywhere else.
-/

namespace ContractBench

open Success

namespace DepthState

abbrev Arrivals := List (Label × Nat)

/-! ## One item -/

theorem run_append (s : DepthState) (xs ys : List Item) :
    s.run (xs ++ ys) = s.run xs >>= fun s' => s'.run ys :=
  List.foldlM_append

theorem run_cons (s : DepthState) (x : Item) (xs : List Item) :
    s.run (x :: xs) = s.step x >>= fun s' => s'.run xs :=
  List.foldlM_cons

theorem run_append_of_ok {s s' : DepthState} {xs : List Item} (h : s.run xs = .ok s')
    (ys : List Item) : s.run (xs ++ ys) = s'.run ys := by
  rw [run_append, h]
  rfl

theorem run_cons_of_ok {s s' : DepthState} {x : Item} (h : s.run [x] = .ok s')
    (xs : List Item) : s.run (x :: xs) = s'.run xs :=
  run_append_of_ok h xs

theorem run_op {d : Nat} {i : Instruction} (A : Arrivals) (p : NodePath) (xs : List Item)
    (hp : i.op.pops ≤ d) (he : i.op.endsBlock = false) :
    run ⟨some d, A⟩ (.op i p :: xs) = run ⟨some (d - i.op.pops + i.op.pushes), A⟩ xs := by
  rw [run_cons]
  simp only [step, Nat.not_lt.2 hp, he, if_false]
  rfl

theorem run_op_end {d : Nat} {i : Instruction} (A : Arrivals) (p : NodePath) (xs : List Item)
    (hp : i.op.pops ≤ d) (he : i.op.endsBlock = true) :
    run ⟨some d, A⟩ (.op i p :: xs) = run ⟨none, A⟩ xs := by
  rw [run_cons]
  simp only [step, Nat.not_lt.2 hp, he, if_false, if_true]
  rfl

/-- A jump to a label that was not reached before, or was reached with the same depth. -/
theorem run_jump {d : Nat} {A : Arrivals} (op : Opcode) (l : Label) (p : NodePath)
    (xs : List Item) (hp : op.pops ≤ d)
    (hl : A.lookup l = none ∨ A.lookup l = some (d - op.pops)) :
    ∃ A', run ⟨some d, A⟩ (.jump op l p :: xs) =
        run ⟨if op.endsBlock then none else some (d - op.pops), A'⟩ xs ∧
      A'.lookup l = some (d - op.pops) ∧ ∀ l', l' ≠ l → A'.lookup l' = A.lookup l' := by
  rcases hl with hl | hl
  · refine ⟨(l, d - op.pops) :: A, ?_, List.lookup_cons_self, fun l' hne => ?_⟩
    · rw [run_cons]
      simp only [step, Nat.not_lt.2 hp, arrive, hl, if_false]
      rfl
    · have hb : (l' == l) = false := by simpa using hne
      rw [List.lookup_cons, hb]
  · refine ⟨A, ?_, hl, fun _ _ => rfl⟩
    rw [run_cons]
    simp only [step, Nat.not_lt.2 hp, arrive, hl, if_false, if_true]
    rfl

/-- A mark that is reached by jumps alone. -/
theorem run_mark_none (l : Label) (A : Arrivals) (p : NodePath) (xs : List Item) :
    run ⟨none, A⟩ (.mark l p :: xs) = run ⟨A.lookup l, A⟩ xs := by
  rw [run_cons]
  rfl

/-- A mark that is reached by jumps and from the item before it. -/
theorem run_mark_some {d : Nat} {l : Label} {A : Arrivals} (p : NodePath) (xs : List Item)
    (hl : A.lookup l = some d) :
    run ⟨some d, A⟩ (.mark l p :: xs) = run ⟨some d, A⟩ xs := by
  rw [run_cons]
  simp only [step, arrive, hl, if_true]
  show run ⟨A.lookup l, A⟩ xs = _
  rw [hl]

/-! ## Passes -/

/-- None of some labels was reached. -/
def Fresh (own : Label → Prop) (A : Arrivals) : Prop := ∀ l, own l → A.lookup l = none

/-- Only some labels were reached in between. -/
def Untouched (own : Label → Prop) (A A' : Arrivals) : Prop :=
  ∀ l, ¬ own l → A'.lookup l = A.lookup l

theorem Fresh.of_untouched {own own' : Label → Prop} {A A' : Arrivals} (hf : Fresh own' A)
    (hu : Untouched own A A') (hne : ∀ l, own l → ¬ own' l) : Fresh own' A' :=
  fun l hl => (hu l fun h => hne l h hl).trans (hf l hl)

theorem Untouched.trans {own own' own'' : Label → Prop} {A A' A'' : Arrivals}
    (h : Untouched own A A') (h' : Untouched own' A' A'') (hs : ∀ l, own l → own'' l)
    (hs' : ∀ l, own' l → own'' l) : Untouched own'' A A'' :=
  fun l hl => (h' l fun hn => hl (hs' l hn)).trans (h l fun hn => hl (hs l hn))

/-- A pass that takes one depth to another and reaches none but its own labels. -/
def Balanced (own : Label → Prop) (pass : DepthState → Except CompileError DepthState) (d : Nat)
    (after : Option Nat) : Prop :=
  ∀ A, Fresh own A → ∃ A', pass ⟨some d, A⟩ = .ok ⟨after, A'⟩ ∧ Untouched own A A'

namespace Balanced

variable {own own' : Label → Prop} {f g : DepthState → Except CompileError DepthState}
  {xs : List Item} {d d' : Nat} {after : Option Nat}

theorem nil (own : Label → Prop) (d : Nat) : Balanced own (·.run []) d (some d) :=
  fun A _ => ⟨A, rfl, fun _ _ => rfl⟩

theorem mono (h : Balanced own f d after) (hs : ∀ l, own l → own' l) :
    Balanced own' f d after := by
  intro A hf
  obtain ⟨A', hr, hu⟩ := h A fun l hl => hf l (hs l hl)
  exact ⟨A', hr, fun l hl => hu l fun hn => hl (hs l hn)⟩

theorem bind (hf : Balanced own f d (some d')) (hg : Balanced own' g d' after)
    (hne : ∀ l, own l → ¬ own' l) :
    Balanced (fun l => own l ∨ own' l) (fun s => f s >>= g) d after := by
  intro A hA
  obtain ⟨A1, h1, hu1⟩ := hf A fun l hl => hA l (.inl hl)
  have hA1 : Fresh own' A1 := Fresh.of_untouched (fun l hl => hA l (.inr hl)) hu1 hne
  obtain ⟨A2, h2, hu2⟩ := hg A1 hA1
  refine ⟨A2, ?_, hu1.trans hu2 (fun _ => .inl) fun _ => .inr⟩
  show f ⟨some d, A⟩ >>= g = _
  rw [h1]
  exact h2

theorem op {i : Instruction} (p : NodePath) (hp : i.op.pops ≤ d) (he : i.op.endsBlock = false)
    (h : Balanced own (·.run xs) (d - i.op.pops + i.op.pushes) after) :
    Balanced own (·.run (.op i p :: xs)) d after := by
  intro A hA
  show ∃ A', run ⟨some d, A⟩ (.op i p :: xs) = _ ∧ _
  rw [run_op A p xs hp he]
  exact h A hA

theorem op_end {i : Instruction} (p : NodePath) (hp : i.op.pops ≤ d)
    (he : i.op.endsBlock = true) : Balanced own (·.run [.op i p]) d none :=
  fun A _ => ⟨A, run_op_end A p [] hp he, fun _ _ => rfl⟩

/-- An instruction in front of a pass. -/
theorem op_bind {i : Instruction} (p : NodePath) (hp : i.op.pops ≤ d)
    (he : i.op.endsBlock = false) (h : Balanced own f (d - i.op.pops + i.op.pushes) after) :
    Balanced own (fun s => s.run [.op i p] >>= f) d after := by
  intro A hA
  show ∃ A', run ⟨some d, A⟩ [.op i p] >>= f = _ ∧ _
  rw [run_op A p [] hp he]
  exact h A hA

/-- An instruction behind a pass. -/
theorem bind_op {i : Instruction} (h : Balanced own f d (some d')) (p : NodePath)
    (hp : i.op.pops ≤ d') (he : i.op.endsBlock = false) :
    Balanced own (fun s => f s >>= (·.run [.op i p])) d
      (some (d' - i.op.pops + i.op.pushes)) :=
  (h.bind (.op p hp he (.nil (fun _ => False) _)) fun _ _ => id).mono
    fun _ hl => hl.elim id False.elim

end Balanced

end DepthState

namespace Expr

open DepthState Item

/-! ## Nodes -/

/-- The depth behind the code of a node; none if control does not get there. -/
def depthAfter (e : Expr) (d : Nat) : Option Nat :=
  if e.terminates then none else some (d + e.type.stackDelta)

theorem depthAfter_of_type {e : Expr} {t : ValueType} (h : e.type = .value t) (d : Nat) :
    e.depthAfter d = some (d + 1) := by
  rw [depthAfter, if_neg (by simp [terminates_of_type h]), h]
  rfl

/-- A node that ends where it should passes its own check. -/
theorem checkChange_depthAfter (p : NodePath) (d : Nat) (e : Expr) :
    checkChange p (some d) (e.depthAfter d) e = .ok () := by
  unfold depthAfter
  cases h : e.terminates with
  | true => rfl
  | false =>
    have hd : ((d + e.type.stackDelta : Nat) : Int) - d = e.type.stackDelta := by omega
    exact if_pos (.inr hd)

/-- The check of a tree goes through at every path and depth, and ends where it should. -/
def CodeBalanced (e : Expr) : Prop :=
  ∀ p d, Balanced (fun l => p.roles <:+ l.owner) (e.checkDepth p) d (e.depthAfter d)

/-- A pass over the parts of a node with the node's own check behind it. -/
theorem balanced_checked {own : Label → Prop} {parts : DepthState → Except CompileError DepthState}
    {d : Nat} {e : Expr} (h : Balanced own parts d (e.depthAfter d)) (p : NodePath) :
    Balanced own (fun s => do
      let s' ← parts s
      checkChange p s.depth s'.depth e
      return s') d (e.depthAfter d) := by
  intro A hA
  obtain ⟨A', hr, hu⟩ := h A hA
  refine ⟨A', ?_, hu⟩
  simp only [hr, bind, Except.bind, checkChange_depthAfter]
  rfl

/-- The check of a child that leaves a value, below the part it plays. -/
theorem CodeBalanced.below {e : Expr} {t : ValueType} (h : CodeBalanced e)
    (ht : e.type = .value t) (p : NodePath) (role : Role) (d : Nat) :
    Balanced (Label.Below p.roles (· = role)) (e.checkDepth (p.enter role e)) d (some (d + 1)) := by
  have hb := h (p.enter role e) d
  rw [depthAfter_of_type ht] at hb
  exact hb.mono fun l hl => .of_child hl rfl

/-! ## Reads -/

theorem balanced_lowerRead (get getEx : Opcode) {k : Nat} (p : NodePath) (key : Bytes)
    (type : ValueType) (d : Nat) (hg : get.pops = k + 1) (hg' : get.pushes = 1)
    (hge : get.endsBlock = false) (hx : getEx.pops = k + 2) (hx' : getEx.pushes = 2)
    (hxe : getEx.endsBlock = false) :
    Balanced (·.owner = p.roles) (·.run (lowerRead p key type get getEx)) (d + k)
      (some (d + 1)) := by
  have hb : (Instruction.bytes key).op.pops = 0 := rfl
  cases type with
  | int =>
    refine .op p (Nat.zero_le _) rfl (.op p ?_ hge ?_)
    · show get.pops ≤ d + k - 0 + 1
      omega
    · show Balanced _ (·.run []) (d + k - 0 + 1 - get.pops + get.pushes) _
      rw [show d + k - 0 + 1 - get.pops + get.pushes = d + 1 by omega]
      exact .nil _ _
  | bytes =>
    refine .op p (Nat.zero_le _) rfl (.op p (Nat.zero_le _) rfl (.op p ?_ hxe ?_))
    · show getEx.pops ≤ d + k - 0 + 1 - 0 + 1
      omega
    · show Balanced _ _ (d + k - 0 + 1 - 0 + 1 - getEx.pops + getEx.pushes) _
      rw [show d + k - 0 + 1 - 0 + 1 - getEx.pops + getEx.pushes = d + 2 by omega]
      intro A hf
      obtain ⟨A', hr, hl, hu⟩ := run_jump .bnz (.found p.roles) (A := A) (d := d + 2) p
        [.op (.plain .pop) p, .op (.bytes []) p, .mark (.found p.roles) p]
        (show 1 ≤ d + 2 by omega) (.inl (hf _ rfl))
      refine ⟨A', hr.trans ?_, fun l hn => hu l fun e => hn (by rw [e]; rfl)⟩
      show run ⟨some (d + 1), A'⟩ _ = _
      rw [run_op A' p _ (show 1 ≤ d + 1 by omega) rfl, run_op A' p _ (Nat.zero_le _) rfl]
      exact run_mark_some p [] hl

/-! ## Sequences -/

theorem balanced_dropValue (own : Label → Prop) (p : NodePath) (e : Expr) (rest : List Expr)
    (d : Nat) (h : rest ≠ []) :
    Balanced own (·.run (dropValue p e rest)) (d + e.type.stackDelta) (some d) := by
  unfold dropValue
  cases ht : e.type with
  | statement => exact .nil _ _
  | value t =>
    rw [if_pos (by simpa using h)]
    exact .op p (show 1 ≤ d + 1 by omega) rfl (.nil _ _)

/-- The depth behind the items of a sequence. -/
def itemsAfter (items : List Expr) (d : Nat) : Option Nat :=
  if anyTerminates items then none else some (d + (lastType items).stackDelta)

theorem itemsAfter_cons_of_goes_on {e e' : Expr} (h : e.terminates = false) (rest : List Expr)
    (d : Nat) : itemsAfter (e :: e' :: rest) d = itemsAfter (e' :: rest) d := by
  simp [itemsAfter, anyTerminates, lastType, h]

theorem checkDepthItems_of_terminates {e : Expr} (h : e.terminates = true) (p : NodePath) (i : Nat)
    (rest : List Expr) :
    checkDepthItems p i (e :: rest) = e.checkDepth (p.enter (.item i) e) := by
  funext s
  simp only [checkDepthItems, h, if_true]
  exact bind_pure _

theorem checkDepthItems_of_goes_on {e : Expr} (h : e.terminates = false) (p : NodePath) (i : Nat)
    (rest : List Expr) :
    checkDepthItems p i (e :: rest) = fun s =>
      e.checkDepth (p.enter (.item i) e) s >>= fun s =>
        s.run (dropValue p e rest) >>= checkDepthItems p (i + 1) rest := by
  funext s
  simp only [checkDepthItems, h, Bool.false_eq_true, if_false]

theorem balanced_checkDepthItems {items : List Expr} (h : ∀ e ∈ items, CodeBalanced e)
    (p : NodePath) (i d : Nat) :
    Balanced (Label.BelowFrom p.roles .item i) (checkDepthItems p i items) d
      (itemsAfter items d) := by
  induction items generalizing i with
  | nil => exact .nil _ d
  | cons e rest ih =>
    rw [List.forall_mem_cons] at h
    have hb : Balanced (Label.Below p.roles (· = .item i)) (e.checkDepth (p.enter (.item i) e)) d
        (e.depthAfter d) := (h.1 (p.enter (.item i) e) d).mono fun l hl => .of_child hl rfl
    cases he : e.terminates with
    | true =>
      rw [checkDepthItems_of_terminates he]
      have ha : itemsAfter (e :: rest) d = e.depthAfter d := by
        simp [itemsAfter, depthAfter, anyTerminates, he]
      rw [ha]
      exact hb.mono fun l hl => hl.head
    | false =>
      rw [checkDepthItems_of_goes_on he]
      rw [depthAfter, if_neg (by simp [he])] at hb
      cases rest with
      | nil =>
        have ha : itemsAfter [e] d = some (d + e.type.stackDelta) := by
          simp [itemsAfter, anyTerminates, lastType, he]
        have hn : dropValue p e [] = [] := by simp [dropValue]
        rw [ha, hn]
        refine (hb.bind (.nil (fun _ => False) _) fun _ _ => id).mono fun l hl => ?_
        exact hl.elim Label.Below.head False.elim
      | cons e' rest =>
        rw [itemsAfter_cons_of_goes_on he]
        have hd := balanced_dropValue (fun _ => False) p e (e' :: rest) d (by simp)
        have hdr := hd.bind (ih h.2 (i + 1)) fun l hl => hl.elim
        have hab := hb.bind hdr fun l hl => by
          rintro (hf | hr)
          · exact hf
          · exact hl.apart_tail Role.item.inj hr
        refine hab.mono fun l hl => ?_
        rcases hl with hl | hl | hl
        · exact hl.head
        · exact hl.elim
        · exact hl.tail

/-! ## Choices -/

/-- The tests of a choice reach the bodies of all its arms at the depth they start from. -/
theorem checkDepthTests_eq_ok {arms : List (Expr × Expr)} (h : ∀ arm ∈ arms, CodeBalanced arm.1)
    (ht : ∀ arm ∈ arms, arm.1.type = .value .int) (p : NodePath) (i d : Nat) (A : Arrivals)
    (hf : Fresh (fun l => (∃ j, i ≤ j ∧ l = .arm p.roles j) ∨
      Label.BelowFrom p.roles .test i l) A) :
    ∃ A', checkDepthTests p i arms ⟨some d, A⟩ = .ok ⟨some d, A'⟩ ∧
      (∀ j, i ≤ j → j < i + arms.length → A'.lookup (.arm p.roles j) = some d) ∧
      Untouched (fun l => (∃ j, i ≤ j ∧ l = .arm p.roles j) ∨
        Label.BelowFrom p.roles .test i l) A A' := by
  induction arms generalizing i A with
  | nil => exact ⟨A, rfl, fun j h1 h2 => absurd h2 (by simp; omega), fun _ _ => rfl⟩
  | cons arm rest ih =>
    obtain ⟨test, body⟩ := arm
    rw [List.forall_mem_cons] at h ht
    have hb := h.1.below ht.1 p (.test i) d
    obtain ⟨A1, h1, hu1⟩ := hb A fun l hl =>
      hf l (.inr hl.head)
    -- the jump behind the test is the first to reach its arm
    have hi : A1.lookup (.arm p.roles i) = none := by
      rw [hu1 _ fun hl => hl.owner_ne rfl]
      exact hf _ (.inl ⟨i, Nat.le_refl i, rfl⟩)
    obtain ⟨A2, h2, hi2, hu2⟩ := run_jump .bnz (.arm p.roles i) (d := d + 1) p []
      (show 1 ≤ d + 1 by omega) (.inl hi)
    obtain ⟨A3, h3, ha3, hu3⟩ := ih h.2 ht.2 (i + 1) A2 (by
      rintro l (⟨j, hj, rfl⟩ | hl)
      · rw [hu2 _ (by simp; omega), hu1 _ fun hl => hl.owner_ne rfl]
        exact hf _ (.inl ⟨j, by omega, rfl⟩)
      · rw [hu2 _ fun e => hl.owner_ne (by rw [e]; rfl),
          hu1 _ fun hl' => hl'.apart_tail Role.test.inj hl]
        exact hf _ (.inr hl.tail))
    refine ⟨A3, ?_, fun j hj hj' => ?_, fun l hl => ?_⟩
    · simp only [checkDepthTests, h1, bind, Except.bind, h2]
      exact h3
    · rcases Nat.eq_or_lt_of_le hj with rfl | hlt
      · rw [hu3 _ (by
          rintro (⟨j, hj, hl⟩ | hl)
          · cases hl
            omega
          · exact hl.owner_ne rfl)]
        exact hi2
      · exact ha3 j hlt (by simp at hj'; omega)
    · rw [hu3 l, hu2 l fun e => hl (.inl ⟨i, Nat.le_refl i, e⟩), hu1 l fun hb => hl (.inr hb.head)]
      rintro (⟨j, hj, e⟩ | hl')
      · exact hl (.inl ⟨j, by omega, e⟩)
      · exact hl (.inr hl'.tail)

section Bodies

variable {p : NodePath} {i d : Nat} {A A' A'' : Arrivals}

/-- What one body reaches leaves the bodies behind it alone. -/
theorem fresh_bodies_tail (hf : Fresh (Label.BelowFrom p.roles .body i) A)
    (hu : Untouched (fun l => l = .done p.roles ∨ Label.Below p.roles (· = .body i) l) A A') :
    Fresh (Label.BelowFrom p.roles .body (i + 1)) A' := by
  intro l hl
  rw [hu l]
  · exact hf l hl.tail
  · rintro (rfl | hl')
    · exact hl.owner_ne rfl
    · exact hl'.apart_tail Role.body.inj hl

/-- What one body and those behind it leave alone. -/
theorem untouched_bodies_cons
    (hu : Untouched (fun l => l = .done p.roles ∨ Label.Below p.roles (· = .body i) l) A A')
    (hu' : Untouched (fun l => l = .done p.roles ∨ Label.BelowFrom p.roles .body (i + 1) l) A' A'') :
    Untouched (fun l => l = .done p.roles ∨ Label.BelowFrom p.roles .body i l) A A'' :=
  hu.trans hu' (fun _ hl => hl.imp_right Label.Below.head)
    (fun _ hl => hl.imp_right Label.Below.tail)

/-- No body reaches an arm of its own choice. -/
theorem lookup_arm_of_untouched {j : Nat}
    (hu : Untouched (fun l => l = .done p.roles ∨ Label.Below p.roles (· = .body i) l) A A') :
    A'.lookup (.arm p.roles j) = A.lookup (.arm p.roles j) := by
  refine hu _ ?_
  rintro (e | hl)
  · cases e
  · exact hl.owner_ne rfl

end Bodies

/-- The bodies of a choice, reached by its tests, all go on at one depth behind the last. -/
theorem checkDepthBodies_eq_ok {arms : List (Expr × Expr)} {k : Nat}
    (h : ∀ arm ∈ arms, CodeBalanced arm.2)
    (hk : ∀ arm ∈ arms, arm.2.terminates = false → arm.2.type.stackDelta = k) (p : NodePath)
    (i d : Nat) (A : Arrivals)
    (ha : ∀ j, i ≤ j → j < i + arms.length → A.lookup (.arm p.roles j) = some d)
    (hf : Fresh (Label.BelowFrom p.roles .body i) A)
    (hd : A.lookup (.done p.roles) = none ∨ A.lookup (.done p.roles) = some (d + k)) :
    ∃ A', checkDepthBodies p i arms ⟨none, A⟩ = .ok ⟨none, A'⟩ ∧
      (bodiesTerminate arms = false → A'.lookup (.done p.roles) = some (d + k)) ∧
      Untouched (fun l => l = .done p.roles ∨
        Label.BelowFrom p.roles .body i l) A A' ∧
      (A.lookup (.done p.roles) = some (d + k) → A'.lookup (.done p.roles) = some (d + k)) := by
  induction arms generalizing i A with
  | nil => exact ⟨A, rfl, fun hn => by simp [bodiesTerminate] at hn, fun _ _ => rfl, id⟩
  | cons arm rest ih =>
    obtain ⟨test, body⟩ := arm
    rw [List.forall_mem_cons] at h hk
    have hb : Balanced (Label.Below p.roles (· = .body i))
        (body.checkDepth (p.enter (.body i) body)) d (body.depthAfter d) :=
      (h.1 _ d).mono fun l hl => .of_child hl rfl
    obtain ⟨A1, h1, hu1⟩ := hb A fun l hl => hf l hl.head
    have hd1 : A1.lookup (.done p.roles) = A.lookup (.done p.roles) :=
      hu1 _ fun hl => hl.owner_ne rfl
    have harms : ∀ A2, Untouched (fun l => l = .done p.roles ∨
          Label.Below p.roles (· = .body i) l) A A2 →
        ∀ j, i + 1 ≤ j → j < i + 1 + rest.length → A2.lookup (.arm p.roles j) = some d := by
      intro A2 hu j hj hj'
      rw [lookup_arm_of_untouched hu]
      exact ha j (by omega) (by simp; omega)
    have hstart : checkDepthBodies p i ((test, body) :: rest) ⟨none, A⟩ =
        run ⟨body.depthAfter d, A1⟩
            (if body.terminates then [] else [.jump .jump (.done p.roles) p]) >>=
          checkDepthBodies p (i + 1) rest := by
      rw [checkDepthBodies, run_mark_none, ha i (Nat.le_refl i) (by simp)]
      show body.checkDepth (p.enter (.body i) body) ⟨some d, A⟩ >>= _ = _
      rw [h1]
      rfl
    cases ht : body.terminates with
    | true =>
      have hu : Untouched (fun l => l = .done p.roles ∨ Label.Below p.roles (· = .body i) l) A A1 :=
        fun l hl => hu1 l fun hb => hl (.inr hb)
      obtain ⟨A3, h3, hn3, hu3, hk3⟩ := ih h.2 hk.2 (i + 1) A1 (harms A1 hu) (fresh_bodies_tail hf hu)
        (by rw [hd1]; exact hd)
      refine ⟨A3, ?_, fun hn => hn3 ?_, untouched_bodies_cons hu hu3, fun e => hk3 (hd1.trans e)⟩
      · rw [hstart, depthAfter, if_pos ht, if_pos ht]
        exact h3
      · simpa [bodiesTerminate, ht] using hn
    | false =>
      obtain ⟨A2, h2, hd2, hu2⟩ := run_jump .jump (.done p.roles) (A := A1)
        (d := d + k) p [] (Nat.zero_le _) (by rw [hd1]; exact hd)
      have hu : Untouched (fun l => l = .done p.roles ∨ Label.Below p.roles (· = .body i) l) A A2 :=
        fun l hl => (hu2 l fun e => hl (.inl e)).trans (hu1 l fun hb => hl (.inr hb))
      obtain ⟨A3, h3, hn3, hu3, hk3⟩ := ih h.2 hk.2 (i + 1) A2 (harms A2 hu) (fresh_bodies_tail hf hu)
        (.inr hd2)
      refine ⟨A3, ?_, fun _ => hk3 hd2, untouched_bodies_cons hu hu3, fun _ => hk3 hd2⟩
      have hne : ¬ body.terminates = true := by simp [ht]
      rw [hstart, depthAfter, if_neg hne, if_neg hne, hk.1 ht, h2]
      exact h3

theorem balanced_cond {arms : List (Expr × Expr)} (hfit : Fits (.cond arms))
    (ht : ∀ arm ∈ arms, CodeBalanced arm.1) (hb : ∀ arm ∈ arms, CodeBalanced arm.2) :
    CodeBalanced (.cond arms) := by
  intro p d
  refine balanced_checked (fun A hf => ?_) p
  obtain ⟨A1, h1, ha1, hu1⟩ := checkDepthTests_eq_ok ht hfit.1 p 0 d A (by
    rintro l (⟨j, -, rfl⟩ | hl)
    · exact hf _ (List.suffix_refl _)
    · exact hf _ hl.suffix)
  have hd1 : A1.lookup (.done p.roles) = none := by
    rw [hu1 _ (by
      rintro (⟨j, -, e⟩ | hl)
      · cases e
      · exact hl.owner_ne rfl)]
    exact hf _ (List.suffix_refl _)
  obtain ⟨A2, h2, hn2, hu2, -⟩ := checkDepthBodies_eq_ok (k := (bodyType arms).stackDelta) hb
    (fun arm harm hg => by rw [hfit.2 arm harm hg]) p 0 d A1 ha1
    (fun l hl => by
      rw [hu1 _ (by
        rintro (⟨j, -, rfl⟩ | hl')
        · exact hl.owner_ne rfl
        · have hne : ∀ j j', Role.test j ≠ .body j' := fun _ _ e => nomatch e
          exact Label.Below.apart_of_ne hne hl' hl)]
      exact hf _ hl.suffix) (.inl hd1)
  have herr : run ⟨some d, A1⟩ [.op (.plain .err) p] = .ok ⟨none, A1⟩ :=
    run_op_end A1 p [] (Nat.zero_le _) rfl
  refine ⟨A2, ?_, fun l hl => ?_⟩
  · simp only [h1, herr, h2, bind, Except.bind]
    cases hbt : bodiesTerminate arms with
    | true =>
      have he : (Expr.cond arms).terminates = true := hbt
      rw [depthAfter, if_pos he]
      rfl
    | false =>
      have he : ¬ (Expr.cond arms).terminates = true := by
        show ¬ bodiesTerminate arms = true
        simp [hbt]
      rw [depthAfter, if_neg he, if_neg (by simp), run_mark_none, hn2 hbt]
      rfl
  · rw [hu2 l (by
      rintro (rfl | hl')
      · exact hl (List.suffix_refl _)
      · exact hl hl'.suffix), hu1 l (by
      rintro (⟨j, -, rfl⟩ | hl')
      · exact hl (List.suffix_refl _)
      · exact hl hl'.suffix)]

/-! ## All trees -/

theorem codeBalanced_of_built {e : Expr} (h : Built e) : CodeBalanced e := by
  intro p d
  induction h generalizing p d with
  | int | bytes | named | global =>
    refine balanced_checked ?_ p
    exact .op p (Nat.zero_le _) rfl (.nil _ _)
  | txn source =>
    refine balanced_checked ?_ p
    cases source <;> exact .op p (Nat.zero_le _) rfl (.nil _ _)
  | verdict =>
    refine balanced_checked ?_ p
    exact .op p (Nat.zero_le _) rfl (.op_end p (show 1 ≤ d - 0 + 1 by omega) rfl)
  | globalGet key type =>
    refine balanced_checked ?_ p
    rw [depthAfter_of_type (t := type) rfl]
    have hb := balanced_lowerRead .appGlobalGet .appGlobalGetEx (k := 0) p key type d
      rfl rfl rfl rfl rfl rfl
    exact hb.mono fun l hl => hl ▸ List.suffix_refl _
  | @unary op operand _ hc ih =>
    refine balanced_checked ?_ p
    have ht : operand.type = .value op.operandType := admitted_iff_fits.1 hc
    rw [depthAfter_of_type (t := op.resultType) rfl]
    have hb := CodeBalanced.below ih ht p .operand d
    exact (hb.bind_op (i := .plain (.unary op)) p (show 1 ≤ d + 1 by omega) rfl).mono
      fun l hl => hl.suffix
  | @binary op left right _ _ hc ihl ihr =>
    refine balanced_checked ?_ p
    obtain ⟨t, hl, hr, -⟩ := admitted_iff_fits.1 hc
    rw [depthAfter_of_type (t := op.resultType) rfl]
    have hb := (CodeBalanced.below ihr hr p .rhs (d + 1)).bind_op (i := .plain (.binary op)) p
      (show 2 ≤ d + 1 + 1 by omega) rfl
    have hab := (CodeBalanced.below ihl hl p .lhs d).bind hb
      fun l hl => hl.apart (by rintro _ rfl; simp)
    exact hab.mono fun l hl => hl.elim Label.Below.suffix Label.Below.suffix
  | @localGet account key type _ hc ih =>
    refine balanced_checked ?_ p
    have ht : account.type = .value .bytes := admitted_iff_fits.1 hc
    rw [depthAfter_of_type (t := type) rfl]
    have hb := (CodeBalanced.below ih ht p .account d).bind
      (balanced_lowerRead .appLocalGet .appLocalGetEx (k := 1) p key type d
        rfl rfl rfl rfl rfl rfl) fun l hl => hl.owner_ne
    exact hb.mono fun l hl => hl.elim Label.Below.suffix fun e => e ▸ List.suffix_refl _
  | @globalPut key value _ hc ih =>
    refine balanced_checked ?_ p
    obtain ⟨t, ht⟩ := admitted_iff_fits.1 hc
    have hb := (CodeBalanced.below ih ht p .value (d + 1)).bind_op (i := .plain .appGlobalPut) p
      (show 2 ≤ d + 1 + 1 by omega) rfl
    exact (hb.op_bind (i := .bytes key) p (Nat.zero_le _) rfl).mono fun l hl => hl.suffix
  | @localPut account key value _ _ hc iha ihv =>
    refine balanced_checked ?_ p
    obtain ⟨ha, t, hv⟩ := admitted_iff_fits.1 hc
    have hb := (CodeBalanced.below ihv hv p .value (d + 1 + 1)).bind_op (i := .plain .appLocalPut) p
      (show 3 ≤ d + 1 + 1 + 1 by omega) rfl
    have hk : Balanced (Label.Below p.roles (· = .value)) _ (d + 1) _ :=
      hb.op_bind (i := .bytes key) p (Nat.zero_le _) rfl
    have hab := (CodeBalanced.below iha ha p .account d).bind hk
      fun l hl => hl.apart (by rintro _ rfl; simp)
    exact hab.mono fun l hl => hl.elim Label.Below.suffix Label.Below.suffix
  | @log value _ hc ih =>
    refine balanced_checked ?_ p
    have ht : value.type = .value .bytes := admitted_iff_fits.1 hc
    have hb := CodeBalanced.below ih ht p .operand d
    exact (hb.bind_op (i := .plain .log) p (show 1 ≤ d + 1 by omega) rfl).mono
      fun l hl => hl.suffix
  | @seq items _ ih =>
    refine balanced_checked ?_ p
    have hb := balanced_checkDepthItems ih p 0 d
    have ha : itemsAfter items d = (Expr.seq items).depthAfter d := by
      unfold itemsAfter depthAfter
      show _ = if anyTerminates items then _ else _
      cases hi : anyTerminates items <;> simp [type, hi]
    rw [ha] at hb
    exact hb.mono fun l hl => hl.suffix
  | cond _ _ hc iht ihb => exact balanced_cond (admitted_iff_fits.1 hc) iht ihb p d

/-- The check of the depth goes through a built tree from any depth. -/
theorem checkDepth_of_built {e : Expr} (h : Built e) (p : NodePath) (d : Nat) :
    ∃ A, e.checkDepth p ⟨some d, []⟩ = .ok ⟨e.depthAfter d, A⟩ := by
  obtain ⟨A, hr, -⟩ := codeBalanced_of_built h p d [] fun _ _ => rfl
  exact ⟨A, hr⟩

/-- A tree that no constructor makes is refused: the write takes the operand before it as well. -/
example : ∃ node,
    (Expr.binary .add (.int 1) (.globalPut [] (.seq []))).checkDepth (.root "program") {} =
      .error (.stackImbalance node 0 (-1)) := ⟨_, rfl⟩

/-! ## The items alone -/

/-- What went through the check of a node went through its parts. -/
theorem ok_of_checked {parts : Except CompileError DepthState} {p : NodePath} {s s' : DepthState}
    {e : Expr}
    (h : (do
      let s' ← parts
      checkChange p s.depth s'.depth e
      return s') = .ok s') : parts = .ok s' := by
  obtain ⟨s₁, hs, h⟩ := bind_eq_ok.1 h
  obtain ⟨-, -, h⟩ := bind_eq_ok.1 h
  cases h
  exact hs

mutual

/-- The check of a tree follows the items of its code one by one. -/
theorem run_of_checkDepth {p : NodePath} {e : Expr} {s s' : DepthState}
    (h : e.checkDepth p s = .ok s') : s.run (e.lower p) = .ok s' := by
  cases e with
  | int | bytes | named | txn | global | globalGet | verdict => exact ok_of_checked h
  | unary op operand =>
    obtain ⟨s₁, h₁, h₂⟩ := bind_eq_ok.1 (ok_of_checked h)
    rw [lower, run_append_of_ok (run_of_checkDepth h₁)]
    exact h₂
  | binary op left right =>
    obtain ⟨s₁, h₁, h⟩ := bind_eq_ok.1 (ok_of_checked h)
    obtain ⟨s₂, h₂, h₃⟩ := bind_eq_ok.1 h
    rw [lower, List.append_assoc, run_append_of_ok (run_of_checkDepth h₁),
      run_append_of_ok (run_of_checkDepth h₂)]
    exact h₃
  | localGet account key type =>
    obtain ⟨s₁, h₁, h₂⟩ := bind_eq_ok.1 (ok_of_checked h)
    rw [lower, run_append_of_ok (run_of_checkDepth h₁)]
    exact h₂
  | globalPut key value =>
    obtain ⟨s₁, h₁, h⟩ := bind_eq_ok.1 (ok_of_checked h)
    obtain ⟨s₂, h₂, h₃⟩ := bind_eq_ok.1 h
    rw [lower, List.cons_append, run_cons_of_ok h₁, run_append_of_ok (run_of_checkDepth h₂)]
    exact h₃
  | localPut account key value =>
    obtain ⟨s₁, h₁, h⟩ := bind_eq_ok.1 (ok_of_checked h)
    obtain ⟨s₂, h₂, h⟩ := bind_eq_ok.1 h
    obtain ⟨s₃, h₃, h₄⟩ := bind_eq_ok.1 h
    rw [lower, List.append_assoc, run_append_of_ok (run_of_checkDepth h₁), List.cons_append,
      run_cons_of_ok h₂, run_append_of_ok (run_of_checkDepth h₃)]
    exact h₄
  | log value =>
    obtain ⟨s₁, h₁, h₂⟩ := bind_eq_ok.1 (ok_of_checked h)
    rw [lower, run_append_of_ok (run_of_checkDepth h₁)]
    exact h₂
  | seq items => exact run_of_checkDepthItems (ok_of_checked h)
  | cond arms =>
    obtain ⟨s₁, h₁, h⟩ := bind_eq_ok.1 (ok_of_checked h)
    obtain ⟨s₂, h₂, h⟩ := bind_eq_ok.1 h
    obtain ⟨s₃, h₃, h₄⟩ := bind_eq_ok.1 h
    rw [lower, List.append_assoc, run_append_of_ok (run_of_checkDepthTests h₁), List.cons_append,
      run_cons_of_ok h₂, run_append_of_ok (run_of_checkDepthBodies h₃)]
    exact h₄
termination_by structural e

theorem run_of_checkDepthItems {p : NodePath} {i : Nat} {items : List Expr} {s s' : DepthState}
    (h : checkDepthItems p i items s = .ok s') : s.run (lowerItems p i items) = .ok s' := by
  cases items with
  | nil => exact h
  | cons e rest =>
    cases he : e.terminates with
    | true =>
      rw [checkDepthItems_of_terminates he] at h
      rw [lowerItems_of_terminates he]
      exact run_of_checkDepth h
    | false =>
      rw [checkDepthItems_of_goes_on he] at h
      obtain ⟨s₁, h₁, h⟩ := bind_eq_ok.1 h
      obtain ⟨s₂, h₂, h₃⟩ := bind_eq_ok.1 h
      rw [lowerItems_of_goes_on he, run_append_of_ok (run_of_checkDepth h₁), run_append_of_ok h₂]
      exact run_of_checkDepthItems h₃
termination_by structural items

theorem run_of_checkDepthTests {p : NodePath} {i : Nat} {arms : List (Expr × Expr)}
    {s s' : DepthState} (h : checkDepthTests p i arms s = .ok s') :
    s.run (lowerTests p i arms) = .ok s' := by
  match arms with
  | [] => exact h
  | (test, body) :: rest =>
    obtain ⟨s₁, h₁, h⟩ := bind_eq_ok.1 h
    obtain ⟨s₂, h₂, h₃⟩ := bind_eq_ok.1 h
    rw [lowerTests, run_append_of_ok (run_of_checkDepth h₁), run_cons_of_ok h₂]
    exact run_of_checkDepthTests h₃
termination_by structural arms

theorem run_of_checkDepthBodies {p : NodePath} {i : Nat} {arms : List (Expr × Expr)}
    {s s' : DepthState} (h : checkDepthBodies p i arms s = .ok s') :
    s.run (lowerBodies p i arms) = .ok s' := by
  match arms with
  | [] => exact h
  | (test, body) :: rest =>
    obtain ⟨s₁, h₁, h⟩ := bind_eq_ok.1 h
    obtain ⟨s₂, h₂, h⟩ := bind_eq_ok.1 h
    obtain ⟨s₃, h₃, h₄⟩ := bind_eq_ok.1 h
    rw [lowerBodies, List.append_assoc, List.cons_append, run_cons_of_ok h₁,
      run_append_of_ok (run_of_checkDepth h₂), run_append_of_ok h₃]
    exact run_of_checkDepthBodies h₄
termination_by structural arms

end

/-- The pass over the items of a built tree's code goes through from any depth. -/
theorem run_lower {e : Expr} (h : Built e) (p : NodePath) (d : Nat) :
    ∃ A, DepthState.run ⟨some d, []⟩ (e.lower p) = .ok ⟨e.depthAfter d, A⟩ := by
  obtain ⟨A, hr⟩ := checkDepth_of_built h p d
  exact ⟨A, run_of_checkDepth hr⟩

end Expr

end ContractBench
