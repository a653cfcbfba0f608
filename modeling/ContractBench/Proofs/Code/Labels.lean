import ContractBench.Code.Lowering
import ContractBench.Proofs.Expr.Built
/-!
# Labels of lowered code

A label belongs to the node that owns it, and the parts a node and its ancestors play tell nodes
apart. So the marks of a tree's code are all different, and every jump in it has its mark further
down:

    Built e → (Item.marks (e.lower p)).Nodup                              (labelled_lower)
    Built e → Item.Forward (e.lower p)                                    (labelled_lower)
-/

namespace ContractBench

/-- The parts played by the node a label belongs to and by its ancestors. -/
def Label.owner : Label → List Role
  | .found owner | .arm owner _ | .done owner => owner

namespace Item

@[simp] theorem marks_nil : marks [] = [] := rfl

@[simp] theorem marks_append (xs ys : List Item) : marks (xs ++ ys) = marks xs ++ marks ys :=
  List.filterMap_append

@[simp] theorem marks_op (i : Instruction) (p : NodePath) (xs : List Item) :
    marks (.op i p :: xs) = marks xs := rfl

@[simp] theorem marks_jump (op : Opcode) (l : Label) (p : NodePath) (xs : List Item) :
    marks (.jump op l p :: xs) = marks xs := rfl

@[simp] theorem marks_mark (l : Label) (p : NodePath) (xs : List Item) :
    marks (.mark l p :: xs) = l :: marks xs := rfl

@[simp] theorem targets_nil : targets [] = [] := rfl

@[simp] theorem targets_append (xs ys : List Item) :
    targets (xs ++ ys) = targets xs ++ targets ys :=
  List.filterMap_append

@[simp] theorem targets_op (i : Instruction) (p : NodePath) (xs : List Item) :
    targets (.op i p :: xs) = targets xs := rfl

@[simp] theorem targets_jump (op : Opcode) (l : Label) (p : NodePath) (xs : List Item) :
    targets (.jump op l p :: xs) = l :: targets xs := rfl

@[simp] theorem targets_mark (l : Label) (p : NodePath) (xs : List Item) :
    targets (.mark l p :: xs) = targets xs := rfl

/-- The marks of a piece of code are different and belong where they should. -/
structure MarksIn (own : Label → Prop) (items : List Item) : Prop where
  owned : ∀ l ∈ marks items, own l
  nodup : (marks items).Nodup

namespace MarksIn

variable {own own' : Label → Prop} {xs ys : List Item}

theorem of_marks_eq_nil (h : marks xs = []) : MarksIn own xs := by
  constructor <;> simp [h]

theorem mono (h : MarksIn own xs) (hsub : ∀ l, own l → own' l) : MarksIn own' xs :=
  ⟨fun l hl => hsub l (h.owned l hl), h.nodup⟩

theorem append (hx : MarksIn own xs) (hy : MarksIn own' ys) (hne : ∀ l, own l → ¬ own' l) :
    MarksIn (fun l => own l ∨ own' l) (xs ++ ys) := by
  constructor
  · intro l hl
    rw [marks_append, List.mem_append] at hl
    exact hl.imp (hx.owned l) (hy.owned l)
  · rw [marks_append, List.nodup_append]
    refine ⟨hx.nodup, hy.nodup, ?_⟩
    rintro l hl _ hl' rfl
    exact hne l (hx.owned l hl) (hy.owned l hl')

theorem of_marks_eq {zs : List Item} (h : MarksIn own xs) (he : marks zs = marks xs) :
    MarksIn own zs :=
  ⟨by rw [he]; exact h.owned, by rw [he]; exact h.nodup⟩

end MarksIn

/-- Every jump goes to a mark further down, or to a label of those that come later. -/
def ForwardTo (later : Label → Prop) : List Item → Prop
  | [] => True
  | .jump _ l _ :: rest => (l ∈ marks rest ∨ later l) ∧ ForwardTo later rest
  | .op _ _ :: rest | .mark _ _ :: rest => ForwardTo later rest

/-- Every jump goes to a mark further down. -/
abbrev Forward (items : List Item) : Prop := ForwardTo (fun _ => False) items

namespace ForwardTo

variable {later later' : Label → Prop} {xs ys : List Item}

theorem append (hx : ForwardTo later xs) (hl : ∀ l, later l → l ∈ marks ys ∨ later' l)
    (hy : ForwardTo later' ys) : ForwardTo later' (xs ++ ys) := by
  induction xs with
  | nil => exact hy
  | cons x xs ih =>
    cases x with
    | op | mark => exact ih hx
    | jump op l p =>
      refine ⟨?_, ih hx.2⟩
      show l ∈ marks (xs ++ ys) ∨ later' l
      rw [marks_append, List.mem_append]
      rcases hx.1 with h | h
      · exact .inl (.inl h)
      · exact (hl l h).imp_left .inr

theorem mono (hx : ForwardTo later xs) (hl : ∀ l, later l → later' l) : ForwardTo later' xs := by
  have hnil : ForwardTo later' [] := trivial
  have h := hx.append (fun l h => .inr (hl l h)) hnil
  rwa [List.append_nil] at h

theorem append_of_closed (hx : Forward xs) (hy : ForwardTo later ys) : ForwardTo later (xs ++ ys) :=
  hx.append (fun _ h => h.elim) hy

theorem of_targets_eq_nil (h : targets xs = []) : ForwardTo later xs := by
  induction xs with
  | nil => trivial
  | cons x xs ih =>
    cases x with
    | op | mark => exact ih h
    | jump => cases h

theorem mem_marks {l : Label} (h : Forward xs) (hl : l ∈ targets xs) : l ∈ marks xs := by
  induction xs with
  | nil => cases hl
  | cons x xs ih =>
    cases x with
    | op => exact ih h hl
    | mark => exact List.mem_cons_of_mem _ (ih h hl)
    | jump op l' p =>
      rcases List.mem_cons.1 hl with rfl | hl
      · exact h.1.resolve_right id
      · exact ih h.2 hl

/-- The label of a jump is marked behind it, or one of those that come later. -/
theorem mem_marks_of_append {op : Opcode} {l : Label} {p : NodePath}
    (h : ForwardTo later (xs ++ .jump op l p :: ys)) : l ∈ marks ys ∨ later l := by
  induction xs with
  | nil => exact h.1
  | cons x xs ih =>
    cases x with
    | op | mark => exact ih h
    | jump => exact ih h.2

end ForwardTo

theorem exists_of_mem_marks {items : List Item} {l : Label} (h : l ∈ marks items) :
    ∃ xs p ys, items = xs ++ .mark l p :: ys := by
  obtain ⟨x, hx, hl⟩ := List.mem_filterMap.1 h
  obtain ⟨xs, ys, rfl⟩ := List.append_of_mem hx
  cases x with
  | op | jump => cases hl
  | mark l' p =>
    cases hl
    exact ⟨xs, p, ys, rfl⟩

end Item

/-! ## Owners -/

@[simp] theorem NodePath.roles_enter (p : NodePath) (role : Role) (child : Expr) :
    (p.enter role child).roles = role :: p.roles := rfl

/-- A label below the child that plays one of some parts. -/
def Label.Below (r : List Role) (parts : Role → Prop) (l : Label) : Prop :=
  ∃ c, parts c ∧ (c :: r) <:+ l.owner

namespace Label

variable {r : List Role} {parts parts' : Role → Prop} {l : Label}

theorem part_eq {o : List Role} {c c' : Role} (h : (c :: r) <:+ o) (h' : (c' :: r) <:+ o) :
    c = c' := by
  have hs := List.suffix_of_suffix_length_le h h' (by simp)
  have he := hs.eq_of_length (by simp)
  exact (List.cons.inj he).1

theorem Below.apart (hne : ∀ c, parts c → ¬ parts' c) (h : Below r parts l) :
    ¬ Below r parts' l := by
  rintro ⟨c', hc', hs'⟩
  obtain ⟨c, hc, hs⟩ := h
  exact hne c hc (part_eq hs hs' ▸ hc')

theorem Below.suffix (h : Below r parts l) : r <:+ l.owner := by
  obtain ⟨c, -, hs⟩ := h
  exact (List.suffix_cons c r).trans hs

/-- What lies below a child does not belong to the node itself. -/
theorem Below.owner_ne (h : Below r parts l) : l.owner ≠ r := by
  obtain ⟨c, -, hs⟩ := h
  intro e
  have := hs.length_le
  rw [e, List.length_cons] at this
  omega

theorem Below.mono (hsub : ∀ c, parts c → parts' c) (h : Below r parts l) : Below r parts' l := by
  obtain ⟨c, hc, hs⟩ := h
  exact ⟨c, hsub c hc, hs⟩

theorem Below.of_child {c : Role} (h : (c :: r) <:+ l.owner) (hc : parts c) : Below r parts l :=
  ⟨c, hc, h⟩

/-! ### Numbered parts -/

/-- A label below one of the children that play a numbered part, from `i` on. -/
abbrev BelowFrom (r : List Role) (part : Nat → Role) (i : Nat) (l : Label) : Prop :=
  Below r (fun c => ∃ j, i ≤ j ∧ c = part j) l

variable {part : Nat → Role} {i : Nat}

theorem Below.head (h : Below r (· = part i) l) : BelowFrom r part i l :=
  h.mono fun _ hc => ⟨i, Nat.le_refl i, hc⟩

theorem Below.tail (h : BelowFrom r part (i + 1) l) : BelowFrom r part i l :=
  h.mono fun _ ⟨j, hj, hc⟩ => ⟨j, Nat.le_of_succ_le hj, hc⟩

/-- A child is apart from those behind it. -/
theorem Below.apart_tail (hinj : ∀ {j j'}, part j = part j' → j = j')
    (h : Below r (· = part i) l) : ¬ BelowFrom r part (i + 1) l := by
  refine h.apart fun c hc => ?_
  rintro ⟨j, hj, hc'⟩
  cases hinj (hc.symm.trans hc')
  omega

/-- Children of different parts are apart. -/
theorem Below.apart_of_ne {part' : Nat → Role} {i' : Nat} (hne : ∀ j j', part j ≠ part' j')
    (h : BelowFrom r part i l) : ¬ BelowFrom r part' i' l := by
  refine h.apart fun c hc => ?_
  rintro ⟨j', -, hc'⟩
  obtain ⟨j, -, hc⟩ := hc
  exact hne j j' (hc.symm.trans hc')

end Label

/-! ## Code of one tree -/

namespace Expr

open Item

/-- The labels of code for a node at a path belong to nodes from there down, each is marked once,
and every jump goes to its mark further down. -/
structure Labelled (p : NodePath) (items : List Item) : Prop
    extends MarksIn (fun l => p.roles <:+ l.owner) items where
  forward : Forward items

/-- The labels of a tree's code are as they should be, at every path. -/
def CodeLabelled (e : Expr) : Prop := ∀ p, Labelled p (e.lower p)

namespace Labelled

variable {p : NodePath} {post : List Item}

theorem of_no_labels {items : List Item} (hm : marks items = []) (ht : targets items = []) :
    Labelled p items :=
  ⟨.of_marks_eq_nil hm, .of_targets_eq_nil ht⟩

/-- Code of a child is code below the part it plays. -/
theorem below {e : Expr} (h : CodeLabelled e) (p : NodePath) (role : Role) :
    MarksIn (Label.Below p.roles (· = role)) (e.lower (p.enter role e)) :=
  (h (p.enter role e)).toMarksIn.mono fun _ hl => .of_child hl rfl

/-- The code of one child with code without labels around it. -/
theorem of_child {e : Expr} (h : CodeLabelled e) (role : Role) (pre : List Item)
    (hpre : marks pre = [] ∧ targets pre = []) (hpost : marks post = [] ∧ targets post = []) :
    Labelled p (pre ++ e.lower (p.enter role e) ++ post) where
  toMarksIn := ((below h p role).of_marks_eq (by simp [hpre.1, hpost.1])).mono
    fun _ hl => hl.suffix
  forward := by
    rw [List.append_assoc]
    exact .append_of_closed (.of_targets_eq_nil hpre.2)
      (.append_of_closed (h _).forward (.of_targets_eq_nil hpost.2))

/-- The code of two children with code without labels between and behind it. -/
theorem of_children {e e' : Expr} (h : CodeLabelled e) (h' : CodeLabelled e') {role role' : Role}
    (hne : role ≠ role') (mid : List Item) (hmid : marks mid = [] ∧ targets mid = [])
    (hpost : marks post = [] ∧ targets post = []) :
    Labelled p (e.lower (p.enter role e) ++ (mid ++ e'.lower (p.enter role' e')) ++ post) where
  toMarksIn := by
    have hab := (below h p role).append (below h' p role') fun l hl =>
      hl.apart fun c hc hc' => hne (hc.symm.trans hc')
    exact (hab.of_marks_eq (by simp [hmid.1, hpost.1])).mono
      fun l hl => hl.elim Label.Below.suffix Label.Below.suffix
  forward := by
    refine .append_of_closed (.append_of_closed (h _).forward ?_) (.of_targets_eq_nil hpost.2)
    exact .append_of_closed (.of_targets_eq_nil hmid.2) (h' _).forward

end Labelled

/-! ### Reads -/

theorem marksIn_lowerRead (p : NodePath) (key : Bytes) (type : ValueType) (get getEx : Opcode) :
    MarksIn (·.owner = p.roles) (lowerRead p key type get getEx) := by
  cases type with
  | int => exact .of_marks_eq_nil rfl
  | bytes => constructor <;> simp [lowerRead, Label.owner]

theorem forward_lowerRead (p : NodePath) (key : Bytes) (type : ValueType) (get getEx : Opcode) :
    Forward (lowerRead p key type get getEx) := by
  cases type with
  | int => trivial
  | bytes => exact ⟨.inl (by simp), trivial⟩

/-! ### Sequences -/

theorem lowerItems_of_terminates {e : Expr} (h : e.terminates = true) (p : NodePath) (i : Nat)
    (rest : List Expr) : lowerItems p i (e :: rest) = e.lower (p.enter (.item i) e) := by
  rw [lowerItems, if_pos h, List.append_nil]

theorem lowerItems_of_goes_on {e : Expr} (h : e.terminates = false) (p : NodePath) (i : Nat)
    (rest : List Expr) :
    lowerItems p i (e :: rest) =
      e.lower (p.enter (.item i) e) ++ (dropValue p e rest ++ lowerItems p (i + 1) rest) := by
  rw [lowerItems, if_neg (by simp [h])]

@[simp] theorem marks_dropValue (p : NodePath) (e : Expr) (rest : List Expr) :
    marks (dropValue p e rest) = [] := by
  unfold dropValue
  split <;> rfl

@[simp] theorem targets_dropValue (p : NodePath) (e : Expr) (rest : List Expr) :
    Item.targets (dropValue p e rest) = [] := by
  unfold dropValue
  split <;> rfl

theorem marksIn_lowerItems {items : List Expr} (h : ∀ e ∈ items, CodeLabelled e) (p : NodePath)
    (i : Nat) :
    MarksIn (Label.BelowFrom p.roles .item i) (lowerItems p i items) := by
  induction items generalizing i with
  | nil => exact .of_marks_eq_nil rfl
  | cons e rest ih =>
    rw [List.forall_mem_cons] at h
    have hb := Labelled.below h.1 p (.item i)
    have hr := ih h.2 (i + 1)
    cases he : e.terminates with
    | true =>
      rw [lowerItems_of_terminates he]
      exact hb.mono fun l hl => hl.head
    | false =>
      have hab := hb.append hr fun l hl => hl.apart_tail Role.item.inj
      rw [lowerItems_of_goes_on he]
      refine (hab.of_marks_eq (by simp)).mono fun l hl => ?_
      exact hl.elim Label.Below.head Label.Below.tail

theorem forward_lowerItems {items : List Expr} (h : ∀ e ∈ items, CodeLabelled e) (p : NodePath)
    (i : Nat) : Forward (lowerItems p i items) := by
  induction items generalizing i with
  | nil => trivial
  | cons e rest ih =>
    rw [List.forall_mem_cons] at h
    cases he : e.terminates with
    | true =>
      rw [lowerItems_of_terminates he]
      exact (h.1 _).forward
    | false =>
      rw [lowerItems_of_goes_on he]
      refine .append_of_closed (h.1 _).forward (.append_of_closed ?_ (ih h.2 (i + 1)))
      exact .of_targets_eq_nil (targets_dropValue p e rest)

/-! ### Choices -/

theorem marksIn_lowerTests {arms : List (Expr × Expr)} (h : ∀ arm ∈ arms, CodeLabelled arm.1)
    (p : NodePath) (i : Nat) :
    MarksIn (Label.BelowFrom p.roles .test i) (lowerTests p i arms) := by
  induction arms generalizing i with
  | nil => exact .of_marks_eq_nil rfl
  | cons arm rest ih =>
    obtain ⟨test, body⟩ := arm
    rw [List.forall_mem_cons] at h
    have hb := Labelled.below h.1 p (.test i)
    have hab := hb.append (ih h.2 (i + 1)) fun l hl => hl.apart_tail Role.test.inj
    refine (hab.of_marks_eq (by rw [lowerTests]; simp)).mono fun l hl => ?_
    exact hl.elim Label.Below.head Label.Below.tail

/-- The tests of a choice jump to the bodies of its arms and within themselves. -/
theorem forward_lowerTests {arms : List (Expr × Expr)} (h : ∀ arm ∈ arms, CodeLabelled arm.1)
    (p : NodePath) (i : Nat) :
    ForwardTo (fun l => ∃ j, i ≤ j ∧ j < i + arms.length ∧ l = .arm p.roles j)
      (lowerTests p i arms) := by
  induction arms generalizing i with
  | nil => trivial
  | cons arm rest ih =>
    obtain ⟨test, body⟩ := arm
    rw [List.forall_mem_cons] at h
    rw [lowerTests]
    refine .append_of_closed (h.1 _).forward ⟨.inr ⟨i, Nat.le_refl i, by simp, rfl⟩, ?_⟩
    refine (ih h.2 (i + 1)).mono fun l ⟨j, h1, h2, hl⟩ => ⟨j, by omega, ?_, hl⟩
    rw [List.length_cons]
    omega

theorem marksIn_lowerBodies {arms : List (Expr × Expr)} (h : ∀ arm ∈ arms, CodeLabelled arm.2)
    (p : NodePath) (i : Nat) :
    MarksIn (fun l => (∃ j, i ≤ j ∧ l = .arm p.roles j) ∨
        Label.BelowFrom p.roles .body i l)
      (lowerBodies p i arms) := by
  induction arms generalizing i with
  | nil => exact .of_marks_eq_nil rfl
  | cons arm rest ih =>
    obtain ⟨test, body⟩ := arm
    rw [List.forall_mem_cons] at h
    have hm : MarksIn (· = .arm p.roles i) [.mark (.arm p.roles i) p] := by
      constructor <;> simp
    have hb := Labelled.below h.1 p (.body i)
    have hmb := hm.append hb fun l hl hl' => hl'.owner_ne (by rw [hl]; rfl)
    have hab := hmb.append (ih h.2 (i + 1)) fun l hl => by
      rintro (⟨j, hj, rfl⟩ | hr)
      · rcases hl with hl | hl
        · cases hl
          omega
        · exact hl.owner_ne rfl
      · rcases hl with rfl | hl
        · exact hr.owner_ne rfl
        · exact hl.apart_tail Role.body.inj hr
    refine (hab.of_marks_eq ?_).mono fun l hl => ?_
    · rw [lowerBodies]
      split <;> simp
    · rcases hl with (hl | hl) | ⟨j, hj, hl⟩ | hl
      · exact .inl ⟨i, Nat.le_refl i, hl⟩
      · exact .inr hl.head
      · exact .inl ⟨j, by omega, hl⟩
      · exact .inr hl.tail

theorem arm_mem_marks_lowerBodies (p : NodePath) (i j : Nat) (arms : List (Expr × Expr))
    (h1 : i ≤ j) (h2 : j < i + arms.length) :
    .arm p.roles j ∈ marks (lowerBodies p i arms) := by
  induction arms generalizing i with
  | nil => simp at h2; omega
  | cons arm rest ih =>
    obtain ⟨test, body⟩ := arm
    rw [List.length_cons] at h2
    rw [lowerBodies]
    simp only [List.cons_append, marks_mark, marks_append, List.mem_cons, List.mem_append]
    rcases Nat.eq_or_lt_of_le h1 with rfl | h
    · exact .inl rfl
    · exact .inr (.inr (ih (i + 1) h (by omega)))

/-- The bodies of a choice jump within themselves, and behind the last one if some body goes on. -/
theorem forward_lowerBodies {arms : List (Expr × Expr)} (h : ∀ arm ∈ arms, CodeLabelled arm.2)
    (p : NodePath) (i : Nat) :
    ForwardTo (fun l => l = .done p.roles ∧ bodiesTerminate arms = false)
      (lowerBodies p i arms) := by
  induction arms generalizing i with
  | nil => trivial
  | cons arm rest ih =>
    obtain ⟨test, body⟩ := arm
    rw [List.forall_mem_cons] at h
    have hr : ForwardTo
        (fun l => l = .done p.roles ∧ bodiesTerminate ((test, body) :: rest) = false)
        (lowerBodies p (i + 1) rest) :=
      (ih h.2 (i + 1)).mono fun l ⟨hl, ht⟩ => ⟨hl, by simp [bodiesTerminate, ht]⟩
    rw [lowerBodies]
    show ForwardTo _ (.mark _ _ :: (_ ++ _ ++ _))
    rw [List.append_assoc]
    refine .append_of_closed (h.1 _).forward ?_
    cases hb : body.terminates with
    | true => simpa [hb] using hr
    | false => exact ⟨.inr ⟨rfl, by simp [bodiesTerminate, hb]⟩, hr⟩

theorem labelled_cond {arms : List (Expr × Expr)} (ht : ∀ arm ∈ arms, CodeLabelled arm.1)
    (hb : ∀ arm ∈ arms, CodeLabelled arm.2) : CodeLabelled (.cond arms) := by
  intro p
  have hmt := marksIn_lowerTests ht p 0
  have hmb := marksIn_lowerBodies hb p 0
  have hend : MarksIn (· = .done p.roles)
      (if bodiesTerminate arms then [] else [.mark (.done p.roles) p]) := by
    split
    · exact .of_marks_eq_nil rfl
    · constructor <;> simp
  have htb := hmt.append hmb fun l hl => by
    rintro (⟨j, -, rfl⟩ | hl')
    · exact hl.owner_ne rfl
    · have hne : ∀ j j', Role.test j ≠ .body j' := fun _ _ e => nomatch e
      exact Label.Below.apart_of_ne hne hl hl'
  have hall := htb.append hend fun l hl => by
    rintro rfl
    rcases hl with hl | ⟨j, -, hl⟩ | hl
    · exact hl.owner_ne rfl
    · cases hl
    · exact hl.owner_ne rfl
  constructor
  · refine (hall.of_marks_eq (by rw [lower]; simp)).mono fun l hl => ?_
    rcases hl with (hl | ⟨j, -, rfl⟩ | hl) | rfl
    · exact hl.suffix
    · exact List.suffix_refl _
    · exact hl.suffix
    · exact List.suffix_refl _
  · rw [lower]
    have hf : ForwardTo (fun l => l = .done p.roles ∧ bodiesTerminate arms = false)
        (lowerTests p 0 arms ++ .op (.plain .err) p :: lowerBodies p 0 arms) :=
      (forward_lowerTests ht p 0).append
        (fun l ⟨j, h1, h2, hl⟩ => .inl (hl ▸ arm_mem_marks_lowerBodies p 0 j arms h1 h2))
        (forward_lowerBodies hb p 0)
    refine hf.append (fun l ⟨hl, hn⟩ => .inl (by simp [hl, hn])) ?_
    split <;> trivial

/-! ### All trees -/

theorem labelled_lower {e : Expr} (h : Built e) : CodeLabelled e := by
  intro p
  induction h generalizing p with
  | txn source => cases source <;> exact .of_no_labels rfl rfl
  | int | bytes | named | global | verdict => exact .of_no_labels rfl rfl
  | unary _ _ ih => exact .of_child ih .operand [] ⟨rfl, rfl⟩ ⟨rfl, rfl⟩
  | binary _ _ _ ihl ihr =>
    have hne : Role.lhs ≠ .rhs := by decide
    exact .of_children ihl ihr hne [] ⟨rfl, rfl⟩ ⟨rfl, rfl⟩
  | globalGet key type =>
    rw [lower]
    exact ⟨(marksIn_lowerRead p key type _ _).mono fun l hl => hl ▸ List.suffix_refl _,
      forward_lowerRead p key type _ _⟩
  | @localGet account key type _ _ ih =>
    have hb := Labelled.below ih p .account
    have hr := marksIn_lowerRead p key type .appLocalGet .appLocalGetEx
    rw [lower]
    constructor
    · refine (hb.append hr fun l hl => hl.owner_ne).mono fun l hl => ?_
      exact hl.elim Label.Below.suffix fun e => e ▸ List.suffix_refl _
    · exact .append_of_closed (ih _).forward (forward_lowerRead p key type _ _)
  | @globalPut key _ _ _ ih =>
    exact .of_child ih .value [.op (.bytes key) p] ⟨rfl, rfl⟩ ⟨rfl, rfl⟩
  | @localPut _ key _ _ _ _ iha ihv =>
    have hne : Role.account ≠ .value := by decide
    exact .of_children iha ihv hne [.op (.bytes key) p] ⟨rfl, rfl⟩ ⟨rfl, rfl⟩
  | log _ _ ih => exact .of_child ih .operand [] ⟨rfl, rfl⟩ ⟨rfl, rfl⟩
  | seq _ ih =>
    rw [lower]
    exact ⟨(marksIn_lowerItems ih p 0).mono fun l hl => hl.suffix, forward_lowerItems ih p 0⟩
  | cond _ _ _ iht ihb => exact labelled_cond iht ihb p

end Expr

end ContractBench
