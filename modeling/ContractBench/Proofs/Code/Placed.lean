import ContractBench.Proofs.Code.Listing
import ContractBench.Proofs.Machine.Run
/-!
# Code in its place

`Item.Placed code target a items` says that a piece of code stands at an address of an executable,
with its marks at the addresses their labels stand for. The executable of a tree holds the tree's
code at address 0, and all its jumps go forward:

    Built root → Placed (root.listing v name).linked.instructions target 0 (root.lower p)
                                                                         (placed_listing)
    Built root → (root.listing v name).linked.Straight                   (straight_listing)
-/

namespace ContractBench

namespace Item

/-- A piece of code stands at an address. -/
def Placed (code : List Instruction) (target : Label → Nat) : Nat → List Item → Prop
  | _, [] => True
  | a, .op i _ :: rest => code[a]? = some i ∧ Placed code target (a + 1) rest
  | a, .jump opcode l _ :: rest =>
    code[a]? = some ⟨opcode, .target (target l)⟩ ∧ Placed code target (a + 1) rest
  | a, .mark l _ :: rest => target l = a ∧ Placed code target a rest

@[simp] theorem count_nil : count [] = 0 := rfl

@[simp] theorem count_append (xs ys : List Item) : count (xs ++ ys) = count xs + count ys := by
  simp [count]

@[simp] theorem count_op (i : Instruction) (p : NodePath) (xs : List Item) :
    count (.op i p :: xs) = count xs + 1 := rfl

@[simp] theorem count_jump (opcode : Opcode) (l : Label) (p : NodePath) (xs : List Item) :
    count (.jump opcode l p :: xs) = count xs + 1 := rfl

@[simp] theorem count_mark (l : Label) (p : NodePath) (xs : List Item) :
    count (.mark l p :: xs) = count xs := rfl

namespace Placed

variable {code : List Instruction} {target : Label → Nat} {a : Nat} {xs ys : List Item}

theorem append_iff :
    Placed code target a (xs ++ ys) ↔
      Placed code target a xs ∧ Placed code target (a + count xs) ys := by
  induction xs generalizing a with
  | nil => simp [Placed]
  | cons x xs ih =>
    cases x with
    | op | jump =>
      simp only [List.cons_append, Placed, ih, and_assoc, count_op, count_jump]
      rw [show a + 1 + count xs = a + (count xs + 1) by omega]
    | mark => simp only [List.cons_append, Placed, ih, and_assoc, count_mark]

/-- Marks stand behind the address of their code. -/
theorem le_target {l : Label} (h : Placed code target a xs) (hl : l ∈ marks xs) : a ≤ target l := by
  induction xs generalizing a with
  | nil => cases hl
  | cons x xs ih =>
    cases x with
    | op | jump => exact Nat.le_of_succ_le (ih h.2 hl)
    | mark l' p =>
      rcases List.mem_cons.1 hl with rfl | hl
      · exact Nat.le_of_eq h.1.symm
      · exact ih h.2 hl

end Placed

/-- A jump in code that stands in its place goes to a label of that code, further down. -/
theorem Placed.jump_forward {code : List Instruction} {target : Label → Nat} {a k : Nat}
    {items : List Item} (h : Placed code target a items) (hf : Forward items) (hfit : AllFit items)
    (h1 : a ≤ k) (h2 : k < a + count items) {i : Instruction} (hi : code[k]? = some i)
    (hk : i.op.immediateKind = .label) :
    ∃ l, i.imm = .target (target l) ∧ k < target l := by
  induction items generalizing a with
  | nil => simp at h2; omega
  | cons x rest ih =>
    rw [allFit_cons] at hfit
    cases x with
    | op i' p =>
      rcases Nat.eq_or_lt_of_le h1 with rfl | hlt
      · rw [h.1] at hi
        cases hi
        exact absurd hk hfit.1.1
      · exact ih h.2 hf hfit.2 hlt (by rw [count_op] at h2; omega)
    | jump opcode l p =>
      rcases Nat.eq_or_lt_of_le h1 with rfl | hlt
      · rw [h.1] at hi
        cases hi
        exact ⟨l, rfl, h.2.le_target (hf.1.resolve_right id)⟩
      · exact ih h.2 hf.2 hfit.2 hlt (by rw [count_jump] at h2; omega)
    | mark l p => exact ih h.2 hf hfit.2 h1 (by rwa [count_mark] at h2)

end Item

/-! ## Positions in a listing -/

namespace Listing

@[simp] theorem instructions_append (xs ys : List Line) :
    instructions (xs ++ ys) = instructions xs ++ instructions ys :=
  List.filterMap_append

theorem position_le (name : String) (lines : List Line) :
    position name lines ≤ (instructions lines).length := by
  induction lines with
  | nil => exact Nat.le_refl 0
  | cons x rest ih =>
    cases x with
    | op i => exact Nat.succ_le_succ ih
    | label name' =>
      rw [position]
      split
      · exact Nat.zero_le _
      · exact ih

/-- A label stands behind the lines before its own. -/
theorem position_append {name : String} {xs : List Line} (h : name ∉ labels xs) (ys : List Line) :
    position name (xs ++ .label name :: ys) = (instructions xs).length := by
  induction xs with
  | nil => simp [position, instructions]
  | cons x xs ih =>
    cases x with
    | op i => exact congrArg (· + 1) (ih h)
    | label name' =>
      have hne : ¬ name' = name := fun e => h (e ▸ List.mem_cons_self)
      rw [List.cons_append, position, if_neg hne]
      exact ih fun hm => h (List.mem_cons_of_mem _ hm)

end Listing

namespace Item

open Listing

theorem length_instructions (all : List Label) (items : List Item) :
    (instructions (linesOf all items)).length = count items := by
  induction items with
  | nil => rfl
  | cons x rest ih =>
    cases x with
    | op | jump => exact congrArg (· + 1) ih
    | mark => exact ih

/-- An instruction without a label stays what it is. -/
theorem resolve_of_fits {i : Instruction} {p : NodePath} (h : (Item.op i p).Fits)
    (lines : List Line) : resolve lines i = i := by
  obtain ⟨hne, ht⟩ := h
  obtain ⟨op, imm⟩ := i
  have ht : op.immediateKind.Takes imm := ht
  have hne : op.immediateKind ≠ .label := hne
  cases imm with
  | label name =>
    generalize op.immediateKind = k at ht hne
    cases ht
    exact absurd rfl hne
  | _ => rfl

/-- The address of a label in the lines of a piece of code. -/
def addressIn (all : List Item) (l : Label) : Nat :=
  position (nameIn (marks all) l) (linesOf (marks all) all)

/-- The instructions of a piece of code, its jumps resolved. -/
def resolved (all : List Item) : List Instruction :=
  (instructions (linesOf (marks all) all)).map (resolve (linesOf (marks all) all))

theorem linesOf_split {all pre rest : List Item} {x : Item} (he : all = pre ++ x :: rest) :
    linesOf (marks all) all = linesOf (marks all) pre ++
      x.namedLine (marks all) :: linesOf (marks all) rest := by
  generalize marks all = ms
  rw [he, linesOf, List.map_append, List.map_cons]

/-- The instruction behind a piece of code. -/
theorem getElem?_resolved {all pre rest : List Item} {x : Item} (he : all = pre ++ x :: rest)
    {i : Instruction} (hx : x.namedLine (marks all) = .op i) :
    (resolved all)[count pre]? = some (resolve (linesOf (marks all) all) i) := by
  have hlen : ((instructions (linesOf (marks all) pre)).map
      (resolve (linesOf (marks all) all))).length = count pre := by
    rw [List.length_map, length_instructions]
  have hi : instructions (linesOf (marks all) all) =
      instructions (linesOf (marks all) pre) ++ i :: instructions (linesOf (marks all) rest) := by
    rw [linesOf_split he, instructions_append, hx]
    rfl
  rw [resolved, hi, List.map_append, List.map_cons, ← hlen,
    List.getElem?_append_right (Nat.le_refl _), Nat.sub_self]
  rfl

/-- The rest of a piece of code stands behind what comes before it. -/
theorem placed_of_append {all items : List Item} (pre : List Item) (he : all = pre ++ items)
    (hn : (marks all).Nodup) (hfit : AllFit all) :
    Placed (resolved all) (addressIn all) (count pre) items := by
  induction items generalizing pre with
  | nil => trivial
  | cons x rest ih =>
    have hx : x ∈ all := by simp [he]
    have hr := ih (pre ++ [x]) (by simp [he])
    rw [count_append] at hr
    cases x with
    | op i p =>
      refine ⟨?_, hr⟩
      rw [getElem?_resolved he rfl, resolve_of_fits (hfit _ hx)]
    | jump opcode l p => exact ⟨getElem?_resolved he rfl, hr⟩
    | mark l p =>
      refine ⟨?_, hr⟩
      have hm : marks all = marks pre ++ l :: marks rest := by rw [he, marks_append, marks_mark]
      have hl : l ∈ marks all := by simp [hm]
      have hpre : nameIn (marks all) l ∉ labels (linesOf (marks all) pre) := by
        rw [labels_linesOf]
        intro hmem
        obtain ⟨l', hl', hname⟩ := List.mem_map.1 hmem
        have hl'' : l' ∈ marks all := by simp [hm, hl']
        rw [nameIn_inj hl'' hl hname] at hl'
        rw [hm, List.nodup_append] at hn
        exact hn.2.2 l hl' l List.mem_cons_self rfl
      rw [addressIn, linesOf_split he]
      exact (position_append hpre _).trans (length_instructions _ _)

end Item

namespace Expr

open Item

/-! ## The executable of a tree -/

theorem linked_listing (root : Expr) (v : UInt8) (name : String) :
    (root.listing v name).linked.instructions = resolved (root.lower (.root name)) := by
  rw [Listing.linked, lines_listing]
  rfl

/-- The executable of a tree holds its code from address 0 on. -/
theorem placed_listing {root : Expr} (h : Built root) (v : UInt8) (name : String) :
    Placed (root.listing v name).linked.instructions (addressIn (root.lower (.root name))) 0
      (root.lower (.root name)) := by
  rw [linked_listing]
  exact placed_of_append [] rfl (labelled_lower h _).nodup (codeFits_of_built h _)

theorem length_linked (root : Expr) (v : UInt8) (name : String) :
    (root.listing v name).linked.instructions.length = count (root.lower (.root name)) := by
  rw [linked_listing, resolved, List.length_map, length_instructions]

theorem addressIn_le (root : Expr) (v : UInt8) (name : String) (l : Label) :
    addressIn (root.lower (.root name)) l ≤
      (root.listing v name).linked.instructions.length := by
  rw [length_linked]
  exact Nat.le_trans (Listing.position_le _ _) (Nat.le_of_eq (length_instructions _ _))

/-- All jumps of a tree's executable go forward. -/
theorem straight_listing {root : Expr} (h : Built root) (v : UInt8) (name : String) :
    (root.listing v name).linked.Straight := by
  intro a i hi hk
  have ha : a < count (root.lower (.root name)) := by
    rw [← length_linked root v name]
    exact (List.getElem?_eq_some_iff.1 hi).1
  obtain ⟨l, himm, hlt⟩ := (placed_listing h v name).jump_forward (labelled_lower h _).forward
    (codeFits_of_built h _) (Nat.zero_le a) (by omega) hi hk
  exact ⟨_, himm, hlt, addressIn_le root v name l⟩

end Expr

end ContractBench
