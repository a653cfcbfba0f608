import ContractBench.Code.Naming
import ContractBench.Proofs.Code.Labels
import ContractBench.Proofs.Text.Number
/-!
# Lines of lowered code

Every jump of a tree's code has its mark, so all its labels get names, and different labels get
different ones. What is left is the list of instructions in listing order, each with the path of
its node; a listing is refused for the first that its version does not know.

    Built e → Item.lines (e.lower p) = .ok (Item.namedLines (e.lower p))          (lines_lower)
    nameIn marks l = nameIn marks l' → l = l'   for marked labels                    (nameIn_inj)
-/

namespace ContractBench

theorem labelName_inj {m n : Nat} (h : labelName m = labelName n) : m = n := by
  have := Text.toString_inj (String.append_right_inj "main_l" |>.1 h)
  omega

namespace Item

/-! ## Algorithm -/

/-- The name of a label that is marked. -/
def nameIn (marks : List Label) (l : Label) : String := labelName ((marks.idxOf? l).getD 0)

/-- An item as a line, if its label is marked. -/
def namedLine (marks : List Label) : Item → Line
  | .op i _ => .op i
  | .jump opcode l _ => .op ⟨opcode, .label (nameIn marks l)⟩
  | .mark l _ => .label (nameIn marks l)

/-- The lines of code whose jumps all have their marks. -/
def namedLines (items : List Item) : List (Line × NodePath) :=
  items.map fun item => (item.namedLine (marks items), item.origin)

/-- The instructions among lines, each with the path of its node, in order. -/
def emitted (lines : List (Line × NodePath)) : List (Instruction × NodePath) :=
  lines.filterMap fun
    | (.op i, origin) => some (i, origin)
    | (.label _, _) => none

/-! ## Lemmas -/

/-- A marked label is found where it is marked. -/
theorem exists_idxOf? {marks : List Label} {l : Label} (h : l ∈ marks) :
    ∃ i, marks.idxOf? l = some i ∧ marks[i]? = some l := by
  induction marks with
  | nil => cases h
  | cons l' rest ih =>
    rw [List.idxOf?_cons]
    by_cases he : l' = l
    · exact ⟨0, by simp [he]⟩
    · obtain ⟨i, hi, hget⟩ := ih ((List.mem_cons.1 h).resolve_left (Ne.symm he))
      exact ⟨i + 1, by simp [he, hi], hget⟩

theorem nameOf_of_mem {items : List Item} {l : Label} (h : l ∈ marks items) :
    nameOf items l = .ok (nameIn (marks items) l) := by
  obtain ⟨i, hi, -⟩ := exists_idxOf? h
  rw [nameOf, nameIn, hi]
  rfl

/-- Different labels have different names. -/
theorem nameIn_inj {marks : List Label} {l l' : Label} (hl : l ∈ marks) (hl' : l' ∈ marks)
    (h : nameIn marks l = nameIn marks l') : l = l' := by
  obtain ⟨i, hi, hget⟩ := exists_idxOf? hl
  obtain ⟨i', hi', hget'⟩ := exists_idxOf? hl'
  rw [nameIn, nameIn, hi, hi'] at h
  have he : i = i' := labelName_inj h
  rw [he, hget'] at hget
  exact (Option.some.inj hget).symm

/-- Code whose jumps all have their marks is named without an error. -/
theorem lines_of_closed {items : List Item} (h : ∀ l ∈ targets items, l ∈ marks items) :
    lines items = .ok (namedLines items) := by
  refine Success.mapM_eq_ok fun item hi => ?_
  cases item with
  | op i p => rfl
  | jump op l p =>
    have hl : l ∈ marks items := h l (List.mem_filterMap.2 ⟨_, hi, rfl⟩)
    simp only [line, nameOf_of_mem hl]
    rfl
  | mark l p =>
    have hl : l ∈ marks items := List.mem_filterMap.2 ⟨_, hi, rfl⟩
    simp only [line, nameOf_of_mem hl]
    rfl

theorem lines_lower {e : Expr} (h : Expr.Built e) (p : NodePath) :
    lines (e.lower p) = .ok (namedLines (e.lower p)) :=
  lines_of_closed fun _ => (Expr.labelled_lower h p).forward.mem_marks

end Item

namespace Listing

theorem firstUnsupported?_eq_find? (version : UInt8) (lines : List (Line × NodePath)) :
    firstUnsupported? version lines =
      (Item.emitted lines).find? fun i => version < i.1.minVersion := by
  induction lines with
  | nil => rfl
  | cons x rest ih =>
    obtain ⟨line, origin⟩ := x
    rw [firstUnsupported?] at ih ⊢
    cases line with
    | label name => exact ih
    | op i =>
      by_cases h : version < i.minVersion
      · simp [Item.emitted, h]
      · simpa [Item.emitted, h] using ih

end Listing

end ContractBench
