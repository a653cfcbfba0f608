import ContractBench.Proofs.Assembly.WellFormed
import ContractBench.Proofs.Code.Layout
/-!
# Listings are read back

A listing is proper if a text can spell it: its version knows the instructions, their immediates are of
the kinds of their opcodes, its labels stand for themselves in a line, each is defined once, and every
jump has one. Whatever byte strings and numbers it holds, the assembler takes its text for the same
instructions, and for each label the number of instructions in front of it:

    l.Proper → l.Readable                                                      (Proper.readable)
    l.Proper → ∃ program, assemble l.text = .ok program ∧ program.version = l.version ∧
      Forall₂ (Resolves l.lines) (instructions l.lines) program.instructions
                                                                       (assemble_text_of_proper)
-/

namespace ContractBench

open Source

namespace Listing

/-! ## Algorithm -/

/-- A listing that a text can spell. -/
structure Proper (l : Listing) : Prop where
  supported : 1 ≤ l.version ∧ l.version ≤ 8
  /-- Immediates are of the kinds of their opcodes, names in jumps, and the version knows it all. -/
  spelled : ∀ i ∈ instructions l.lines, i.Spelled l.version
  labelled : ∀ name ∈ labels l.lines, LabelText name
  nodup : (labels l.lines).Nodup
  closed : l.Closed

/-! ## Lemmas -/

namespace Proper

variable {l : Listing}

/-- A label that a jump names is one that a line can hold, since some line does. -/
theorem takes (h : l.Proper) {i : Instruction} (hi : i ∈ instructions l.lines) :
    i.op.immediateKind.Takes i.imm := by
  have hs := h.spelled i hi
  by_cases hk : i.op.immediateKind = .label
  · obtain ⟨name, himm⟩ := hs.jump hk
    rw [hk, himm]
    exact .label (h.labelled name (h.closed i hi name himm))
  · exact hs.operand hk

theorem readable (h : l.Proper) : l.Readable where
  supported := (Expr.isSupported_iff _).2 h.supported
  fits := by
    intro line hline
    cases line with
    | op i =>
      have hi : i ∈ instructions l.lines := List.mem_filterMap.2 ⟨_, hline, rfl⟩
      exact ⟨h.takes hi, (h.spelled i hi).known⟩
    | label name => exact h.labelled name (List.mem_filterMap.2 ⟨_, hline, rfl⟩)
  nodup := h.nodup

end Proper

end Listing

namespace Instruction.Spelled

variable {version : UInt8} {op : Opcode} {imm : Immediate}

theorem of_takes (hk : op.immediateKind ≠ .label) (h : op.immediateKind.Takes imm)
    (hv : minVersion ⟨op, imm⟩ ≤ version) : Spelled version ⟨op, imm⟩ :=
  ⟨fun _ => h, (absurd · hk), hv⟩

theorem of_label {name : String} (hk : op.immediateKind = .label) (hv : op.minVersion ≤ version) :
    Spelled version ⟨op, .label name⟩ where
  operand := absurd hk
  jump := fun _ => ⟨name, rfl⟩
  known := by rwa [minVersion_label]

end Instruction.Spelled

namespace Listing

/-! ## A maze -/

/-- Jumps both ways, to labels with a quote and a slash, around a literal that looks like a comment
and a label. -/
def maze : Listing where
  version := 2
  lines :=
    [.label "in\"", .op (.bytes (utf8 "x // y:")), .op (.plain .pop),
      .op (.named (.onComplete .optIn)), .op ⟨.bnz, .label "1/2"⟩, .op ⟨.jump, .label "in\""⟩,
      .label "1/2"]

theorem spelled_maze : ∀ i ∈ instructions maze.lines, i.Spelled 2 := by
  refine List.forall_mem_cons.2 ⟨.of_takes (by decide) (.bytes _) (by decide), ?_⟩
  refine List.forall_mem_cons.2 ⟨.of_takes (by decide) .absent (by decide), ?_⟩
  refine List.forall_mem_cons.2 ⟨.of_takes (by decide) (.named _) (by decide), ?_⟩
  refine List.forall_mem_cons.2 ⟨.of_label rfl (by decide), ?_⟩
  exact List.forall_mem_cons.2 ⟨.of_label rfl (by decide), List.forall_mem_nil _⟩

theorem labelText_maze : ∀ name ∈ labels maze.lines, LabelText name := by
  have hin : LabelText "in\"" :=
    ⟨by decide, Text.forall_mem_of_all (by decide +kernel), by decide +kernel⟩
  have hhalf : LabelText "1/2" :=
    ⟨by decide, Text.forall_mem_of_all (by decide +kernel), by decide +kernel⟩
  have hlabels : labels maze.lines = ["in\"", "1/2"] := rfl
  rw [hlabels]
  exact List.forall_mem_cons.2 ⟨hin, List.forall_mem_singleton.2 hhalf⟩

theorem closed_maze : maze.Closed := by
  refine List.forall_mem_cons.2 ⟨nofun, List.forall_mem_cons.2 ⟨nofun, ?_⟩⟩
  refine List.forall_mem_cons.2 ⟨nofun, List.forall_mem_cons.2 ⟨?_, ?_⟩⟩
  · rintro _ ⟨⟩
    decide
  · refine List.forall_mem_cons.2 ⟨?_, List.forall_mem_nil _⟩
    rintro _ ⟨⟩
    decide

theorem proper_maze : maze.Proper :=
  ⟨by decide, spelled_maze, labelText_maze, by decide, closed_maze⟩

/-! ## Top theorem -/

/-- The text of a proper listing is assembled to a program of its version, with its instructions in
order; in place of a label stands the number of instructions in front of its definition. -/
theorem assemble_text_of_proper {l : Listing} (h : l.Proper) :
    ∃ program, assemble l.text = .ok program ∧ program.version = l.version ∧
      List.Forall₂ (Resolves l.lines) (instructions l.lines) program.instructions :=
  ⟨l.linked, assemble_text h.readable h.closed, rfl, resolves_linked h.closed⟩

/-- The maze starts at its first instruction and ends behind its last. -/
theorem assemble_text_of_proper_maze : maze.Proper ∧
    (∃ program, assemble maze.text = .ok program ∧ program.version = 2 ∧
      List.Forall₂ (Resolves maze.lines) (instructions maze.lines) program.instructions) ∧
    maze.linked.instructions.drop 3 = [⟨.bnz, .target 5⟩, ⟨.jump, .target 0⟩] :=
  ⟨proper_maze, assemble_text_of_proper proper_maze, rfl⟩

end Listing

end ContractBench
