import ContractBench.Assembly.Assemble
import ContractBench.Proofs.Code.Compile
import ContractBench.Proofs.Machine.WellFormed
import ContractBench.Registry
import ContractBench.Success
/-!
# What the assembler accepts

An accepted text is of a supported version that knows all its instructions, and every immediate is
of the kind of its opcode (`Instruction.Spelled`); a jump names a label of the text. Linking leaves
the immediates of other opcodes alone and puts the number of instructions in front of the label
for the name, so what comes out makes sense to the machine (`Executable.WellFormed`):

    readLines version defined lines = .ok ls → ∀ i ∈ instructions ls, i.Spelled version
                                                                        (spelled_of_readLines)
    i.Spelled version → i.link targets = .ok j → j.Resolved size        (Spelled.resolved_link)
    assemble source = .ok e → e.WellFormed                              (wellFormed_of_assemble)
-/

namespace ContractBench

open Success

/-! ## Algorithm -/

/-- An instruction as a text of a version can spell it. -/
structure Instruction.Spelled (version : UInt8) (i : Instruction) : Prop where
  operand : i.op.immediateKind ≠ .label → i.op.immediateKind.Takes i.imm
  jump : i.op.immediateKind = .label → ∃ name, i.imm = .label name
  known : i.minVersion ≤ version

/-- An executable as the machine relies on it. -/
structure Executable.WellFormed (e : Executable) : Prop where
  supported : 1 ≤ e.version ∧ e.version ≤ 8
  known : ∀ i ∈ e.instructions, i.minVersion ≤ e.version
  resolved : ∀ i ∈ e.instructions, i.Resolved e.size

namespace Source

/-! ## Lemmas -/

/-! ### Immediates -/

variable {n : Nat} {line cs : List Char} {imm : Immediate}

theorem takes_of_readUint (h : readUint n cs = .ok imm) : ImmediateKind.uint.Takes imm := by
  unfold readUint at h
  split at h
  · cases h
    exact .named _
  · dsimp only at h
    split at h <;> cases h
    exact .uint _

theorem takes_of_readGroupField (h : readGroupField n line cs = .ok imm) :
    ImmediateKind.groupField.Takes imm := by
  unfold readGroupField at h
  split at h
  · cases h
  · split at h
    · cases h
    · obtain ⟨field, -, h⟩ := bind_eq_ok.1 h
      cases h
      exact .gtxn _ _

theorem label_of_readLabel {mnemonic : String} (h : readLabel n mnemonic cs = .ok imm) :
    ∃ name, imm = .label name := by
  unfold readLabel at h
  split at h <;> cases h
  exact ⟨_, rfl⟩

/-- What is read behind a mnemonic is of the kind of its opcode. -/
theorem takes_of_readImmediate {op : Opcode} (h : readImmediate n line op cs = .ok imm)
    (hk : op.immediateKind ≠ .label) : op.immediateKind.Takes imm := by
  unfold readImmediate at h
  cases hop : op.immediateKind <;> rw [hop] at h <;> dsimp only at h
  case absent =>
    split at h <;> cases h
    exact .absent
  case uint => exact takes_of_readUint h
  case bytes =>
    obtain ⟨b, -, h⟩ := bind_eq_ok.1 h
    cases h
    exact .bytes b
  case txnField =>
    obtain ⟨f, -, h⟩ := bind_eq_ok.1 h
    cases h
    exact .txn f
  case groupField => exact takes_of_readGroupField h
  case globalField =>
    obtain ⟨f, -, h⟩ := bind_eq_ok.1 h
    cases h
    exact .global f
  case label => exact absurd hop hk

theorem label_of_readImmediate {op : Opcode} (h : readImmediate n line op cs = .ok imm)
    (hk : op.immediateKind = .label) : ∃ name, imm = .label name := by
  unfold readImmediate at h
  rw [hk] at h
  exact label_of_readLabel h

/-! ### Lines -/

variable {version : UInt8}

theorem spelled_of_readInstruction {i : Instruction}
    (h : readInstruction version n line = .ok i) : i.Spelled version := by
  unfold readInstruction at h
  obtain ⟨mnemonic, rest⟩ := splitMnemonic line
  dsimp only at h
  split at h
  · cases h
  · obtain ⟨imm, himm, h⟩ := bind_eq_ok.1 h
    split at h
    · cases h
    · next hv =>
      cases h
      exact ⟨takes_of_readImmediate himm, label_of_readImmediate himm, UInt8.not_lt.1 hv⟩

theorem spelled_of_readLine {i : Instruction} (h : readLine version n line = .ok (.op i)) :
    i.Spelled version := by
  unfold readLine at h
  split at h
  · split at h <;> cases h
  · obtain ⟨j, hj, h⟩ := bind_eq_ok.1 h
    cases h
    exact spelled_of_readInstruction hj

theorem spelled_of_readLines {defined : List String} {lines : List (Nat × List Char)}
    {ls : List Line} (h : readLines version defined lines = .ok ls) :
    ∀ i ∈ Listing.instructions ls, i.Spelled version := by
  induction lines generalizing defined ls with
  | nil =>
    cases h
    exact fun _ hi => nomatch hi
  | cons x rest ih =>
    obtain ⟨l, hl, h⟩ := bind_eq_ok.1 h
    cases l with
    | label name =>
      dsimp only at h
      split at h
      · cases h
      · obtain ⟨ls, hr, h⟩ := bind_eq_ok.1 h
        cases h
        have hi : Listing.instructions (.label name :: ls) = Listing.instructions ls := rfl
        rw [hi]
        exact ih hr
    | op j =>
      obtain ⟨ls, hr, h⟩ := bind_eq_ok.1 h
      cases h
      exact List.forall_mem_cons.2 ⟨spelled_of_readLine hl, ih hr⟩

theorem supported_of_readPragma (h : readPragma line = .ok version) :
    1 ≤ version ∧ version ≤ 8 := by
  unfold readPragma at h
  split at h
  · cases h
  · dsimp only at h
    split at h
    · next hv =>
      cases h
      exact (Expr.isSupported_iff _).1 (Option.filter_eq_some_iff.1 hv).2
    · cases h

end Source

/-! ### Texts -/

namespace Listing

theorem supported_of_ofText {source : String} {l : Listing} (h : ofText source = .ok l) :
    1 ≤ l.version ∧ l.version ≤ 8 := by
  unfold ofText at h
  split at h
  · cases h
  · obtain ⟨version, hv, h⟩ := bind_eq_ok.1 h
    obtain ⟨lines, -, h⟩ := bind_eq_ok.1 h
    cases h
    exact Source.supported_of_readPragma hv

theorem spelled_of_ofText {source : String} {l : Listing} (h : ofText source = .ok l) :
    ∀ i ∈ instructions l.lines, i.Spelled l.version := by
  unfold ofText at h
  split at h
  · cases h
  · obtain ⟨version, -, h⟩ := bind_eq_ok.1 h
    obtain ⟨lines, hl, h⟩ := bind_eq_ok.1 h
    cases h
    exact Source.spelled_of_readLines hl

/-! ### Linking -/

/-- A label stands in front of one of the instructions or behind all of them. -/
theorem target_le {lines : List Line} {i t : Nat} {name : String}
    (h : (targets i lines).lookup name = some t) : t ≤ i + (instructions lines).length := by
  induction lines generalizing i with
  | nil => cases h
  | cons x rest ih =>
    cases x with
    | op j =>
      have ht := ih h
      have hl : (instructions (.op j :: rest)).length = (instructions rest).length + 1 := rfl
      omega
    | label name' =>
      have hl : instructions (.label name' :: rest) = instructions rest := rfl
      rw [targets, List.lookup_cons] at h
      rw [hl]
      split at h
      · cases h
        exact Nat.le_add_right _ _
      · exact ih h

end Listing

namespace Instruction.Spelled

variable {version : UInt8} {targets : List (String × Nat)} {i j : Instruction}

/-- Linking changes the immediates of jumps only. -/
theorem link_cases (h : i.Spelled version) (hl : i.link targets = .ok j) :
    (i.op.immediateKind ≠ .label ∧ j = i) ∨
      ∃ name t, i.imm = .label name ∧ targets.lookup name = some t ∧
        j = { i with imm := .target t } := by
  unfold link at hl
  split at hl
  · next name himm =>
    split at hl
    · next t ht =>
      cases hl
      exact .inr ⟨name, t, himm, ht, rfl⟩
    · cases hl
  · next hno =>
    cases hl
    refine .inl ⟨fun hk => ?_, rfl⟩
    obtain ⟨name, himm⟩ := h.jump hk
    exact hno name himm

theorem known_link (h : i.Spelled version) (hl : i.link targets = .ok j) :
    j.minVersion ≤ version := by
  rcases h.link_cases hl with ⟨-, rfl⟩ | ⟨name, t, himm, -, rfl⟩
  · exact h.known
  · have hv := h.known
    rw [minVersion, himm] at hv
    exact hv

theorem resolved_link {size : Nat} (h : i.Spelled version) (hl : i.link targets = .ok j)
    (hs : ∀ name t, targets.lookup name = some t → t ≤ size) : j.Resolved size := by
  rcases h.link_cases hl with ⟨hk, rfl⟩ | ⟨name, t, himm, ht, rfl⟩
  · exact ⟨h.operand, (absurd · hk)⟩
  · refine ⟨fun hk => ?_, fun _ => ⟨t, rfl, hs name t ht⟩⟩
    -- only jumps carry a name
    have hi := h.operand hk
    rw [himm] at hi
    generalize hop : i.op.immediateKind = k at hi
    cases hi
    exact absurd hop hk

end Instruction.Spelled

theorem Listing.wellFormed_of_link {l : Listing} {e : Executable} (h : l.link = .ok e)
    (hv : 1 ≤ l.version ∧ l.version ≤ 8) (hs : ∀ i ∈ instructions l.lines, i.Spelled l.version) :
    e.WellFormed := by
  obtain ⟨is, his, he⟩ := bind_eq_ok.1 h
  cases he
  have hlen := length_mapM his
  have htarget : ∀ name t, (targets 0 l.lines).lookup name = some t → t ≤ is.length := by
    intro name t ht
    have := target_le ht
    omega
  refine ⟨hv, fun j hj => ?_, fun j hj => ?_⟩
  · obtain ⟨i, hi, hl⟩ := exists_of_mem_mapM his hj
    exact (hs i hi).known_link hl
  · obtain ⟨i, hi, hl⟩ := exists_of_mem_mapM his hj
    exact (hs i hi).resolved_link hl htarget

/-- The machine understands what it relies on, whatever it runs it for. -/
theorem Executable.WellFormed.understood {e : Executable} (h : e.WellFormed) (group : Group)
    (index : Nat) (state : AppState) (context : Context) :
    Understood (Registry.runProgram e group index state context).1 := by
  unfold Registry.runProgram Environment.forMember
  split
  · next env henv =>
    split at henv <;> cases henv
    exact Machine.understood_run h.resolved
  · next fault henv =>
    split at henv <;> cases henv
    exact .error rfl

/-! ## Top theorems -/

/-- An accepted text becomes a program of a version from 1 to 8 that knows its instructions, each
with an immediate of its kind and jumps into the program or right behind it; no run of it meets a
malformed instruction or an invalid jump. -/
theorem wellFormed_of_assemble {source : String} {e : Executable} (h : assemble source = .ok e) :
    ((1 ≤ e.version ∧ e.version ≤ 8) ∧
      ∀ i ∈ e.instructions, i.minVersion ≤ e.version ∧ i.Resolved e.size) ∧
    ∀ (group : Group) (index : Nat) (state : AppState) (context : Context) (i : Instruction),
      (Registry.runProgram e group index state context).1 ≠ .error (.malformedInstruction i) ∧
      (Registry.runProgram e group index state context).1 ≠ .error (.invalidJump i) := by
  obtain ⟨l, hl, he⟩ := bind_eq_ok.1 h
  have hw := Listing.wellFormed_of_link he (Listing.supported_of_ofText hl)
    (Listing.spelled_of_ofText hl)
  refine ⟨⟨hw.supported, fun i hi => ⟨hw.known i hi, hw.resolved i hi⟩⟩, ?_⟩
  intro group index state context i
  have hu := hw.understood group index state context
  exact ⟨fun hm => Bool.noConfusion (hu _ hm), fun hj => Bool.noConfusion (hu _ hj)⟩

/-- A text that jumps to a label behind its last instruction. -/
theorem wellFormed_of_assemble_skip :
    assemble "#pragma version 2\nint 1\nint 1\nbnz end\nerr\nend:" =
        .ok ⟨2, [.int 1, .int 1, ⟨.bnz, .target 4⟩, .plain .err]⟩ ∧
      ∀ (group : Group) (index : Nat) (state : AppState) (context : Context) (i : Instruction),
        (Registry.runProgram ⟨2, [.int 1, .int 1, ⟨.bnz, .target 4⟩, .plain .err]⟩ group index state
          context).1 ≠ .error (.invalidJump i) := by
  have h : assemble "#pragma version 2\nint 1\nint 1\nbnz end\nerr\nend:" =
      .ok ⟨2, [.int 1, .int 1, ⟨.bnz, .target 4⟩, .plain .err]⟩ := by decide +kernel
  exact ⟨h, fun group index state context i =>
    ((wellFormed_of_assemble h).2 group index state context i).2⟩

end ContractBench
