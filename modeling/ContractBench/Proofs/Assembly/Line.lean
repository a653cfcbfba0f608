import ContractBench.Proofs.Assembly.Immediate
/-!
# Lines written and read

An instruction whose immediate is of the kind of its opcode, and a label that can stand in a text,
are read back from the line that shows them:

    readLine version n l.text.toList = .ok l                             (readLine_text)
-/

namespace ContractBench

open Source Text

/-- The immediates of a kind in a listing. -/
inductive ImmediateKind.Takes : ImmediateKind → Immediate → Prop
  | absent : Takes .absent .absent
  | uint (value : UInt64) : Takes .uint (.uint value)
  | named (constant : NamedConst) : Takes .uint (.named constant)
  | bytes (value : Bytes) : Takes .bytes (.bytes value)
  | txn (field : TxnField) : Takes .txnField (.txn field)
  | gtxn (index : UInt8) (field : TxnField) : Takes .groupField (.gtxn index field)
  | global (field : GlobalField) : Takes .globalField (.global field)
  | label {name : String} : LabelText name → Takes .label (.label name)

/-- A line that a listing of a version may have. -/
def Line.Fits (version : UInt8) : Line → Prop
  | .op i => i.op.immediateKind.Takes i.imm ∧ i.minVersion ≤ version
  | .label name => LabelText name

namespace Opcode

/-! ## Mnemonics -/

theorem token_name (op : Opcode) : Token op.name.toList := by
  have hslash : ¬ ['/', '/'] <:+: ['/'] := fun h => absurd h.length_le (by decide)
  cases op with
  | binary op =>
    cases op with
    | div => exact .of_no_blanks (by decide) (forall_mem_of_all (by decide)) hslash
    | _ => exact .of_all (by decide) (by decide)
  | unary op => cases op <;> exact .of_all (by decide) (by decide)
  | _ => exact .of_all (by decide) (by decide)

/-- A mnemonic that is followed by an immediate holds nothing that ends a word. -/
theorem chars_name {op : Opcode} (h : op.immediateKind ≠ .absent) :
    ∀ c ∈ op.name.toList, isBlank c = false ∧ c ≠ '/' ∧ c ≠ '"' := by
  cases op with
  | binary | unary | pop | dup | err | ret | log | appGlobalGet | appGlobalGetEx | appGlobalPut
  | appLocalGet | appLocalGetEx | appLocalPut => exact absurd rfl h
  | _ => exact forall_mem_of_all (by decide)

theorem not_blank_name (op : Opcode) : ∀ c ∈ op.name.toList, isBlank c = false := by
  cases op with
  | binary op => cases op <;> exact forall_mem_of_all (by decide)
  | unary op => cases op <;> exact forall_mem_of_all (by decide)
  | _ => exact forall_mem_of_all (by decide)

end Opcode

/-! ## Instructions -/

/-- The text of an immediate behind the blank in front of it. -/
def Immediate.body : Immediate → List Char
  | .absent | .target _ => []
  | .uint value => (toString value).toList
  | .named constant => constant.name.toList
  | .bytes value => value.readable.toList
  | .txn field => field.name.toList
  | .gtxn index field => (toString index).toList ++ ' ' :: field.name.toList
  | .global field => field.name.toList
  | .label name => name.toList

namespace ImmediateKind.Takes

variable {k : ImmediateKind} {imm : Immediate}

theorem toList_text (h : k.Takes imm) (hk : k ≠ .absent) : imm.text.toList = ' ' :: imm.body := by
  cases h with
  | absent => exact absurd rfl hk
  | _ => simp [Immediate.text, Immediate.body]

theorem token_body (h : k.Takes imm) (hk : k ≠ .absent) : Token imm.body := by
  cases h with
  | absent => exact absurd rfl hk
  | uint value =>
    have hv : (toString value).toList = Nat.toDigits 10 value.toNat := toList_toString value.toNat
    rw [Immediate.body, hv]
    exact token_digits value.toNat
  | named constant => exact token_named constant
  | bytes value => exact token_readable value
  | txn field => exact token_txnField field
  | gtxn index field => exact token_group index field
  | global field => exact token_globalField field
  | label hl => exact hl.token

theorem readImmediate_body {op : Opcode} (h : k.Takes imm) (hk : op.immediateKind = k) (n : Nat)
    (line : List Char) : readImmediate n line op imm.body = .ok imm := by
  cases h with
  | absent => simp [readImmediate, hk, Immediate.body]
  | uint value => simp only [readImmediate, hk, Immediate.body, readUint_toString]
  | named constant => simp only [readImmediate, hk, Immediate.body, readUint_name]
  | bytes value =>
    simp only [readImmediate, hk, Immediate.body, readBytes_readable]
    rfl
  | txn field =>
    simp only [readImmediate, hk, Immediate.body, readTxnField_name]
    rfl
  | gtxn index field => simp only [readImmediate, hk, Immediate.body, readGroupField_text]
  | global field =>
    simp only [readImmediate, hk, Immediate.body, readGlobalField_name]
    rfl
  | label hl => simp only [readImmediate, hk, Immediate.body, hl.readLabel_eq]

end ImmediateKind.Takes

/-- The characters of an instruction make up a token. -/
theorem token_instruction {i : Instruction} (h : i.op.immediateKind.Takes i.imm) :
    Token i.text.toList := by
  rw [Instruction.text, String.toList_append]
  by_cases hk : i.op.immediateKind = .absent
  · rw [hk] at h
    cases himm : i.imm <;> rw [himm] at h <;> cases h
    simpa [Immediate.text] using i.op.token_name
  · rw [h.toList_text hk]
    exact (h.token_body hk).behind i.op.token_name.nonempty (Opcode.chars_name hk)

theorem readInstruction_text {i : Instruction} {version : UInt8}
    (h : i.op.immediateKind.Takes i.imm) (hv : i.minVersion ≤ version) (n : Nat) :
    readInstruction version n i.text.toList = .ok i := by
  have hsplit : splitMnemonic i.text.toList = (i.op.name.toList, i.imm.body) := by
    rw [Instruction.text, String.toList_append]
    by_cases hk : i.op.immediateKind = .absent
    · rw [hk] at h
      cases himm : i.imm <;> rw [himm] at h <;> cases h
      simp [splitMnemonic, Immediate.text, Immediate.body,
        splitBlank?_of_none i.op.not_blank_name]
    · have ht := h.token_body hk
      rw [h.toList_text hk]
      simp only [splitMnemonic, splitBlank?_append i.op.not_blank_name,
        trim_of_ends ht.head ht.last]
  have hnot : ¬ version < Instruction.minVersion ⟨i.op, i.imm⟩ := UInt8.not_lt.2 hv
  simp only [readInstruction, hsplit, String.ofList_toList, Opcode.ofName?_name,
    h.readImmediate_body rfl, bind, Except.bind, hnot, if_false]
  rfl

/-! ## Lines -/

theorem plain_line {version : UInt8} {l : Line} (h : l.Fits version) : Plain l.text.toList := by
  cases l with
  | op i => exact (token_instruction h.1).toPlain
  | label name =>
    have hl : LabelText name := h
    have ht : (Line.label name).text.toList = name.toList ++ [':'] := by simp [Line.text]
    rw [ht]
    refine .of_no_blanks (by simp) (fun c hc => ?_) fun hs => ?_
    · rcases List.mem_append.1 hc with hc | hc
      · exact (hl.chars c hc).1
      · cases List.mem_singleton.1 hc
        decide
    · rcases List.infix_concat_iff.1 hs with ⟨pre, he⟩ | hs
      · have hlast := congrArg List.getLast? he
        simp [List.getLast?_append] at hlast
      · exact hl.noComment hs

theorem readLine_text {version : UInt8} {l : Line} (h : l.Fits version) (n : Nat) :
    readLine version n l.text.toList = .ok l := by
  cases l with
  | op i =>
    have ht := token_instruction h.1
    have hn : labelText? (Line.op i).text.toList = none := if_neg ht.noColon
    simp only [readLine, hn]
    rw [show (Line.op i).text = i.text from rfl, readInstruction_text h.1 h.2 n]
    rfl
  | label name =>
    have hl : LabelText name := h
    have hs : labelText? (Line.label name).text.toList = some name.toList := by
      simp [labelText?, Line.text]
    have hb : name.toList.any isBlank = false := by
      rw [List.any_eq_false]
      intro c hc
      simp [(hl.chars c hc).1]
    simp [readLine, hs, hb, hl.nonempty]

end ContractBench
