import ContractBench.Proofs.Bytes.Value
import ContractBench.Proofs.Machine.Operators
/-!
# Conversions between words and byte strings

An instruction with a unary operator has the operand on top replaced by the result, or fails with
the fault of the operator; its immediate does not count. So the two conversions undo each other as
far as they can:

    op.apply v = .ok w → op.Replaces v w                                  (replaces_of_apply)
    op.apply v = .error e → op.Refuses v e                                 (refuses_of_apply)
    itob turns n into eight bytes, and btoi these into n
    b.length ≤ 8 → btoi turns b into its value, and itob this into b.leftpad 8 0
    8 < b.length → btoi refuses b                                       (conversions_inverse)
-/

namespace ContractBench

namespace UnaryOp

/-! ## Algorithm -/

/-- Wherever `v` is on top, the instruction takes it and pushes `w`, and changes nothing else. It
succeeds on every stack within its limit. -/
def Replaces (op : UnaryOp) (v w : Value) : Prop :=
  ∀ (env : Environment) (m : Machine) (imm : Immediate) (s : Stack), m.stack = v :: s →
    m.exec env ⟨.unary op, imm⟩ = { m with stack := s }.push w ∧
      (m.stack.length ≤ maxStackSize →
        m.exec env ⟨.unary op, imm⟩ = .ok { m with stack := w :: s })

/-- Wherever `v` is on top, the instruction fails with a fault. -/
def Refuses (op : UnaryOp) (v : Value) (e : Fault) : Prop :=
  ∀ (env : Environment) (m : Machine) (imm : Immediate) (s : Stack), m.stack = v :: s →
    m.exec env ⟨.unary op, imm⟩ = .error e

/-! ## Lemmas -/

variable {op : UnaryOp} {v w : Value}

theorem replaces_of_apply (h : op.apply v = .ok w) : op.Replaces v w := by
  intro env m imm s hs
  have hpush : m.exec env ⟨.unary op, imm⟩ = { m with stack := s }.push w := by
    rw [op.exec_eq_apply env imm hs, h]
    rfl
  refine ⟨hpush, fun hlen => ?_⟩
  -- the operand that was taken leaves room for the result
  have hroom : ¬ maxStackSize ≤ s.length := by
    rw [hs, List.length_cons] at hlen
    omega
  rw [hpush, Machine.push, Stack.push, if_neg hroom]
  rfl

theorem refuses_of_apply {e : Fault} (h : op.apply v = .error e) : op.Refuses v e := by
  intro env m imm s hs
  rw [op.exec_eq_apply env imm hs, h]
  rfl

theorem replaces_itob (n : UInt64) : itob.Replaces (.int n) (.bytes (Bytes.ofWord n)) :=
  replaces_of_apply rfl

theorem replaces_btoi {b : Bytes} (h : b.length ≤ 8) :
    btoi.Replaces (.bytes b) (.int b.toWord) :=
  replaces_of_apply (if_neg (Nat.not_lt.2 h))

theorem refuses_btoi {b : Bytes} (h : 8 < b.length) :
    btoi.Refuses (.bytes b) (.bytesTooLong b.length 8) :=
  refuses_of_apply (if_pos h)

/-! ## Top theorem -/

/-- A word is turned into exactly eight bytes, which write it and are turned into it again. A byte
string of at most eight bytes is turned into the number it writes, which is turned into these bytes
behind as many zeros as make eight. A longer one is refused, whatever it begins with. -/
theorem conversions_inverse :
    (∀ n : UInt64, ∃ b : Bytes, b.length = 8 ∧ b.value = n.toNat ∧
      itob.Replaces (.int n) (.bytes b) ∧ btoi.Replaces (.bytes b) (.int n)) ∧
    (∀ b : Bytes, b.length ≤ 8 → ∃ n : UInt64, n.toNat = b.value ∧
      btoi.Replaces (.bytes b) (.int n) ∧ itob.Replaces (.int n) (.bytes (b.leftpad 8 0))) ∧
    ∀ b : Bytes, 8 < b.length → btoi.Refuses (.bytes b) (.bytesTooLong b.length 8) := by
  refine ⟨fun n => ?_, fun b h => ?_, fun b h => refuses_btoi h⟩
  · refine ⟨.ofWord n, Bytes.length_ofWord n, Bytes.value_ofWord n, replaces_itob n, ?_⟩
    have hread := replaces_btoi (Nat.le_of_eq (Bytes.length_ofWord n))
    rwa [Bytes.toWord_ofWord] at hread
  · refine ⟨b.toWord, Bytes.toNat_toWord_of_length h, replaces_btoi h, ?_⟩
    have hwritten := replaces_itob b.toWord
    rwa [Bytes.ofWord_toWord h] at hwritten

/-! ### One short and one long byte string -/

/-- A call of a program that converts back and forth. -/
def converting : Environment where
  program := ⟨2, [.bytes [1, 2], .plain (.unary .btoi), .plain (.unary .itob)]⟩
  group := .single (.appCall .zero 1 .noOp)
  index := 0
  index_lt := Nat.zero_lt_one
  state := {}
  context := {}

/-- Two bytes are a number that is written back with six zeros in front; nine zeros are too long. -/
theorem conversions_inverse_short :
    ([1, 2] : Bytes).length ≤ 8 ∧
    Machine.exec converting { stack := [.bytes [1, 2]] } (.plain (.unary .btoi)) =
      .ok { stack := [.int 258] } ∧
    Machine.exec converting { stack := [.int 258] } (.plain (.unary .itob)) =
      .ok { stack := [.bytes [0, 0, 0, 0, 0, 0, 1, 2]] } ∧
    8 < (List.replicate 9 0 : Bytes).length ∧
    Machine.exec converting { stack := [.bytes (List.replicate 9 0)] } (.plain (.unary .btoi)) =
      .error (.bytesTooLong 9 8) := by
  have hshort : ([1, 2] : Bytes).length ≤ 8 := by decide
  have hlong : 8 < (List.replicate 9 0 : Bytes).length := by decide
  obtain ⟨n, hn, hread, hwritten⟩ := conversions_inverse.2.1 [1, 2] hshort
  have hvalue : n = 258 := UInt64.toNat_inj.1 (hn.trans (by decide))
  subst hvalue
  refine ⟨hshort, (hread converting _ .absent [] rfl).2 (by decide),
    (hwritten converting _ .absent [] rfl).2 (by decide), hlong, ?_⟩
  exact conversions_inverse.2.2 _ hlong converting _ .absent [] rfl

end UnaryOp

end ContractBench
