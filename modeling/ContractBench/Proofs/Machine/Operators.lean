import ContractBench.Proofs.Expr.Eval
/-!
# Operators of the machine

The machine takes the operands of an operator from the stack and pushes its result:

    Stack.binary op (b :: a :: s) = op.apply a b >>= s.push                (binary_eq_apply)
    Stack.unary op (a :: s) = op.apply a >>= s.push                        (unary_eq_apply)
-/

namespace ContractBench

/-! ## Exact integers -/

theorem Value.ofExact_natCast (n : Nat) :
    ofExact n =
      if n < UInt64.size then .ok (.int (UInt64.ofNat n)) else .error .integerOverflow := by
  have hn : ¬ (n : Int) < 0 := by omega
  rw [ofExact, if_neg hn, Int.toNat_natCast]
  by_cases h : n < UInt64.size
  · rw [if_pos h, if_pos (by omega)]
  · rw [if_neg h, if_neg (by omega)]

/-- A sum or a product of words is computed exactly or refused. -/
theorem Arith.checked_eq (n : Nat) : (Arith.checked n).map Value.int = Value.ofExact n := by
  rw [Value.ofExact_natCast, Arith.checked]
  split <;> rfl

theorem Arith.sub_eq (a b : UInt64) :
    Arith.sub a b = if b.toNat ≤ a.toNat then .ok (UInt64.ofNat (a.toNat - b.toNat))
      else .error .integerUnderflow := by
  unfold Arith.sub
  by_cases h : b ≤ a
  · have hn : b.toNat ≤ a.toNat := h
    rw [if_pos h, if_pos hn, ← UInt64.toNat_sub_of_le a b h, UInt64.ofNat_toNat]
  · have hn : ¬ b.toNat ≤ a.toNat := h
    rw [if_neg h, if_neg hn]

theorem Value.ofExact_sub (a b : UInt64) :
    ofExact ((a.toNat : Int) - b.toNat) = (Arith.sub a b).map .int := by
  rw [Arith.sub_eq]
  by_cases h : b.toNat ≤ a.toNat
  · have hc : (a.toNat : Int) - b.toNat = ((a.toNat - b.toNat : Nat) : Int) := by omega
    have hlt : a.toNat - b.toNat < UInt64.size := Nat.lt_of_le_of_lt (Nat.sub_le _ _) a.toNat_lt
    rw [if_pos h, hc, ofExact_natCast, if_pos hlt]
    rfl
  · have hneg : (a.toNat : Int) - b.toNat < 0 := by omega
    rw [if_neg h, ofExact, if_pos hneg]
    rfl

theorem Arith.div_eq (a b : UInt64) :
    (Arith.div a b).map Value.int =
      if b.toNat = 0 then .error .divisionByZero else Value.ofExact ((a.toNat : Int) / b.toNat) := by
  unfold Arith.div
  by_cases h : b = 0
  · simp [h]
    rfl
  · have hn : ¬ b.toNat = 0 := fun e => h (UInt64.toNat_inj.1 e)
    have hlt : a.toNat / b.toNat < UInt64.size := Nat.lt_of_le_of_lt (Nat.div_le_self _ _) a.toNat_lt
    rw [if_neg h, if_neg hn, ← Int.natCast_ediv, Value.ofExact_natCast, if_pos hlt,
      ← UInt64.toNat_div, UInt64.ofNat_toNat]
    rfl

theorem Arith.mod_eq (a b : UInt64) :
    (Arith.mod a b).map Value.int =
      if b.toNat = 0 then .error .divisionByZero else Value.ofExact ((a.toNat : Int) % b.toNat) := by
  unfold Arith.mod
  by_cases h : b = 0
  · simp [h]
    rfl
  · have hn : ¬ b.toNat = 0 := fun e => h (UInt64.toNat_inj.1 e)
    have hlt : a.toNat % b.toNat < UInt64.size := Nat.lt_of_le_of_lt (Nat.mod_le _ _) a.toNat_lt
    rw [if_neg h, if_neg hn, ← Int.natCast_emod, Value.ofExact_natCast, if_pos hlt,
      ← UInt64.toNat_mod, UInt64.ofNat_toNat]
    rfl

theorem Arith.ofBool_eq (p : Bool) : (Arith.ofBool p).map Value.int = .ok (.ofBool p) := rfl

namespace Stack

/-! ## Operators -/

/-- A function of words, as an operator on a stack with two values. -/
theorem onInts_eq (op : BinaryOp) (f : UInt64 → UInt64 → Except Fault UInt64)
    (ht : op.operandType? = some .int)
    (hw : ∀ a b, (f a b).map Value.int = op.onWords a b)
    (hb : ∀ a b, op.onBytes a b = .error op.mismatch) (a b : Value) (s : Stack) :
    onInts op f (b :: a :: s) = op.apply a b >>= s.push := by
  have hm : op.mismatch = .typeMismatch (.binary op) (some .int) := by rw [BinaryOp.mismatch, ht]
  cases b with
  | bytes b =>
    cases a with
    | bytes a =>
      rw [BinaryOp.apply, hb, hm]
      rfl
    | int a =>
      rw [BinaryOp.apply, hm]
      rfl
      all_goals simp
  | int b =>
    cases a with
    | bytes a =>
      rw [BinaryOp.apply, hm]
      rfl
      all_goals simp
    | int a =>
      rw [BinaryOp.apply, ← hw]
      show (f a b >>= fun n => s.push (.int n)) = _
      cases f a b <;> rfl

theorem onEqual_eq (op : BinaryOp) (f : Bool → Bool) (ht : op.operandType? = none)
    (hw : ∀ a b, op.onWords a b = .ok (.ofBool (f (Value.int a == .int b))))
    (hb : ∀ a b, op.onBytes a b = .ok (.ofBool (f (Value.bytes a == .bytes b))))
    (a b : Value) (s : Stack) : onEqual op f (b :: a :: s) = op.apply a b >>= s.push := by
  have hm : op.mismatch = .typeMismatch (.binary op) none := by rw [BinaryOp.mismatch, ht]
  cases a with
  | int a =>
    cases b with
    | int b =>
      rw [BinaryOp.apply, hw]
      rfl
    | bytes b =>
      rw [BinaryOp.apply, hm]
      rfl
      all_goals simp
  | bytes a =>
    cases b with
    | bytes b =>
      rw [BinaryOp.apply, hb]
      rfl
    | int b =>
      rw [BinaryOp.apply, hm]
      rfl
      all_goals simp

theorem onConcat_eq (a b : Value) (s : Stack) :
    onConcat (b :: a :: s) = BinaryOp.concat.apply a b >>= s.push := by
  cases a with
  | int a => cases b <;> rfl
  | bytes a =>
    cases b with
    | int b => rfl
    | bytes b =>
      by_cases h : maxBytesLength < a.length + b.length
      · simp [onConcat, popBytes, BinaryOp.apply, BinaryOp.onBytes, h, bind, Except.bind]
        rfl
      · simp [onConcat, popBytes, BinaryOp.apply, BinaryOp.onBytes, h, bind, Except.bind]

theorem beq_int (a b : UInt64) : (Value.int a == Value.int b) = decide (a = b) := by
  rw [Bool.eq_iff_iff]
  simp

theorem beq_bytes (a b : Bytes) : (Value.bytes a == Value.bytes b) = decide (a = b) := by
  rw [Bool.eq_iff_iff]
  simp

/-- A binary operator takes the two values on top, the right one first, and pushes its result. -/
theorem binary_eq_apply (op : BinaryOp) (a b : Value) (s : Stack) :
    binary op (b :: a :: s) = op.apply a b >>= s.push := by
  cases op with
  | concat => exact onConcat_eq a b s
  | eq =>
    refine onEqual_eq .eq (fun x => x) rfl (fun a b => ?_) (fun a b => ?_) a b s
    · rw [beq_int, BinaryOp.onWords]
    · rw [beq_bytes, BinaryOp.onBytes]
  | ne =>
    refine onEqual_eq .ne (!·) rfl (fun a b => ?_) (fun a b => ?_) a b s
    · simp only [beq_int, BinaryOp.onWords, ne_eq, decide_not]
    · simp only [beq_bytes, BinaryOp.onBytes, ne_eq, decide_not]
  | add => exact onInts_eq .add Arith.add rfl (fun _ _ => Arith.checked_eq _) (fun _ _ => rfl) a b s
  | mul => exact onInts_eq .mul Arith.mul rfl (fun _ _ => Arith.checked_eq _) (fun _ _ => rfl) a b s
  | sub =>
    exact onInts_eq .sub Arith.sub rfl (fun a b => (Value.ofExact_sub a b).symm) (fun _ _ => rfl)
      a b s
  | div => exact onInts_eq .div Arith.div rfl Arith.div_eq (fun _ _ => rfl) a b s
  | mod => exact onInts_eq .mod Arith.mod rfl Arith.mod_eq (fun _ _ => rfl) a b s
  | lt =>
    refine onInts_eq .lt (fun a b => Arith.ofBool (a < b)) rfl (fun a b => ?_) (fun _ _ => rfl) a b s
    simp only [Arith.ofBool_eq, BinaryOp.onWords, UInt64.lt_iff_toNat_lt]
  | gt =>
    refine onInts_eq .gt (fun a b => Arith.ofBool (b < a)) rfl (fun a b => ?_) (fun _ _ => rfl) a b s
    simp only [Arith.ofBool_eq, BinaryOp.onWords, UInt64.lt_iff_toNat_lt]
  | le =>
    refine onInts_eq .le (fun a b => Arith.ofBool (a ≤ b)) rfl (fun a b => ?_) (fun _ _ => rfl) a b s
    simp only [Arith.ofBool_eq, BinaryOp.onWords, UInt64.le_iff_toNat_le]
  | ge =>
    refine onInts_eq .ge (fun a b => Arith.ofBool (b ≤ a)) rfl (fun a b => ?_) (fun _ _ => rfl) a b s
    simp only [Arith.ofBool_eq, BinaryOp.onWords, UInt64.le_iff_toNat_le]
  | and =>
    refine onInts_eq .and (fun a b => Arith.ofBool (a != 0 && b != 0)) rfl (fun a b => ?_)
      (fun _ _ => rfl) a b s
    simp only [Arith.ofBool_eq, BinaryOp.onWords, bne, ne_eq, Bool.decide_and, decide_not]
    rfl
  | or =>
    refine onInts_eq .or (fun a b => Arith.ofBool (a != 0 || b != 0)) rfl (fun a b => ?_)
      (fun _ _ => rfl) a b s
    simp only [Arith.ofBool_eq, BinaryOp.onWords, bne, ne_eq, Bool.decide_or, decide_not]
    rfl

/-- A unary operator takes the value on top and pushes its result. -/
theorem unary_eq_apply (op : UnaryOp) (a : Value) (s : Stack) :
    unary op (a :: s) = op.apply a >>= s.push := by
  cases op with
  | not =>
    cases a with
    | bytes => rfl
    | int a =>
      simp only [unary, popInt, UnaryOp.apply, bind, Except.bind]
      rw [show (a == 0) = decide (a = 0) from rfl]
  | len => cases a <;> rfl
  | itob => cases a <;> rfl
  | btoi =>
    cases a with
    | int a => rfl
    | bytes b =>
      by_cases h : 8 < b.length
      · simp [unary, popBytes, UnaryOp.apply, h, bind, Except.bind]
        rfl
      · simp [unary, popBytes, UnaryOp.apply, h, bind, Except.bind]

end Stack

/-- The instruction of a unary operator works on the value on top, whatever its immediate. -/
theorem UnaryOp.exec_eq_apply (op : UnaryOp) (env : Environment) {m : Machine} (imm : Immediate)
    {v : Value} {s : Stack} (h : m.stack = v :: s) :
    m.exec env ⟨.unary op, imm⟩ = op.apply v >>= fun w => { m with stack := s }.push w := by
  show (do return { m with stack := ← m.stack.unary op }) = _
  rw [h, Stack.unary_eq_apply]
  cases op.apply v <;> rfl

end ContractBench
