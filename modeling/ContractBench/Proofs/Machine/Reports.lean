import ContractBench.Machine.Step
/-!
# What single operations report

Arithmetic, fields and accounts fail for reasons of their own (`Fault.isReport`): none of them tells
of the stack, of the budget or of the program. An operator on two values fails for such a reason,
or for one of its operands:

    Reports (env.memberField index f)                    (Environment.reports_memberField)
    Applies op (binary op)                               (Stack.applies_binary)
-/

namespace ContractBench

/-! ## Algorithm -/

/-- A fault of an operation on values, fields or accounts. -/
def Fault.isReport : Fault → Bool
  | .integerOverflow | .integerUnderflow | .divisionByZero | .fieldUnavailable _ _
  | .groupIndexOutOfRange _ _ | .accountNotAccessible _ | .foreignApplication _ => true
  | _ => false

/-- A computation fails only with a fault of an operation on values, fields or accounts. -/
def Reports {α : Type} (x : Except Fault α) : Prop := ∀ e, x = .error e → e.isReport = true

/-- What an operator does with the two values on top: it compares them, joins them or does
arithmetic with them. -/
inductive Stack.Applies (op : BinaryOp) : (Stack → Except Fault Stack) → Prop
  | equal (f : Bool → Bool) : Applies op (onEqual op f)
  | concat : Applies op onConcat
  | ints {f : UInt64 → UInt64 → Except Fault UInt64} :
      (∀ a b, Reports (f a b)) → Applies op (onInts op f)

/-! ## Lemmas -/

namespace Reports

variable {α : Type}

theorem ok (a : α) : Reports (.ok a : Except Fault α) := by
  rintro e ⟨⟩

theorem error {e : Fault} (h : e.isReport = true) : Reports (.error e : Except Fault α) := by
  rintro _ ⟨⟩
  exact h

end Reports

/-! ### Arithmetic -/

namespace Arith

theorem reports_ofBool (p : Bool) : Reports (ofBool p) := .ok _

theorem reports_checked (n : Nat) : Reports (checked n) := by
  unfold checked
  split
  · exact .ok _
  · exact .error rfl

theorem reports_sub (a b : UInt64) : Reports (sub a b) := by
  unfold sub
  split
  · exact .ok _
  · exact .error rfl

theorem reports_div (a b : UInt64) : Reports (div a b) := by
  unfold div
  split
  · exact .error rfl
  · exact .ok _

theorem reports_mod (a b : UInt64) : Reports (mod a b) := by
  unfold mod
  split
  · exact .error rfl
  · exact .ok _

end Arith

theorem Stack.applies_binary (op : BinaryOp) : Applies op (binary op) := by
  cases op with
  | eq => exact .equal (·)
  | ne => exact .equal (!·)
  | concat => exact .concat
  | add => exact .ints fun _ _ => Arith.reports_checked _
  | mul => exact .ints fun _ _ => Arith.reports_checked _
  | sub => exact .ints Arith.reports_sub
  | div => exact .ints Arith.reports_div
  | mod => exact .ints Arith.reports_mod
  | lt => exact .ints fun a b => Arith.reports_ofBool (a < b)
  | gt => exact .ints fun a b => Arith.reports_ofBool (b < a)
  | le => exact .ints fun a b => Arith.reports_ofBool (a ≤ b)
  | ge => exact .ints fun a b => Arith.reports_ofBool (b ≤ a)
  | and => exact .ints fun a b => Arith.reports_ofBool (a != 0 && b != 0)
  | or => exact .ints fun a b => Arith.reports_ofBool (a != 0 || b != 0)

/-! ### Fields and accounts -/

namespace Environment

variable (env : Environment)

theorem reports_memberField (index : Nat) (f : TxnField) : Reports (env.memberField index f) := by
  unfold memberField
  split
  · intro e he
    unfold Transaction.readField at he
    cases f <;> dsimp only at he
    all_goals first
      | cases he
      | (split at he <;> cases he; rfl)
  · exact .error rfl

theorem reports_account (operand : Value) : Reports (env.account operand) := by
  unfold account
  dsimp only
  split
  · exact .ok _
  · exact .error rfl

theorem reports_checkOwnApp (appId : UInt64) : Reports (env.checkOwnApp appId) := by
  unfold checkOwnApp
  split
  · exact .ok _
  · exact .error rfl

end Environment

end ContractBench
