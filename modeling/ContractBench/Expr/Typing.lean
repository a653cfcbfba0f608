import ContractBench.Expr.Basic
import ContractBench.Success
/-!
# Typing rules

`Expr.infer` checks one node against the types of its children and gives the node's own type and
termination; `Expr.checked` admits a node only if that succeeds. What is inferred is what the tree
says:

    e.infer node = .ok (t, b) → t = e.type ∧ b = e.terminates          (eq_of_infer)
-/

namespace ContractBench

/-- Why a tree is refused. A node is named by its path. -/
inductive CompileError where
  | typeMismatch (node : String) (expected found : ExprType)
  | missingValue (node : String)
  | unreachableTerminal (node : String)
  | stackImbalance (node : String) (expected actual : Int)
  | unsupportedAtVersion (node op : String) (required available : UInt8)
  | invalidVersion (version : UInt8)
  | undefinedLabel (number : Nat)
deriving DecidableEq

def CompileError.message : CompileError → String
  | .typeMismatch node expected found =>
    "Type mismatch at " ++ node ++ ": expected " ++ expected.name ++ ", found " ++ found.name
  | .missingValue node =>
    "Missing value at " ++ node ++ ": a statement cannot be used as a value"
  | .unreachableTerminal node => "Path through " ++ node ++ " ends without approve or reject"
  | .stackImbalance node expected actual =>
    "Stack imbalance at " ++ node ++ ": expected depth change " ++ toString expected ++
      ", got " ++ toString actual
  | .unsupportedAtVersion node op required available =>
    "'" ++ op ++ "' at " ++ node ++ " requires version " ++ toString required ++
      ", program targets version " ++ toString available
  | .invalidVersion version =>
    "Invalid program version " ++ toString version ++ " (supported: 1 to 8)"
  | .undefinedLabel number => "Jump to undefined label #" ++ toString number

namespace Expr

/-- The value type a node leaves, which it must. -/
def expectValue (e : Expr) (node : String) : Except CompileError ValueType :=
  match e.type with
  | .value t => .ok t
  | .statement => .error (.missingValue node)

/-- That a node leaves a value of a type. -/
def expectType (e : Expr) (t : ValueType) (node : String) : Except CompileError Unit := do
  let found ← e.expectValue node
  if found = t then return ()
  else throw (.typeMismatch node (.value t) (.value found))

/-- That an operator takes operands of two types: they agree and are what it asks for. -/
def checkOperands (node : String) (op : BinaryOp) (left right : ValueType) :
    Except CompileError Unit :=
  if left ≠ right then .error (.typeMismatch node (.value left) (.value right))
  else
    match op.operandType? with
    | some t => if left = t then .ok () else .error (.typeMismatch node (.value t) (.value left))
    | none => .ok ()

/-- The common type of the bodies that do not terminate; `seen` is that of earlier ones. -/
def inferArms (node : String) (seen : Option ExprType) :
    List (Expr × Expr) → Except CompileError (Option ExprType)
  | [] => .ok seen
  | (test, body) :: rest => do
    test.expectType .int node
    if body.terminates then inferArms node seen rest
    else
      match seen with
      | none => inferArms node (some body.type) rest
      | some t =>
        if t = body.type then inferArms node (some t) rest
        else throw (.typeMismatch node t body.type)

/-- The type and termination of a node whose children are typed; `node` names it in errors. -/
def infer (node : String) : Expr → Except CompileError (ExprType × Bool)
  | .int _ => .ok (.value .int, false)
  | .bytes _ => .ok (.value .bytes, false)
  | .named _ => .ok (.value .int, false)
  | .txn _ field => .ok (.value field.valueType, false)
  | .global field => .ok (.value field.valueType, false)
  | .unary op operand => do
    operand.expectType op.operandType node
    return (.value op.resultType, false)
  | .binary op left right => do
    checkOperands node op (← left.expectValue node) (← right.expectValue node)
    return (.value op.resultType, false)
  | .globalGet _ type => .ok (.value type, false)
  | .localGet account _ type => do
    account.expectType .bytes node
    return (.value type, false)
  | .globalPut _ value => do
    let _ ← value.expectValue node
    return (.statement, false)
  | .localPut account _ value => do
    account.expectType .bytes node
    let _ ← value.expectValue node
    return (.statement, false)
  | .log value => do
    value.expectType .bytes node
    return (.statement, false)
  | .verdict _ => .ok (.statement, true)
  | .seq items =>
    if items.any terminates then .ok (.statement, true)
    else .ok ((items.getLast?.map type).getD .statement, false)
  | .cond arms => do
    match ← inferArms node none arms with
    | some t => return (t, false)
    | none => return (.statement, true)

/-- The node, if its children fit together. -/
def checked (e : Expr) : Except CompileError Expr := do
  let _ ← e.infer e.describe
  return e

/-! ## Lemmas -/

theorem lastType_eq (items : List Expr) :
    lastType items = (items.getLast?.map type).getD .statement := by
  induction items with
  | nil => rfl
  | cons e rest ih =>
    cases rest with
    | nil => rfl
    | cons e' rest => rw [lastType, ih, List.getLast?_cons_cons]

/-- The type found for the arms is that seen before, or else the type of the first body that does
not terminate. -/
theorem eq_of_inferArms {node : String} {seen found : Option ExprType}
    {arms : List (Expr × Expr)} (h : inferArms node seen arms = .ok found) :
    (found.isNone = (seen.isNone && bodiesTerminate arms)) ∧
      found.getD (bodyType arms) = seen.getD (bodyType arms) ∧
        (found = none → bodyType arms = .statement) := by
  induction arms generalizing seen with
  | nil =>
    cases h
    simp [bodiesTerminate, bodyType]
  | cons arm rest ih =>
    obtain ⟨test, body⟩ := arm
    unfold inferArms at h
    cases ht : test.expectType .int node with
    | error e => simp [ht, bind, Except.bind] at h
    | ok u =>
      simp only [ht, bind, Except.bind] at h
      by_cases hb : body.terminates
      · simp only [hb, if_true] at h
        have := ih h
        simpa [bodiesTerminate, bodyType, hb] using this
      · cases seen with
        | none =>
          simp only [hb] at h
          have := ih h
          cases found <;> simp_all [bodiesTerminate, bodyType]
        | some t =>
          by_cases hty : t = body.type
          · simp only [hb, hty] at h
            have := ih h
            cases found <;> simp_all [bodiesTerminate, bodyType]
          · simp [hb, hty, throw, throwThe, MonadExceptOf.throw] at h

open Success in
/-- What is inferred for a node is what the tree says. -/
theorem eq_of_infer {node : String} {e : Expr} {t : ExprType} {b : Bool}
    (h : e.infer node = .ok (t, b)) : t = e.type ∧ b = e.terminates := by
  cases e with
  | int | bytes | named | txn | global | globalGet | verdict =>
    cases h
    exact ⟨rfl, rfl⟩
  | unary | log | localGet | globalPut =>
    obtain ⟨_, _, h⟩ := bind_eq_ok.1 h
    cases h
    exact ⟨rfl, rfl⟩
  | localPut =>
    obtain ⟨_, _, h⟩ := bind_eq_ok.1 h
    obtain ⟨_, _, h⟩ := bind_eq_ok.1 h
    cases h
    exact ⟨rfl, rfl⟩
  | binary =>
    obtain ⟨_, _, h⟩ := bind_eq_ok.1 h
    obtain ⟨_, _, h⟩ := bind_eq_ok.1 h
    obtain ⟨_, _, h⟩ := bind_eq_ok.1 h
    cases h
    exact ⟨rfl, rfl⟩
  | seq items =>
    unfold infer at h
    by_cases hi : items.any terminates
    · simp only [hi, if_true] at h
      cases h
      simp [type, terminates, anyTerminates_eq_any, hi]
    · simp only [hi] at h
      cases h
      simp [type, terminates, anyTerminates_eq_any, hi, lastType_eq]
  | cond arms =>
    obtain ⟨found, ha, h⟩ := bind_eq_ok.1 h
    obtain ⟨hn, hd, hs⟩ := eq_of_inferArms ha
    cases found with
    | none =>
      cases h
      exact ⟨(hs rfl).symm, by simpa [terminates] using hn⟩
    | some u =>
      cases h
      exact ⟨by simpa [type] using hd, by simpa [terminates] using hn⟩

end Expr

end ContractBench
