import ContractBench.Machine.Fault
/-!
# The stack and its operators

A stack is a list of values, top first. An operator takes its operands from the top, the right one
first, and checks the type of each when it takes it; equality takes both and then compares their
types.
-/

namespace ContractBench

abbrev Stack := List Value

namespace Stack

def push (s : Stack) (v : Value) : Except Fault Stack :=
  if maxStackSize ≤ s.length then .error .stackOverflow else .ok (v :: s)

def pop : Stack → Except Fault (Value × Stack)
  | [] => .error .stackUnderflow
  | v :: s => .ok (v, s)

/-- The top, which must be an integer. -/
def popInt (op : Opcode) : Stack → Except Fault (UInt64 × Stack)
  | [] => .error .stackUnderflow
  | .int n :: s => .ok (n, s)
  | .bytes _ :: _ => .error (.typeMismatch op (some .int))

/-- The top, which must be a byte string. -/
def popBytes (op : Opcode) : Stack → Except Fault (Bytes × Stack)
  | [] => .error .stackUnderflow
  | .bytes b :: s => .ok (b, s)
  | .int _ :: _ => .error (.typeMismatch op (some .bytes))

end Stack

/-! ## Arithmetic -/

namespace Arith

/-- A natural number as a word, unless it is too large. -/
def checked (n : Nat) : Except Fault UInt64 :=
  if n < UInt64.size then .ok (UInt64.ofNat n) else .error .integerOverflow

def ofBool (b : Bool) : Except Fault UInt64 := .ok (if b then 1 else 0)

def add (a b : UInt64) : Except Fault UInt64 := checked (a.toNat + b.toNat)

def sub (a b : UInt64) : Except Fault UInt64 :=
  if b ≤ a then .ok (a - b) else .error .integerUnderflow

def mul (a b : UInt64) : Except Fault UInt64 := checked (a.toNat * b.toNat)

def div (a b : UInt64) : Except Fault UInt64 :=
  if b = 0 then .error .divisionByZero else .ok (a / b)

def mod (a b : UInt64) : Except Fault UInt64 :=
  if b = 0 then .error .divisionByZero else .ok (a % b)

end Arith

/-! ## Operators -/

namespace Stack

/-- Two integers replaced by the result of a function. -/
def onInts (op : BinaryOp) (f : UInt64 → UInt64 → Except Fault UInt64) (s : Stack) :
    Except Fault Stack := do
  let (b, s) ← popInt (.binary op) s
  let (a, s) ← popInt (.binary op) s
  push s (.int (← f a b))

/-- Two values of one type compared. -/
def onEqual (op : BinaryOp) (f : Bool → Bool) (s : Stack) : Except Fault Stack := do
  let (b, s) ← pop s
  let (a, s) ← pop s
  if a.type ≠ b.type then throw (.typeMismatch (.binary op) none)
  push s (.ofBool (f (a == b)))

/-- Two byte strings joined, unless the result is too long. -/
def onConcat (s : Stack) : Except Fault Stack := do
  let (b, s) ← popBytes (.binary .concat) s
  let (a, s) ← popBytes (.binary .concat) s
  if maxBytesLength < a.length + b.length then
    throw (.bytesTooLong (a.length + b.length) maxBytesLength)
  push s (.bytes (a ++ b))

def binary (op : BinaryOp) (s : Stack) : Except Fault Stack :=
  match op with
  | .eq => onEqual .eq (·) s
  | .ne => onEqual .ne (!·) s
  | .lt => onInts .lt (fun a b => Arith.ofBool (a < b)) s
  | .gt => onInts .gt (fun a b => Arith.ofBool (b < a)) s
  | .le => onInts .le (fun a b => Arith.ofBool (a ≤ b)) s
  | .ge => onInts .ge (fun a b => Arith.ofBool (b ≤ a)) s
  | .add => onInts .add Arith.add s
  | .sub => onInts .sub Arith.sub s
  | .mul => onInts .mul Arith.mul s
  | .div => onInts .div Arith.div s
  | .mod => onInts .mod Arith.mod s
  | .and => onInts .and (fun a b => Arith.ofBool (a != 0 && b != 0)) s
  | .or => onInts .or (fun a b => Arith.ofBool (a != 0 || b != 0)) s
  | .concat => onConcat s

def unary (op : UnaryOp) (s : Stack) : Except Fault Stack := do
  match op with
  | .not =>
    let (a, s) ← popInt (.unary .not) s
    push s (.ofBool (a == 0))
  | .len =>
    let (b, s) ← popBytes (.unary .len) s
    push s (.int (UInt64.ofNat b.length))
  | .itob =>
    let (a, s) ← popInt (.unary .itob) s
    push s (.bytes (Bytes.ofWord a))
  | .btoi =>
    let (b, s) ← popBytes (.unary .btoi) s
    if 8 < b.length then throw (.bytesTooLong b.length 8)
    push s (.int b.toWord)

/-- What a look-up leaves: the value and 1, or 0 and 0. -/
def pushLookup (s : Stack) : Option Value → Except Fault Stack
  | some v => do (← s.push v).push (.int 1)
  | none => do (← s.push (.int 0)).push (.int 0)

end Stack

end ContractBench
