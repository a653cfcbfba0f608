import ContractBench.Expr.Basic
import ContractBench.Machine.Run
/-!
# Evaluating trees

What a tree means, read off the tree itself. Operands are evaluated from left to right, both sides
of `&&` and `||` too; operators work on exact integers and fail if the result is not a word. Writes
and logs take effect in order. A sequence stops at the first item that stops; a choice evaluates
its tests in order up to the first that is not zero and then the body of that arm.

    (e₁ op e₂).eval = do let a ← e₁.eval; let b ← e₂.eval; op.apply a b
-/

namespace ContractBench

/-! ## Operators -/

/-- An exact integer as a word, if it is one. -/
def Value.ofExact (n : Int) : Except Fault Value :=
  if n < 0 then .error .integerUnderflow
  else if n < UInt64.size then .ok (.int (UInt64.ofNat n.toNat))
  else .error .integerOverflow

namespace BinaryOp

/-- The error for operands an operator does not take. -/
def mismatch (op : BinaryOp) : Fault := .typeMismatch (.binary op) op.operandType?

/-- An operator on two words. -/
def onWords (op : BinaryOp) (a b : UInt64) : Except Fault Value :=
  match op with
  | .eq => .ok (.ofBool (a = b))
  | .ne => .ok (.ofBool (a ≠ b))
  | .lt => .ok (.ofBool (a.toNat < b.toNat))
  | .gt => .ok (.ofBool (b.toNat < a.toNat))
  | .le => .ok (.ofBool (a.toNat ≤ b.toNat))
  | .ge => .ok (.ofBool (b.toNat ≤ a.toNat))
  | .add => Value.ofExact (a.toNat + b.toNat)
  | .sub => Value.ofExact (a.toNat - b.toNat)
  | .mul => Value.ofExact (a.toNat * b.toNat)
  | .div => if b.toNat = 0 then .error .divisionByZero else Value.ofExact (a.toNat / b.toNat)
  | .mod => if b.toNat = 0 then .error .divisionByZero else Value.ofExact (a.toNat % b.toNat)
  | .and => .ok (.ofBool (a ≠ 0 ∧ b ≠ 0))
  | .or => .ok (.ofBool (a ≠ 0 ∨ b ≠ 0))
  | .concat => .error op.mismatch

/-- An operator on two byte strings. -/
def onBytes (op : BinaryOp) (a b : Bytes) : Except Fault Value :=
  match op with
  | .eq => .ok (.ofBool (a = b))
  | .ne => .ok (.ofBool (a ≠ b))
  | .concat =>
    if maxBytesLength < a.length + b.length then
      .error (.bytesTooLong (a.length + b.length) maxBytesLength)
    else .ok (.bytes (a ++ b))
  | _ => .error op.mismatch

def apply (op : BinaryOp) : (left right : Value) → Except Fault Value
  | .int a, .int b => op.onWords a b
  | .bytes a, .bytes b => op.onBytes a b
  | _, _ => .error op.mismatch

end BinaryOp

def UnaryOp.apply : UnaryOp → Value → Except Fault Value
  | .not, .int a => .ok (.ofBool (a = 0))
  | .len, .bytes b => .ok (.int (UInt64.ofNat b.length))
  | .itob, .int a => .ok (.bytes (Bytes.ofWord a))
  | .btoi, .bytes b =>
    if 8 < b.length then .error (.bytesTooLong b.length 8) else .ok (.int b.toWord)
  | op, _ => .error (.typeMismatch (.unary op) (some op.operandType))

/-! ## Effects -/

/-- What a run did so far. -/
structure Effects where
  /-- Logged entries, in order. -/
  logs : List Bytes := []
  /-- Writes not yet committed. -/
  pending : Delta := {}
deriving DecidableEq, Inhabited

namespace Effects

variable (env : Environment)

/-- State as the run sees it. -/
def view (fx : Effects) : View := ⟨env.state, fx.pending⟩

/-- Length of all entries together. -/
def logSize (fx : Effects) : Nat := fx.logs.flatten.length

/-- One more entry, within the limits. -/
def log (fx : Effects) : Value → Except Fault Effects
  | .int _ => .error (.typeMismatch .log (some .bytes))
  | .bytes b =>
    if maxLogEntries ≤ fx.logs.length ∨ maxLogBytes < fx.logSize + b.length then
      .error .logLimitExceeded
    else .ok { fx with logs := fx.logs ++ [b] }

def getGlobal (fx : Effects) (key : Bytes) : Except Fault (Option Value) :=
  .ok ((fx.view env).getGlobal? key)

def getLocal (fx : Effects) (account : Value) (key : Bytes) : Except Fault (Option Value) := do
  let a ← env.account account
  return (fx.view env).getLocal? a key

def putGlobal (fx : Effects) (key : Bytes) (value : Value) : Except Fault Effects :=
  match (fx.view env).putGlobal key value with
  | .ok v => .ok { fx with pending := v.pending }
  | .error e => .error (.state e)

def putLocal (fx : Effects) (account : Value) (key : Bytes) (value : Value) :
    Except Fault Effects := do
  let a ← env.account account
  if !env.mayHoldLocal a then throw (.notOptedIn a)
  match (fx.view env).putLocal a key value with
  | .ok v => return { fx with pending := v.pending }
  | .error e => throw (.state e)

end Effects

/-! ## Trees -/

/-- What keeps evaluation from going on. -/
inductive Stop where
  | verdict (approve : Bool) (effects : Effects)
  | fault (fault : Fault)
deriving DecidableEq

namespace Stop

/-- A failure ends evaluation. -/
def orFault {α : Type} : Except Fault α → Except Stop α
  | .ok a => .ok a
  | .error e => .error (.fault e)

/-- The value of an operand, which a statement does not have. -/
def value : Option Value → Except Stop Value
  | some v => .ok v
  | none => .error (.fault .stackUnderflow)

/-- Whether a test holds. -/
def holds : Value → Except Stop Bool
  | .int n => .ok (n != 0)
  | .bytes _ => .error (.fault (.typeMismatch .bnz (some .int)))

end Stop

namespace Expr

open Stop

variable (env : Environment)

/-- The transaction field a node reads. -/
def readField (source : TxnSource) (field : TxnField) : Except Fault Value :=
  match source with
  | .current => env.memberField env.index field
  | .member index => env.memberField index.toNat field

mutual

/-- The effects behind a node and the value it leaves, if any. -/
def eval (fx : Effects) (e : Expr) : Except Stop (Effects × Option Value) :=
  match e with
  | .int n => .ok (fx, some (.int n))
  | .bytes b => .ok (fx, some (.bytes b))
  | .named c => .ok (fx, some (.int c.value))
  | .txn source field => do
    let v ← orFault (readField env source field)
    return (fx, some v)
  | .global field => .ok (fx, some (env.globalField field))
  | .unary op operand => do
    let (fx, a) ← eval fx operand
    let v ← orFault (op.apply (← value a))
    return (fx, some v)
  | .binary op left right => do
    let (fx, a) ← eval fx left
    let (fx, b) ← eval fx right
    let v ← orFault (op.apply (← value a) (← value b))
    return (fx, some v)
  | .globalGet key type => do
    let found ← orFault (fx.getGlobal env key)
    return (fx, some (found.getD (.zero type)))
  | .localGet account key type => do
    let (fx, a) ← eval fx account
    let found ← orFault (fx.getLocal env (← value a) key)
    return (fx, some (found.getD (.zero type)))
  | .globalPut key value => do
    let (fx, v) ← eval fx value
    let fx ← orFault (fx.putGlobal env key (← Stop.value v))
    return (fx, none)
  | .localPut account key value => do
    let (fx, a) ← eval fx account
    let (fx, v) ← eval fx value
    let fx ← orFault (fx.putLocal env (← Stop.value a) key (← Stop.value v))
    return (fx, none)
  | .log value => do
    let (fx, v) ← eval fx value
    let fx ← orFault (fx.log (← Stop.value v))
    return (fx, none)
  | .verdict approve => .error (.verdict approve fx)
  | .seq items => evalItems fx items
  | .cond arms => evalArms fx arms
termination_by structural e

/-- Items in order; the value is that of the last. -/
def evalItems (fx : Effects) (items : List Expr) : Except Stop (Effects × Option Value) :=
  match items with
  | [] => .ok (fx, none)
  | e :: rest => do
    let (fx, v) ← eval fx e
    if rest.isEmpty then return (fx, v) else evalItems fx rest
termination_by structural items

/-- The body of the first arm whose test holds; without one, failure. -/
def evalArms (fx : Effects) (arms : List (Expr × Expr)) : Except Stop (Effects × Option Value) :=
  match arms with
  | [] => .error (.fault .explicitErr)
  | (test, body) :: rest => do
    let (fx, v) ← eval fx test
    if ← holds (← value v) then eval fx body else evalArms fx rest
termination_by structural arms

end

/-- What a program comes to: its verdict, and the logs and writes of one that approves. -/
structure Verdict where
  approved : Bool
  logs : List Bytes
  delta : Delta
deriving DecidableEq

/-- The verdict of a tree, or its failure. -/
def evaluate (root : Expr) : Except Fault Verdict :=
  match root.eval env {} with
  | .error (.verdict true fx) => .ok ⟨true, fx.logs, fx.pending⟩
  | .error (.verdict false _) => .ok ⟨false, [], {}⟩
  | .error (.fault e) => .error e
  | .ok (_, v) => .error (.invalidFinalStack v.toList.length)

/-! ## Stack height -/

mutual

/-- The most values a node can have on the stack while it runs. -/
def height (e : Expr) : Nat :=
  match e with
  | .unary _ operand => max 1 (height operand)
  | .binary _ left right => max (height left) (height right + 1)
  | .globalGet _ .int => 1
  | .globalGet _ .bytes => 2
  | .localGet account _ .int => max (height account) 2
  | .localGet account _ .bytes => max (height account) 3
  | .globalPut _ value => height value + 1
  | .localPut account _ value => max (height account) (height value + 2)
  | .log value => height value
  | .seq items => itemsHeight items
  | .cond arms => armsHeight arms
  | _ => 1
termination_by structural e

def itemsHeight (items : List Expr) : Nat :=
  match items with
  | [] => 0
  | e :: rest => max (height e) (itemsHeight rest)
termination_by structural items

def armsHeight (arms : List (Expr × Expr)) : Nat :=
  match arms with
  | [] => 0
  | (test, body) :: rest => max (height test) (max (height body) (armsHeight rest))
termination_by structural arms

end

end Expr

end ContractBench
