import ContractBench.Machine.Environment
import ContractBench.Machine.Stack
/-!
# One instruction

A machine is what a run changes. `Machine.exec` says what one instruction does; the program counter
already stands behind it.
-/

namespace ContractBench

structure Machine where
  /-- Index of the next instruction. -/
  pc : Nat := 0
  /-- Instructions attempted so far. -/
  cost : Nat := 0
  stack : Stack := []
  /-- Logged entries, in order. -/
  logs : List Bytes := []
  /-- Length of all entries together. -/
  logSize : Nat := 0
  /-- Writes not yet committed. -/
  pending : Delta := {}
  verdict : Option Bool := none
deriving DecidableEq, Inhabited

namespace Machine

variable (env : Environment)

/-- State as the run sees it. -/
def view (m : Machine) : View := ⟨env.state, m.pending⟩

def push (m : Machine) (v : Value) : Except Fault Machine := do
  return { m with stack := ← m.stack.push v }

/-! ## Constants and fields -/

def constant (m : Machine) (i : Instruction) : Except Fault Machine :=
  match i.op, i.imm with
  | .int, .uint value => m.push (.int value)
  | .int, .named c => m.push (.int c.value)
  | .byte, .bytes b => m.push (.bytes b)
  | .txn, .txn f => do m.push (← env.memberField env.index f)
  | .gtxn, .gtxn index f => do m.push (← env.memberField index.toNat f)
  | .global, .global f => m.push (env.globalField f)
  | _, _ => .error (.malformedInstruction i)

/-! ## Control -/

/-- The target of a jump; behind the last instruction is allowed. -/
def jumpTarget (i : Instruction) : Except Fault Nat :=
  match i.imm with
  | .target t => if t ≤ env.program.size then .ok t else .error (.invalidJump i)
  | _ => .error (.invalidJump i)

/-- A jump that is taken if the top satisfies a condition. -/
def branch (m : Machine) (i : Instruction) (taken : UInt64 → Bool) : Except Fault Machine := do
  let target ← jumpTarget env i
  let (n, s) ← m.stack.popInt i.op
  return { m with stack := s, pc := if taken n then target else m.pc }

/-! ## Log -/

def log (m : Machine) : Except Fault Machine := do
  let (b, s) ← m.stack.popBytes .log
  if maxLogEntries ≤ m.logs.length ∨ maxLogBytes < m.logSize + b.length then
    throw .logLimitExceeded
  return { m with stack := s, logs := m.logs ++ [b], logSize := m.logSize + b.length }

/-! ## State -/

/-- The account an operand on top names. -/
def popAccount (s : Stack) : Except Fault (Address × Stack) := do
  let (v, s) ← s.pop
  return (← env.account v, s)

def globalGet (m : Machine) : Except Fault Machine := do
  let (key, s) ← m.stack.popBytes .appGlobalGet
  return { m with stack := ← s.push (((m.view env).getGlobal? key).getD (.int 0)) }

def globalGetEx (m : Machine) : Except Fault Machine := do
  let (key, s) ← m.stack.popBytes .appGlobalGetEx
  let (app, s) ← s.popInt .appGlobalGetEx
  env.checkOwnApp app
  return { m with stack := ← s.pushLookup ((m.view env).getGlobal? key) }

def globalPut (m : Machine) : Except Fault Machine := do
  let (value, s) ← m.stack.pop
  let (key, s) ← s.popBytes .appGlobalPut
  match (m.view env).putGlobal key value with
  | .ok v => return { m with stack := s, pending := v.pending }
  | .error e => throw (.state e)

def localGet (m : Machine) : Except Fault Machine := do
  let (key, s) ← m.stack.popBytes .appLocalGet
  let (account, s) ← popAccount env s
  return { m with stack := ← s.push (((m.view env).getLocal? account key).getD (.int 0)) }

def localGetEx (m : Machine) : Except Fault Machine := do
  let (key, s) ← m.stack.popBytes .appLocalGetEx
  let (app, s) ← s.popInt .appLocalGetEx
  let (account, s) ← popAccount env s
  env.checkOwnApp app
  return { m with stack := ← s.pushLookup ((m.view env).getLocal? account key) }

def localPut (m : Machine) : Except Fault Machine := do
  let (value, s) ← m.stack.pop
  let (key, s) ← s.popBytes .appLocalPut
  let (account, s) ← popAccount env s
  if !env.mayHoldLocal account then throw (.notOptedIn account)
  match (m.view env).putLocal account key value with
  | .ok v => return { m with stack := s, pending := v.pending }
  | .error e => throw (.state e)

/-! ## All instructions -/

/-- The machine after an instruction. -/
def exec (m : Machine) (i : Instruction) : Except Fault Machine :=
  match i.op with
  | .int | .byte | .txn | .gtxn | .global => m.constant env i
  | .binary op => do return { m with stack := ← m.stack.binary op }
  | .unary op => do return { m with stack := ← m.stack.unary op }
  | .pop => do return { m with stack := (← m.stack.pop).2 }
  | .dup => do m.push (← m.stack.pop).1
  | .bnz => m.branch env i (· != 0)
  | .bz => m.branch env i (· == 0)
  | .jump => do return { m with pc := ← jumpTarget env i }
  | .err => .error .explicitErr
  | .ret => do
    let (n, s) ← m.stack.popInt .ret
    return { m with stack := s, verdict := some (n != 0) }
  | .log => m.log
  | .appGlobalGet => m.globalGet env
  | .appGlobalGetEx => m.globalGetEx env
  | .appGlobalPut => m.globalPut env
  | .appLocalGet => m.localGet env
  | .appLocalGetEx => m.localGetEx env
  | .appLocalPut => m.localPut env

end Machine

end ContractBench
