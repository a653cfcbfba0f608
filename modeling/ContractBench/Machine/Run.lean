import ContractBench.Machine.Step
/-!
# Runs

Every instruction costs 1, also one that fails. A run ends with a verdict, behind the last
instruction, with a fault, or when the next instruction would exceed the budget; the budget left is
what the recursion goes down on.
-/

namespace ContractBench

/-- What a run that ended without a fault hands back. -/
structure ExecutionResult where
  approved : Bool
  cost : Nat
  /-- Logged entries; none unless approved. -/
  logs : List Bytes
  /-- Writes to commit; none unless approved. -/
  delta : Delta
deriving DecidableEq, Inhabited

namespace Machine

variable (env : Environment)

/-- The instruction to execute next; none once there is a verdict or the program is over. -/
def next? (m : Machine) : Option Instruction :=
  match m.verdict with
  | some _ => none
  | none => env.program.instructions[m.pc]?

/-- The machine with its counters moved on for the next instruction. -/
def advance (m : Machine) : Machine := { m with cost := m.cost + 1, pc := m.pc + 1 }

/-- One step, if there is an instruction and it succeeds. -/
def step? (m : Machine) : Option Machine := do
  (m.advance.exec env (← m.next? env)).toOption

/-- The last machine of a run, or its fault, and the cost. At most `left` instructions run. -/
def runFor : Nat → Machine → Except Fault Machine × Nat
  | 0, m =>
    match m.next? env with
    | none => (.ok m, m.cost)
    | some _ => (.error (.costBudgetExceeded env.context.costBudget), m.cost + 1)
  | left + 1, m =>
    match m.next? env with
    | none => (.ok m, m.cost)
    | some i =>
      match m.advance.exec env i with
      | .ok m' => runFor left m'
      | .error e => (.error e, m.cost + 1)

/-- The verdict of a machine that has ended; without `return` one integer must be left. -/
def approved? (m : Machine) : Except Fault Bool :=
  match m.verdict, m.stack with
  | some b, _ => .ok b
  | none, [.int n] => .ok (n != 0)
  | none, s => .error (.invalidFinalStack s.length)

/-- What the last machine of a run hands back. -/
def finish (m : Machine) : Except Fault ExecutionResult := do
  if ← m.approved? then return ⟨true, m.cost, m.logs, m.pending⟩
  else return ⟨false, m.cost, [], {}⟩

end Machine

/-- The result of running the program of an environment, and the cost spent. -/
def Environment.run (env : Environment) : Except Fault ExecutionResult × Nat :=
  let (last, cost) := Machine.runFor env env.context.costBudget.toNat {}
  (last.bind Machine.finish, cost)

end ContractBench
