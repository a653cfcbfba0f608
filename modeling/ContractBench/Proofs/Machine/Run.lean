import ContractBench.Machine.Run
import ContractBench.Proofs.Machine.Step
/-!
# Runs of straight code

In straight code every jump goes forward. Each step of a run moves the program counter up by at
least what it costs, so the cost of a run that started at 0 never exceeds the number of
instructions:

    m.cost ≤ m.pc → m.pc ≤ size → one step → m'.cost ≤ m'.pc ∧ m'.pc ≤ size      (ahead_of_step)
-/

namespace ContractBench

namespace Executable

/-- Every jump goes to a later instruction, or behind the last one. -/
def Straight (e : Executable) : Prop :=
  ∀ a i, e.instructions[a]? = some i → i.op.immediateKind = .label →
    ∃ t, i.imm = .target t ∧ a < t ∧ t ≤ e.size

end Executable

namespace Machine

variable {env : Environment} {m m' : Machine} {i : Instruction}

/-- The program counter is ahead of the cost and within the program. -/
structure Ahead (env : Environment) (m : Machine) : Prop where
  cost_le : m.cost ≤ m.pc
  pc_le : m.pc ≤ env.program.size

theorem ahead_start (env : Environment) : Ahead env {} := ⟨Nat.le_refl 0, Nat.zero_le _⟩

theorem getElem?_of_next? (h : m.next? env = some i) :
    env.program.instructions[m.pc]? = some i := by
  unfold next? at h
  split at h
  · cases h
  · exact h

/-- There is an instruction only in front of the end of the program. -/
theorem pc_lt_of_next? (h : m.next? env = some i) : m.pc < env.program.size :=
  (List.getElem?_eq_some_iff.1 (getElem?_of_next? h)).1

/-- A step of straight code moves the program counter up by at least its cost. -/
theorem ahead_of_step (hs : env.program.Straight) (ha : Ahead env m) (hi : m.next? env = some i)
    (h : m.advance.exec env i = .ok m') : Ahead env m' ∧ m'.cost = m.cost + 1 := by
  have hmove := moves_of_exec h
  have hcost : m'.cost = m.cost + 1 := hmove.cost
  have hlt := pc_lt_of_next? hi
  have hle := ha.cost_le
  refine ⟨?_, hcost⟩
  rcases hmove.pc with hpc | ⟨hk, himm, hpc⟩
  · have hpc : m'.pc = m.pc + 1 := hpc
    constructor <;> omega
  · obtain ⟨t, ht, hgt, -⟩ := hs m.pc i (getElem?_of_next? hi) hk
    cases himm.symm.trans ht
    constructor <;> omega

end Machine

end ContractBench
