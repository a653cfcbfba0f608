import ContractBench.Proofs.Machine.Metered
import ContractBench.Registry
/-!
# Runs within two budgets

No instruction sees the budget, so runs within two budgets go through the same machines until the
smaller one is used up. A run that ended on its own is the run within every budget that has room for
its attempts:

    m.exec (env.withBudget b) i = m.exec env i                                (exec_withBudget)
    Runs (env.withBudget b) m ms last → m.cost + ms.length ≤ b'.toNat → (last is not the end of b) →
      Runs (env.withBudget b') m ms last                                       (Runs.withBudget)
    (env.withBudget b).run.2 ≤ b'.toNat → (the run is not the end of b) →
      (env.withBudget b').run = (env.withBudget b).run                      (run_withBudget_eq)
    b ≤ b' → (the run within b is not the end of b) →
      runProgram program group index state (context.withBudget b') =
        runProgram program group index state (context.withBudget b)
                                                                (runProgram_within_larger_budget)
-/

namespace ContractBench

/-! ## Algorithm -/

/-- The same context with another cost budget. -/
def Context.withBudget (context : Context) (b : UInt64) : Context :=
  { context with costBudget := b }

def Environment.withBudget (env : Environment) (b : UInt64) : Environment :=
  { env with context := env.context.withBudget b }

/-! ## Lemmas -/

namespace Machine

variable {env : Environment} {b b' : UInt64} {m : Machine} {ms : List Machine}
  {last : Except Fault Machine}

theorem exec_withBudget (env : Environment) (b : UInt64) (m : Machine) (i : Instruction) :
    m.exec (env.withBudget b) i = m.exec env i := by
  unfold exec
  cases i.op <;> rfl

/-- A run that does not end because its budget is used up is also the run within a budget that has
room for its attempts. -/
theorem Runs.withBudget (h : Runs (env.withBudget b) m ms last)
    (hroom : m.cost + ms.length ≤ b'.toNat) (hends : last ≠ .error (.costBudgetExceeded b)) :
    Runs (env.withBudget b') m ms last := by
  induction h with
  | ends hn => exact .ends hn
  | exceeds => exact absurd rfl hends
  | faults hn _ hx =>
    rw [exec_withBudget] at hx
    exact .faults hn hroom (by rwa [exec_withBudget])
  | @goesOn m m' i ms last hn _ hx _ ih =>
    have hcost : m'.cost = m.cost + 1 := cost_of_exec hx
    rw [List.length_cons] at hroom
    have hlt : m.cost < b'.toNat := by omega
    rw [exec_withBudget] at hx
    exact .goesOn hn hlt (by rwa [exec_withBudget]) (ih (by omega) hends)

end Machine

namespace Environment

variable {env : Environment} {b b' : UInt64}

/-- A run that does not end because its budget is used up is the run within every budget that its
cost fits in. -/
theorem run_withBudget_eq (hroom : (env.withBudget b).run.2 ≤ b'.toNat)
    (hends : (env.withBudget b).run.1 ≠ .error (.costBudgetExceeded b)) :
    (env.withBudget b').run = (env.withBudget b).run := by
  obtain ⟨ms, last, hruns, hrun⟩ := Machine.runs_run (env.withBudget b)
  obtain ⟨ms', last', hruns', hrun'⟩ := Machine.runs_run (env.withBudget b')
  rw [hrun] at hroom hends
  have hstart : ({} : Machine).cost + ms.length ≤ b'.toNat := (Nat.zero_add _).symm ▸ hroom
  have hlast : last ≠ .error (.costBudgetExceeded b) := by
    rintro rfl
    exact hends rfl
  obtain ⟨rfl, rfl⟩ := (hruns.withBudget hstart hlast).unique hruns'
  rw [hrun, hrun']

/-- A run within a larger budget that costs no more than the smaller one is the run within that. -/
theorem run_withBudget_eq_of_cost_le (h : b ≤ b') (hroom : (env.withBudget b').run.2 ≤ b.toNat) :
    (env.withBudget b).run = (env.withBudget b').run := by
  have hle : b.toNat ≤ b'.toNat := h
  refine run_withBudget_eq hroom fun he => ?_
  have hspent : (env.withBudget b').run.2 = b'.toNat + 1 := (Machine.cost_run _).2.2 he
  omega

/-- A run that its budget did not end is the run within every larger one. -/
theorem run_withBudget_eq_of_ends (h : b ≤ b')
    (hends : (env.withBudget b).run.1 ≠ .error (.costBudgetExceeded b)) :
    (env.withBudget b').run = (env.withBudget b).run := by
  have hle : b.toNat ≤ b'.toNat := h
  have hcost : (env.withBudget b).run.2 ≤ b.toNat + 1 := (Machine.cost_run _).1
  have hne : (env.withBudget b).run.2 ≠ b.toNat + 1 :=
    fun hspent => hends ((Machine.cost_run _).2.1 hspent)
  exact run_withBudget_eq (by omega) hends

/-- A run that its budget ended costs more than that within a larger one. -/
theorem lt_cost_of_exceeds (h : b ≤ b')
    (he : (env.withBudget b).run.1 = .error (.costBudgetExceeded b)) :
    b.toNat < (env.withBudget b').run.2 := by
  refine Nat.lt_of_not_le fun hroom => ?_
  have hspent : (env.withBudget b).run.2 = b.toNat + 1 := (Machine.cost_run _).2.2 he
  rw [run_withBudget_eq_of_cost_le h hroom] at hspent
  omega

/-- An index outside the group ends in the same error within every budget. -/
theorem forMember_withBudget (program : Executable) (group : Group) (index : Nat)
    (state : AppState) (context : Context) :
    (∃ env : Environment, ∀ b,
      forMember program group index state (context.withBudget b) = .ok (env.withBudget b)) ∨
    ∀ b, forMember program group index state (context.withBudget b) =
      .error (.groupIndexOutOfRange index group.size) := by
  by_cases h : index < group.members.length
  · exact .inl ⟨⟨program, group, index, h, state, context⟩, fun _ => dif_pos h⟩
  · exact .inr fun _ => dif_neg h

end Environment

/-! ## A countdown -/

/-- A program that counts down from 2 and goes back to the top of its loop in between. -/
def countdown : Executable :=
  ⟨1, [.int 2, .int 1, .plain (.binary .sub), .plain .dup, ⟨.bnz, .target 1⟩, .plain .pop, .int 1]⟩

/-- The run of the countdown within a budget. -/
def runCountdown (b : UInt64) : Except Fault ExecutionResult × Nat :=
  Registry.runProgram countdown (.single (.appCall .zero 1 .noOp)) 0 {} (({} : Context).withBudget b)

/-! ## Top theorem -/

/-- A larger budget never changes a run that fitted in the smaller one: a run that the smaller one did
not end has the same result and cost within the larger one, a run that it ended costs more than it
there, and a run within the larger one that costs no more than the smaller one is the run within the
smaller one. -/
theorem Registry.runProgram_within_larger_budget (program : Executable) (group : Group)
    (index : Nat) (state : AppState) (context : Context) {b b' : UInt64} (h : b ≤ b') :
    ((runProgram program group index state (context.withBudget b)).1 ≠
        .error (.costBudgetExceeded b) →
      runProgram program group index state (context.withBudget b') =
        runProgram program group index state (context.withBudget b)) ∧
    ((runProgram program group index state (context.withBudget b)).1 =
        .error (.costBudgetExceeded b) →
      b.toNat < (runProgram program group index state (context.withBudget b')).2) ∧
    ((runProgram program group index state (context.withBudget b')).2 ≤ b.toNat →
      runProgram program group index state (context.withBudget b) =
        runProgram program group index state (context.withBudget b')) := by
  unfold runProgram
  rcases Environment.forMember_withBudget program group index state context with
    ⟨env, hfor⟩ | hfor
  · rw [hfor, hfor]
    exact ⟨Environment.run_withBudget_eq_of_ends h, Environment.lt_cost_of_exceeds h,
      Environment.run_withBudget_eq_of_cost_le h⟩
  · rw [hfor, hfor]
    exact ⟨fun _ => rfl, nofun, fun _ => rfl⟩

/-- The countdown costs 11. Within 11 and within 20 it is the same run; within 10 it does not end,
and so it costs more than 10 within 11. -/
theorem runProgram_within_larger_budget_countdown :
    (11 : UInt64) ≤ 20 ∧ runCountdown 11 = (.ok ⟨true, 11, [], {}⟩, 11) ∧
      runCountdown 20 = runCountdown 11 ∧
    (10 : UInt64) ≤ 11 ∧ (runCountdown 10).1 = .error (.costBudgetExceeded 10) ∧
      10 < (runCountdown 11).2 := by
  have hfits : runCountdown 11 = (.ok ⟨true, 11, [], {}⟩, 11) := rfl
  have hends : (runCountdown 10).1 = .error (.costBudgetExceeded 10) := rfl
  have hne : (runCountdown 11).1 ≠ .error (.costBudgetExceeded 11) := by
    rw [hfits]
    exact nofun
  have hup : (11 : UInt64) ≤ 20 := by decide
  have hjust : (10 : UInt64) ≤ 11 := by decide
  exact ⟨hup, hfits, (Registry.runProgram_within_larger_budget _ _ _ _ _ hup).1 hne, hjust, hends,
    (Registry.runProgram_within_larger_budget _ _ _ _ _ hjust).2.1 hends⟩

end ContractBench
