import ContractBench.Proofs.Machine.Exchange
import ContractBench.Proofs.Machine.Run
import Mathlib.Algebra.GroupWithZero.Nat
/-!
# Runs are metered

A run attempts one instruction after the other while there is one and no verdict, and fails instead
of going over its budget. `Machine.Runs` says so step by step, with the machine in front of each
attempt; there is always exactly one such run, and it is the one that `Environment.run` computes.
Every machine on the way keeps the limits of the program, the stack and the log:

    ∃ ms last, Runs env {} ms last ∧ env.run = (last.bind finish, ms.length)       (runs_run)
    WithinLimits env m → m.exec env i = .ok m' → WithinLimits env m'           (withinLimits_exec)
-/

namespace ContractBench

namespace Machine

/-! ## Algorithm -/

/-- A run from a machine: the machines in front of each instruction that is attempted, in order, and
the last machine or the fault that the run ends with. -/
inductive Runs (env : Environment) : Machine → List Machine → Except Fault Machine → Prop
  | ends {m : Machine} : m.next? env = none → Runs env m [] (.ok m)
  | exceeds {m : Machine} {i : Instruction} :
      m.next? env = some i → env.context.costBudget.toNat ≤ m.cost →
        Runs env m [m] (.error (.costBudgetExceeded env.context.costBudget))
  | faults {m : Machine} {i : Instruction} {e : Fault} :
      m.next? env = some i → m.cost < env.context.costBudget.toNat →
        m.advance.exec env i = .error e → Runs env m [m] (.error e)
  | goesOn {m m' : Machine} {i : Instruction} {ms : List Machine} {last : Except Fault Machine} :
      m.next? env = some i → m.cost < env.context.costBudget.toNat →
        m.advance.exec env i = .ok m' → Runs env m' ms last → Runs env m (m :: ms) last

/-- The machines a run comes to, step by step from the start, if its budget is large enough. -/
inductive Reached (env : Environment) : Machine → Prop
  | start : Reached env {}
  | step {m m' : Machine} : Reached env m → m.step? env = some m' → Reached env m'

/-- The limits of the program, the stack and the log. -/
structure WithinLimits (env : Environment) (m : Machine) : Prop where
  pc_le : m.pc ≤ env.program.size
  stack_le : m.stack.length ≤ maxStackSize
  logs_le : m.logs.length ≤ maxLogEntries
  logSize_eq : m.logSize = (m.logs.map List.length).sum
  logSize_le : m.logSize ≤ maxLogBytes

/-! ## Lemmas -/

variable {env : Environment} {m m' : Machine} {i : Instruction} {ms : List Machine}
  {last : Except Fault Machine}

theorem cost_of_exec (h : m.advance.exec env i = .ok m') : m'.cost = m.cost + 1 :=
  (moves_of_exec h).cost

theorem step?_eq_some :
    m.step? env = some m' ↔ ∃ i, m.next? env = some i ∧ m.advance.exec env i = .ok m' := by
  unfold step?
  cases m.next? env with
  | none => simp
  | some i =>
    cases hx : m.advance.exec env i with
    | error e => simp [hx, Except.toOption]
    | ok m'' => simp [hx, Except.toOption]

/-- What holds at the start and is kept by every instruction that succeeds holds of all machines that
are reached. -/
theorem Reached.invariant {P : Machine → Prop} (h : Reached env m) (hstart : P {})
    (hstep : ∀ m i m', P m → m.next? env = some i → m.advance.exec env i = .ok m' → P m') : P m := by
  induction h with
  | start => exact hstart
  | step _ hs ih =>
    obtain ⟨i, hn, hx⟩ := step?_eq_some.1 hs
    exact hstep _ _ _ ih hn hx

namespace Runs

/-! ### The one run -/

/-- There is one run only. -/
theorem unique {ms' : List Machine} {last' : Except Fault Machine} (h : Runs env m ms last)
    (h' : Runs env m ms' last') : ms = ms' ∧ last = last' := by
  induction h generalizing ms' last' with
  | ends hn =>
    cases h' with
    | ends => exact ⟨rfl, rfl⟩
    | exceeds hn' | faults hn' | goesOn hn' => cases hn.symm.trans hn'
  | exceeds hn hle =>
    cases h' with
    | ends hn' => cases hn.symm.trans hn'
    | exceeds => exact ⟨rfl, rfl⟩
    | faults _ hlt | goesOn _ hlt => exact absurd hle (Nat.not_le.2 hlt)
  | faults hn hlt hx =>
    cases h' with
    | ends hn' => cases hn.symm.trans hn'
    | exceeds _ hle => exact absurd hle (Nat.not_le.2 hlt)
    | faults hn' _ hx' =>
      cases hn.symm.trans hn'
      cases hx.symm.trans hx'
      exact ⟨rfl, rfl⟩
    | goesOn hn' _ hx' =>
      cases hn.symm.trans hn'
      cases hx.symm.trans hx'
  | goesOn hn hlt hx _ ih =>
    cases h' with
    | ends hn' => cases hn.symm.trans hn'
    | exceeds _ hle => exact absurd hle (Nat.not_le.2 hlt)
    | faults hn' _ hx' =>
      cases hn.symm.trans hn'
      cases hx.symm.trans hx'
    | goesOn hn' _ hx' hruns =>
      cases hn.symm.trans hn'
      cases hx.symm.trans hx'
      obtain ⟨rfl, rfl⟩ := ih hruns
      exact ⟨rfl, rfl⟩

/-! ### Cost -/

/-- A run that starts within its budget attempts one instruction more than is left of it at most,
and does so exactly if it fails for that reason. -/
theorem length_le (h : Runs env m ms last) (hm : m.cost ≤ env.context.costBudget.toNat) :
    m.cost + ms.length ≤ env.context.costBudget.toNat + 1 ∧
      (m.cost + ms.length = env.context.costBudget.toNat + 1 ↔
        last = .error (.costBudgetExceeded env.context.costBudget)) := by
  induction h with
  | ends =>
    rw [List.length_nil]
    exact ⟨by omega, iff_of_false (by omega) nofun⟩
  | exceeds hn hle =>
    rw [List.length_singleton]
    exact ⟨by omega, iff_of_true (by omega) rfl⟩
  | faults hn hlt hx =>
    rw [List.length_singleton]
    refine ⟨by omega, iff_of_false (by omega) ?_⟩
    rintro ⟨⟩
    exact exec_ne_costBudgetExceeded _ hx
  | goesOn hn hlt hx _ ih =>
    have hcost := cost_of_exec hx
    obtain ⟨hle, hiff⟩ := ih (by omega)
    rw [hcost] at hle hiff
    rw [List.length_cons, Nat.add_comm _ 1, ← Nat.add_assoc]
    exact ⟨hle, hiff⟩

/-- The cost of the last machine counts the attempts. -/
theorem cost_eq (h : Runs env m ms last) (hl : last = .ok m') : m'.cost = m.cost + ms.length := by
  induction h with
  | ends =>
    cases hl
    rfl
  | exceeds | faults => cases hl
  | goesOn hn hlt hx _ ih =>
    rw [ih hl, cost_of_exec hx, List.length_cons, Nat.add_assoc, Nat.add_comm 1]

theorem length_le_budget (h : Runs env {} ms last) :
    ms.length ≤ env.context.costBudget.toNat + 1 ∧
      (ms.length = env.context.costBudget.toNat + 1 ↔
        last = .error (.costBudgetExceeded env.context.costBudget)) := by
  have hstart : ({} : Machine).cost + ms.length = ms.length := Nat.zero_add _
  have hle := h.length_le (Nat.zero_le _)
  rwa [hstart] at hle

/-! ### What a run keeps -/

/-- What holds of a machine and is kept by every instruction that succeeds holds of all machines of
the run from there. -/
theorem invariant {P : Machine → Prop} (h : Runs env m ms last)
    (hstep : ∀ m i m', P m → m.next? env = some i → m.advance.exec env i = .ok m' → P m')
    (hm : P m) : (∀ m' ∈ ms, P m') ∧ ∀ m', last = .ok m' → P m' := by
  induction h with
  | ends => exact ⟨nofun, fun m' hl => Except.ok.inj hl ▸ hm⟩
  | exceeds | faults => exact ⟨by simpa using hm, nofun⟩
  | goesOn hn hlt hx _ ih =>
    obtain ⟨hms, hl⟩ := ih (hstep _ _ _ hm hn hx)
    exact ⟨List.forall_mem_cons.2 ⟨hm, hms⟩, hl⟩

/-- The machines of a run are reached. -/
theorem reached (h : Runs env {} ms last) :
    (∀ m ∈ ms, Reached env m) ∧ ∀ m, last = .ok m → Reached env m :=
  h.invariant (P := Reached env) (fun _ i _ hm hn hx => hm.step (step?_eq_some.2 ⟨i, hn, hx⟩)) .start

/-- In front of every attempt there is an instruction. -/
theorem next (h : Runs env m ms last) : ∀ m' ∈ ms, ∃ i, m'.next? env = some i := by
  induction h with
  | ends => exact nofun
  | exceeds hn | faults hn => exact List.forall_mem_singleton.2 ⟨_, hn⟩
  | goesOn hn hlt hx _ ih => exact List.forall_mem_cons.2 ⟨⟨_, hn⟩, ih⟩

/-- A run fails because its budget is used up, or at an instruction it attempts. -/
theorem fault {e : Fault} (h : Runs env m ms last) (hl : last = .error e) :
    e = .costBudgetExceeded env.context.costBudget ∨
      ∃ m' ∈ ms, ∃ i, m'.next? env = some i ∧ m'.advance.exec env i = .error e := by
  induction h with
  | ends => cases hl
  | exceeds =>
    cases hl
    exact .inl rfl
  | faults hn hlt hx =>
    cases hl
    exact .inr ⟨_, List.mem_singleton_self _, _, hn, hx⟩
  | goesOn hn hlt hx _ ih =>
    rcases ih hl with he | ⟨m', hm', i, hn', hx'⟩
    · exact .inl he
    · exact .inr ⟨m', List.mem_cons_of_mem _ hm', i, hn', hx'⟩

/-- A budget for as many instructions as a run attempts is not exceeded. -/
theorem ne_costBudgetExceeded (h : Runs env {} ms last)
    (hle : ms.length ≤ env.context.costBudget.toNat) (budget : UInt64) :
    last ≠ .error (.costBudgetExceeded budget) := by
  intro hl
  rcases h.fault hl with he | ⟨m, -, i, -, hx⟩
  · have hover := h.length_le_budget.2.2 (he ▸ hl)
    omega
  · exact exec_ne_costBudgetExceeded budget hx

end Runs

/-! ### Runs that are computed -/

/-- The cost so far and the budget that is left make up the budget. -/
theorem runs_runFor {left : Nat} (h : m.cost + left = env.context.costBudget.toNat) :
    ∃ ms, Runs env m ms (runFor env left m).1 ∧ (runFor env left m).2 = m.cost + ms.length := by
  induction left generalizing m with
  | zero =>
    cases hn : m.next? env with
    | none =>
      rw [runFor, hn]
      exact ⟨[], .ends hn, rfl⟩
    | some i =>
      rw [runFor, hn]
      exact ⟨[m], .exceeds hn (by omega), rfl⟩
  | succ left ih =>
    have hlt : m.cost < env.context.costBudget.toNat := by omega
    cases hn : m.next? env with
    | none =>
      rw [runFor, hn]
      exact ⟨[], .ends hn, rfl⟩
    | some i =>
      rw [runFor, hn]
      dsimp only
      cases hx : m.advance.exec env i with
      | error e => exact ⟨[m], .faults hn hlt hx, rfl⟩
      | ok m' =>
        have hcost := cost_of_exec hx
        obtain ⟨ms, hruns, hlen⟩ := ih (m := m') (by omega)
        refine ⟨m :: ms, .goesOn hn hlt hx hruns, ?_⟩
        rw [hlen, hcost, List.length_cons]
        omega

/-- Running a program takes its one run from the start, and its cost is the number of attempts. -/
theorem runs_run (env : Environment) :
    ∃ ms last, Runs env {} ms last ∧ env.run = (last.bind finish, ms.length) := by
  have hstart : ({} : Machine).cost + env.context.costBudget.toNat = env.context.costBudget.toNat :=
    Nat.zero_add _
  obtain ⟨ms, hruns, hlen⟩ := runs_runFor hstart
  refine ⟨ms, _, hruns, ?_⟩
  rw [Nat.zero_add] at hlen
  unfold Environment.run
  rw [← hlen]

theorem approved?_error {e : Fault} (h : m.approved? = .error e) :
    m.verdict = none ∧ e = .invalidFinalStack m.stack.length := by
  unfold approved? at h
  split at h
  · cases h
  · cases h
  · next hv hs =>
    cases h
    exact ⟨hv, rfl⟩

/-- A run that approves hands back what it logged and wrote, one that does not hands back neither. -/
theorem finish_cases {r : ExecutionResult} (h : m.finish = .ok r) :
    r = ⟨true, m.cost, m.logs, m.pending⟩ ∨ r = ⟨false, m.cost, [], {}⟩ := by
  obtain ⟨b, -, h⟩ := Success.bind_eq_ok.1 h
  cases b with
  | true =>
    cases h
    exact .inl rfl
  | false =>
    cases h
    exact .inr rfl

/-- What a run hands back carries its cost. -/
theorem cost_of_finish {r : ExecutionResult} (h : m.finish = .ok r) : r.cost = m.cost := by
  rcases finish_cases h with rfl | rfl <;> rfl

/-- A run that ended fails only for what is left on its stack. -/
theorem finish_error {e : Fault} (h : m.finish = .error e) :
    m.verdict = none ∧ e = .invalidFinalStack m.stack.length := by
  unfold finish at h
  cases ha : m.approved? with
  | error e' =>
    rw [ha] at h
    cases h
    exact approved?_error ha
  | ok b =>
    rw [ha] at h
    cases b <;> cases h

/-- The fault of a program is one of its run, or comes from the stack that is left. -/
theorem error_of_run {e : Fault} (h : Except.bind last finish = .error e) :
    last = .error e ∨
      ∃ m, last = .ok m ∧ m.verdict = none ∧ e = .invalidFinalStack m.stack.length := by
  cases last with
  | error e' =>
    cases h
    exact .inl rfl
  | ok m => exact .inr ⟨m, rfl, finish_error h⟩

/-- A run costs at most its budget, or one more exactly if the budget is what ends it. -/
theorem cost_run (env : Environment) :
    env.run.2 ≤ env.context.costBudget.toNat + 1 ∧
      (env.run.2 = env.context.costBudget.toNat + 1 ↔
        env.run.1 = .error (.costBudgetExceeded env.context.costBudget)) := by
  obtain ⟨ms, last, hruns, hrun⟩ := runs_run env
  obtain ⟨hle, hiff⟩ := hruns.length_le_budget
  rw [hrun]
  refine ⟨hle, hiff.trans ⟨?_, fun he => ?_⟩⟩
  · rintro rfl
    rfl
  · rcases error_of_run he with hl | ⟨m, -, -, hl⟩
    · exact hl
    · cases hl

/-! ### Limits -/

theorem withinLimits_start (env : Environment) : WithinLimits env {} where
  pc_le := Nat.zero_le _
  stack_le := Nat.zero_le _
  logs_le := Nat.zero_le _
  logSize_eq := rfl
  logSize_le := Nat.zero_le _

/-- The counters move on within the program if there is an instruction. -/
theorem withinLimits_advance (h : WithinLimits env m) (hi : m.next? env = some i) :
    WithinLimits env m.advance :=
  { h with pc_le := pc_lt_of_next? hi }

/-- An instruction that succeeds keeps the limits. -/
theorem withinLimits_exec (h : WithinLimits env m) (hx : m.exec env i = .ok m') :
    WithinLimits env m' := by
  have hstack := stack_le_of_exec hx h.stack_le
  cases executed_of_exec hx with
  | stack | verdict | globalPut | localPut => exact { h with stack_le := hstack }
  | jump s _ _ ht => exact { h with stack_le := hstack, pc_le := ht }
  | log s b hentries hbytes =>
    have hsum : m.logSize + b.length = ((m.logs ++ [b]).map List.length).sum := by
      rw [h.logSize_eq, List.map_append, List.sum_append, List.map_singleton, List.sum_singleton]
    have hlen : (m.logs ++ [b]).length ≤ maxLogEntries := by
      rw [List.length_append, List.length_singleton]
      exact hentries
    exact ⟨h.pc_le, hstack, hlen, hsum, hbytes⟩

theorem Reached.withinLimits (h : Reached env m) : WithinLimits env m :=
  h.invariant (withinLimits_start env) fun _ _ _ hm hn hx =>
    withinLimits_exec (withinLimits_advance hm hn) hx

/-- Every machine of a run is within the limits, also when its counters have moved on. -/
theorem Runs.withinLimits (h : Runs env m ms last) (hm : WithinLimits env m) :
    (∀ m' ∈ ms, WithinLimits env m' ∧ WithinLimits env m'.advance) ∧
      ∀ m', last = .ok m' → WithinLimits env m' := by
  have hinv := h.invariant (P := WithinLimits env) (fun m i m' hm hn hx =>
    withinLimits_exec (withinLimits_advance hm hn) hx) hm
  refine ⟨fun m' hm' => ?_, hinv.2⟩
  obtain ⟨i, hn⟩ := h.next m' hm'
  have hlim := hinv.1 m' hm'
  exact ⟨hlim, withinLimits_advance hlim hn⟩

/-! ## Top theorems -/

/-- Every run ends, whatever the program: it attempts as many instructions as it costs, and at most
one more than its budget, that one exactly if it fails because the budget is used up; so the cost
fits a word unless the budget is the largest one. Its machines are within the limits of the program,
the stack and the log. -/
theorem metered_run (env : Environment) :
    ∃ ms last, Runs env {} ms last ∧ (∀ ms' last', Runs env {} ms' last' → ms = ms' ∧ last = last') ∧
      env.run = (last.bind finish, ms.length) ∧
      env.run.2 ≤ env.context.costBudget.toNat + 1 ∧
      (env.run.2 = env.context.costBudget.toNat + 1 ↔
        env.run.1 = .error (.costBudgetExceeded env.context.costBudget)) ∧
      (∀ r, env.run.1 = .ok r → r.cost = env.run.2) ∧
      (∀ m ∈ ms, WithinLimits env m ∧ WithinLimits env m.advance) ∧
        ∀ m, last = .ok m → WithinLimits env m := by
  obtain ⟨ms, last, hruns, hrun⟩ := runs_run env
  obtain ⟨hle, hiff⟩ := cost_run env
  have hlimits := hruns.withinLimits (withinLimits_start env)
  refine ⟨ms, last, hruns, fun _ _ => hruns.unique, hrun, hle, hiff, fun r hr => ?_, hlimits⟩
  rw [hrun] at hr ⊢
  cases last with
  | error e => cases hr
  | ok m =>
    have hcost := hruns.cost_eq rfl
    rw [cost_of_finish hr, hcost]
    exact Nat.zero_add _

end Machine

end ContractBench
