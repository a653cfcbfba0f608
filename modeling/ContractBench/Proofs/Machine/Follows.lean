import ContractBench.Proofs.Machine.Ready
import ContractBench.Proofs.Machine.Run
/-!
# Runs that follow an evaluation

`Follows env top Q m r` says that the run from a machine does what an evaluation says: if it gives
a result, the run gets to a machine that fits it, if it stops, the run ends in the same way. The
one thing that may come in between is a full stack, and only if `top` is above its limit. Runs are
put together as evaluations are:

    Follows env top Q m x → (∀ a m', Q a m' → Follows env top R m' (f a)) →
      Follows env top R m (x >>= f)                                              (Follows.bind)
-/

namespace ContractBench

namespace Machine

open Stop

variable {α β : Type} {env : Environment} {top : Nat} {Q R : α → Machine → Prop} {m m' : Machine}

/-- The next instruction fails. -/
def FailsWith (env : Environment) (m : Machine) (e : Fault) : Prop :=
  ∃ i, m.next? env = some i ∧ m.advance.exec env i = .error e

/-- The run from a machine does what an evaluation says, unless the stack is full. -/
inductive Follows (env : Environment) (top : Nat) (Q : α → Machine → Prop) :
    Machine → Except Stop α → Prop
  | done {m : Machine} {a : α} : Q a m → Follows env top Q m (.ok a)
  | verdict {m : Machine} {b : Bool} {fx : Effects} :
      m.verdict = some b → m.logs = fx.logs → m.pending = fx.pending →
        Follows env top Q m (.error (.verdict b fx))
  | fault {m : Machine} {e : Fault} : FailsWith env m e → Follows env top Q m (.error (.fault e))
  | overflow {m : Machine} {r : Except Stop α} :
      maxStackSize < top → FailsWith env m .stackOverflow → Follows env top Q m r
  | step {m m' : Machine} {i : Instruction} {r : Except Stop α} :
      m.next? env = some i → m.advance.exec env i = .ok m' → Follows env top Q m' r →
        Follows env top Q m r

namespace Follows

theorem bind {R : β → Machine → Prop} {x : Except Stop α} {f : α → Except Stop β}
    (h : Follows env top Q m x) (hf : ∀ a m', Q a m' → Follows env top R m' (f a)) :
    Follows env top R m (x >>= f) := by
  induction h with
  | done hq => exact hf _ _ hq
  | verdict hv hl hp => exact .verdict hv hl hp
  | fault he => exact .fault he
  | overflow ht he => exact .overflow ht he
  | step hi hx _ ih => exact .step hi hx ih

/-- A run that gives a result may go on with it. -/
theorem extend {r : Except Stop α} (h : Follows env top Q m r)
    (hq : ∀ a m', Q a m' → Follows env top R m' (.ok a)) : Follows env top R m r := by
  rw [← bind_pure r]
  exact h.bind hq

end Follows

/-! ## One instruction -/

/-- What an instruction leads to does what an evaluation says. -/
def Leads (env : Environment) (top : Nat) (Q : α → Machine → Prop) (x : Except Fault Machine)
    (r : Except Stop α) : Prop :=
  match x with
  | .ok m => Follows env top Q m r
  | .error e => r = .error (.fault e) ∨ (e = .stackOverflow ∧ maxStackSize < top)

theorem Follows.exec {i : Instruction} {r : Except Stop α} (hi : m.next? env = some i)
    (h : Leads env top Q (m.advance.exec env i) r) : Follows env top Q m r := by
  cases hx : m.advance.exec env i with
  | ok m' =>
    rw [hx] at h
    exact .step hi hx h
  | error e =>
    rw [hx] at h
    rcases h with rfl | ⟨rfl, ht⟩
    · exact .fault ⟨i, hi, hx⟩
    · exact .overflow ht ⟨i, hi, hx⟩

theorem Leads.bind {z : Except Fault β} {f : β → Except Fault Machine} {k : β → Except Stop α}
    (h : ∀ b, z = .ok b → Leads env top Q (f b) (k b)) :
    Leads env top Q (z >>= f) (orFault z >>= k) := by
  cases z with
  | ok b => exact h b rfl
  | error e => exact .inl rfl

/-! ## At an address -/

variable {a cost : Nat} {s : Stack} {fx : Effects}

theorem Follows.exec_ready {i : Instruction} {r : Except Stop α}
    (hi : env.program.instructions[a]? = some i)
    (h : Leads env top Q ((ready (a + 1) (cost + 1) s fx).exec env i) r) :
    Follows env top Q (ready a cost s fx) r :=
  .exec hi h

/-- A push leads on, unless the stack is full. -/
theorem Leads.push_bind {v : Value} {f : Machine → Except Fault Machine} {r : Except Stop α}
    (ht : s.length < top) (h : Leads env top Q (f (ready a cost (v :: s) fx)) r) :
    Leads env top Q ((ready a cost s fx).push v >>= f) r := by
  rw [push_ready]
  by_cases hfull : maxStackSize ≤ s.length
  · rw [if_pos hfull]
    exact .inr ⟨rfl, by omega⟩
  · rw [if_neg hfull]
    exact h

theorem Leads.push {v : Value} {r : Except Stop α} (ht : s.length < top)
    (h : Follows env top Q (ready a cost (v :: s) fx) r) :
    Leads env top Q ((ready a cost s fx).push v) r := by
  rw [← bind_pure ((ready a cost s fx).push v)]
  exact Leads.push_bind ht h

/-! ## Whole runs -/

/-- A run with its cost ends in the way in which an evaluation stops. -/
def EndsAs (out : Except Fault Machine × Nat) : Except Stop α → Prop
  | .ok _ => False
  | .error (.verdict b fx) =>
    ∃ m, out = (.ok m, m.cost) ∧ m.verdict = some b ∧ m.logs = fx.logs ∧ m.pending = fx.pending
  | .error (.fault e) => out.1 = .error e

theorem runFor_of_failsWith {e : Fault} (h : FailsWith env m e) (left : Nat) :
    runFor env (left + 1) m = (.error e, m.cost + 1) := by
  obtain ⟨i, hi, he⟩ := h
  rw [runFor, hi]
  dsimp only
  rw [he]

theorem runFor_of_next? {i : Instruction} (hi : m.next? env = some i)
    (hx : m.advance.exec env i = .ok m') (left : Nat) :
    runFor env (left + 1) m = runFor env left m' := by
  rw [runFor, hi]
  dsimp only
  rw [hx]

theorem runFor_zero {i : Instruction} (hi : m.next? env = some i) :
    runFor env 0 m = (.error (.costBudgetExceeded env.context.costBudget), m.cost + 1) := by
  rw [runFor, hi]

/-- A run of straight code that follows an evaluation ends as it does and costs no more than the
code is long, unless the budget is used up before or the stack is full. -/
theorem runFor_of_follows (hs : env.program.Straight) {r : Except Stop α}
    (h : Follows env top (fun _ _ => False) m r) (ha : Ahead env m) (left : Nat) :
    (EndsAs (runFor env left m) r ∧ (runFor env left m).2 ≤ m.cost + left ∧
        (runFor env left m).2 ≤ env.program.size) ∨
      ((runFor env left m).1 = .error (.costBudgetExceeded env.context.costBudget) ∧
        m.cost + left < env.program.size) ∨
      ((runFor env left m).1 = .error .stackOverflow ∧ maxStackSize < top) := by
  induction h generalizing left with
  | done h => exact h.elim
  | verdict hv hl hp =>
    rename_i m b fx
    have hn : m.next? env = none := by rw [next?, hv]
    have hr : runFor env left m = (.ok m, m.cost) := by
      cases left <;> rw [runFor, hn]
    have hle := ha.cost_le
    have hpc := ha.pc_le
    rw [hr]
    exact .inl ⟨⟨m, rfl, hv, hl, hp⟩, Nat.le_add_right _ _, Nat.le_trans hle hpc⟩
  | fault he =>
    obtain ⟨i, hi, -⟩ := id he
    have hlt := pc_lt_of_next? hi
    have hle := ha.cost_le
    cases left with
    | zero =>
      rw [runFor_zero hi]
      exact .inr (.inl ⟨rfl, by omega⟩)
    | succ left =>
      rw [runFor_of_failsWith he]
      exact .inl ⟨rfl, by omega, by omega⟩
  | overflow ht he =>
    obtain ⟨i, hi, -⟩ := id he
    have hlt := pc_lt_of_next? hi
    have hle := ha.cost_le
    cases left with
    | zero =>
      rw [runFor_zero hi]
      exact .inr (.inl ⟨rfl, by omega⟩)
    | succ left =>
      rw [runFor_of_failsWith he]
      exact .inr (.inr ⟨rfl, ht⟩)
  | step hi hx _ ih =>
    obtain ⟨ha', hcost⟩ := ahead_of_step hs ha hi hx
    have hlt := pc_lt_of_next? hi
    have hle := ha.cost_le
    cases left with
    | zero =>
      rw [runFor_zero hi]
      exact .inr (.inl ⟨rfl, by omega⟩)
    | succ left =>
      have h := ih ha' left
      rw [hcost] at h
      rw [runFor_of_next? hi hx, show ∀ n, n + (left + 1) = n + 1 + left by omega]
      exact h

end Machine

end ContractBench
