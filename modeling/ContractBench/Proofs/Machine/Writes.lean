import ContractBench.Proofs.Machine.Metered
import ContractBench.Proofs.State.Collected
/-!
# What a run writes

Whatever a program computes for the operands of its writes, every machine a run comes to has collected
them by puts over the committed state, with local writes only for accounts that the program may write.
So the delta a run hands back is confined to accounts that hold local state, or are about to:

    Reached env m → Collected env.state env.MayWrite m.pending              (Reached.collected)
    env.run.1 = .ok result → Collected env.state env.MayWrite result.delta        (collected_run)
    Collected env.state env.MayWrite d → env.Confines d                   (confines_of_collected)
-/

namespace ContractBench

/-! ## Algorithm -/

/-- Local entries are for accounts the current transaction gives access to, each of which has opted
in already or is the sender of a transaction that opts in. -/
def Environment.Confines (env : Environment) (d : Delta) : Prop :=
  ∀ k x, d.locals.get? k = some x →
    k.account ∈ env.current.accessibleAccounts ∧
      (env.state.isOptedIn k.account = true ∨
        env.current.onCompletion? = some .optIn ∧ k.account = env.current.sender)

/-! ## Lemmas -/

variable {env : Environment} {m m' : Machine}

namespace Machine

/-- One step writes nothing, or one key that a put through the view accepts. -/
theorem collected_step {i : Instruction} (h : Collected env.state env.MayWrite m.pending)
    (hexec : m.advance.exec env i = .ok m') : Collected env.state env.MayWrite m'.pending := by
  cases executed_of_exec hexec with
  | stack | jump | verdict | log => exact h
  | globalPut s hput => exact .putGlobal h hput
  | localPut s ha hput => exact .putLocal h ha hput

theorem Reached.collected (h : Reached env m) : Collected env.state env.MayWrite m.pending :=
  h.invariant (P := fun m => Collected env.state env.MayWrite m.pending) .none
    fun _ _ _ hm _ hexec => collected_step hm hexec

end Machine

namespace Environment

variable {result : ExecutionResult}

/-- A run that hands back a result came to a machine that it finished. -/
theorem exists_reached_of_run (h : env.run.1 = .ok result) :
    ∃ m, Machine.Reached env m ∧ m.finish = .ok result := by
  obtain ⟨ms, last, hruns, hrun⟩ := Machine.runs_run env
  rw [hrun] at h
  obtain ⟨m, hlast, hfinish⟩ := Success.bind_eq_ok.1 h
  exact ⟨m, hruns.reached.2 m hlast, hfinish⟩

/-- What a run hands back was collected over the committed state. -/
theorem collected_run (h : env.run.1 = .ok result) :
    Collected env.state env.MayWrite result.delta := by
  obtain ⟨m, hm, hfinish⟩ := exists_reached_of_run h
  rcases Machine.finish_cases hfinish with rfl | rfl
  · exact hm.collected
  · exact .none

theorem MayWrite.optedIn {a : Address} (h : env.MayWrite a) :
    env.state.isOptedIn a = true ∨
      env.current.onCompletion? = some .optIn ∧ a = env.current.sender := by
  have hmay := h.2
  rw [mayHoldLocal, Bool.or_eq_true, Bool.and_eq_true, beq_iff_eq, beq_iff_eq] at hmay
  rcases hmay with ⟨hopting, hsender⟩ | hopted
  · exact .inr ⟨hopting, hsender.symm⟩
  · exact .inl hopted

theorem confines_of_collected {d : Delta} (h : Collected env.state env.MayWrite d) :
    env.Confines d := by
  intro k x hget
  have hmay := h.of_get?_locals hget
  exact ⟨hmay.1, hmay.optedIn⟩

/-! ## Top theorem -/

/-- In every machine a run comes to, and in the delta of a run that approves, local entries are for
accounts that the transaction gives access to and that have opted in, or for its sender when it opts
in. A run that does not approve hands back neither logs nor writes, or ends with a fault. -/
theorem local_writes_confined (env : Environment) :
    (∀ m, Machine.Reached env m → env.Confines m.pending) ∧
      ∀ result, env.run.1 = .ok result →
        env.Confines result.delta ∧
          (result.approved = false → result.logs = [] ∧ result.delta = {}) := by
  refine ⟨fun m hm => confines_of_collected hm.collected, fun result hrun => ?_⟩
  refine ⟨confines_of_collected (collected_run hrun), fun hrejected => ?_⟩
  obtain ⟨m, -, hfinish⟩ := exists_reached_of_run hrun
  rcases Machine.finish_cases hfinish with rfl | rfl
  · cases hrejected
  · exact ⟨rfl, rfl⟩

end Environment

end ContractBench
