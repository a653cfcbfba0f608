import ContractBench.Proofs.Code.Simulation
/-!
# Compiled programs do what their trees mean

Running the listing of a tree comes to what evaluating the tree comes to: the same verdict with the
same logs and writes, or the same failure. A run may end before only because the budget is below
the length of the program, or because the tree needs more stack than there is:

    root.compile v name = .ok l → ∃ program, assemble l.text = .ok program ∧
      ∀ env, env.program = program → RunsAs root env                     (runsAs_of_compile)
-/

namespace ContractBench

/-- The verdict of a run, with the logs and writes of one that approves. -/
def ExecutionResult.verdict (r : ExecutionResult) : Expr.Verdict := ⟨r.approved, r.logs, r.delta⟩

namespace Expr

open Item Machine Stop

/-- The run comes to what the tree means, unless the budget or the stack is too small. -/
def RunsAs (root : Expr) (env : Environment) : Prop :=
  (env.run.1.map (·.verdict) = root.evaluate env ∧
      env.run.2 ≤ env.context.costBudget.toNat ∧ env.run.2 ≤ env.program.size) ∨
    (env.run.1 = .error (.costBudgetExceeded env.context.costBudget) ∧
      env.context.costBudget.toNat < env.program.size) ∨
    (env.run.1 = .error .stackOverflow ∧ maxStackSize < root.height)

/-! ## Lemmas -/

variable {root : Expr} {env : Environment}

/-- A run that ends as an evaluation stops comes to the same. -/
theorem run_eq_evaluate
    (h : EndsAs (runFor env env.context.costBudget.toNat {}) (root.eval env {})) :
    env.run.1.map (·.verdict) = root.evaluate env := by
  unfold Environment.run evaluate
  cases he : root.eval env {} with
  | ok r =>
    rw [he] at h
    exact h.elim
  | error stop =>
    rw [he] at h
    cases stop with
    | fault e =>
      have hr : (runFor env env.context.costBudget.toNat {}).1 = .error e := h
      dsimp only
      rw [hr]
      rfl
    | verdict b fx =>
      obtain ⟨m, hr, hv, hl, hp⟩ := h
      have hfinish : m.finish = .ok (if b then ⟨true, m.cost, m.logs, m.pending⟩
          else ⟨false, m.cost, [], {}⟩) := by
        rw [finish, approved?, hv]
        cases b <;> rfl
      dsimp only
      rw [hr]
      show (m.finish).map _ = _
      rw [hfinish, hl, hp]
      cases b <;> rfl

/-- A tree that terminates runs as it means, in any program made of its code. -/
theorem runsAs_of_placed {target : Label → Nat} {p : NodePath} (hb : Built root)
    (ht : root.terminates = true) (hs : env.program.Straight)
    (hle : ∀ l, target l ≤ env.program.size)
    (hp : Placed env.program.instructions target 0 (root.lower p)) : RunsAs root env := by
  have hf : Follows env root.height (Behind root _ []) (ready 0 0 [] {}) (root.eval env {}) :=
    simulates_of_built hle hb p 0 _ 0 root.height [] {} hp rfl (Nat.le_of_eq (Nat.zero_add _))
  -- behind a tree that terminates there is nothing
  have hend : Follows env root.height (fun _ _ => False) {} (root.eval env {}) :=
    hf.extend fun r m hm => Bool.noConfusion (ht.symm.trans hm.goesOn)
  rcases runFor_of_follows hs hend (ahead_start env) env.context.costBudget.toNat with
    ⟨he, hbudget, hsize⟩ | ⟨hr, hlt⟩ | ⟨hr, hlt⟩
  · rw [Nat.zero_add] at hbudget
    exact .inl ⟨run_eq_evaluate he, hbudget, hsize⟩
  · rw [Nat.zero_add] at hlt
    have hrun : env.run.1 = .error _ := congrArg (Except.bind · finish) hr
    exact .inr (.inl ⟨hrun, hlt⟩)
  · have hrun : env.run.1 = .error _ := congrArg (Except.bind · finish) hr
    exact .inr (.inr ⟨hrun, hlt⟩)

/-- The executable of a tree runs as the tree means. -/
theorem runsAs_linked (hb : Built root) (ht : root.terminates = true) {v : UInt8} {name : String}
    (hp : env.program = (root.listing v name).linked) : RunsAs root env := by
  have hs := straight_listing hb v name
  have hplaced := placed_listing hb v name
  have hle := addressIn_le root v name
  rw [← hp] at hs hplaced hle
  exact runsAs_of_placed hb ht hs hle hplaced

/-! ## Top theorems -/

/-- Whatever compiles assembles, and runs as the tree means: in every environment and over every
state, the kinds of whose values need not be those the tree declares. -/
theorem runsAs_of_compile {v : UInt8} {name : String} {l : Listing} (hb : Built root)
    (hc : root.compile v name = .ok l) :
    ∃ program, assemble l.text = .ok program ∧
      program.size = (Listing.instructions l.lines).length ∧
        ∀ env : Environment, env.program = program → RunsAs root env := by
  obtain ⟨-, -, ht, -, -⟩ := (compile_eq_ok_iff hb).1 hc
  obtain ⟨rfl, ha⟩ := assemble_of_compile hb hc
  refine ⟨_, ha, ?_, fun env hp => runsAs_linked hb ht hp⟩
  exact List.length_map _

/-- A program that counts its calls. -/
def counter : Expr :=
  .seq [.globalPut [110] (.binary .add (.globalGet [110] .int) (.int 1)), .approve]

theorem built_counter : Built counter := by
  have hsum : Built (.binary .add (.globalGet [110] .int) (.int 1)) :=
    .binary (.globalGet _ _) (.int 1) (admitted_iff_fits.2 ⟨.int, rfl, rfl, by decide⟩)
  refine .seq fun e he => ?_
  rcases List.mem_cons.1 he with rfl | he
  · exact .globalPut hsum (admitted_iff_fits.2 ⟨.int, rfl⟩)
  · cases List.mem_singleton.1 he
    exact .verdict true

theorem runsAs_of_compile_counter :
    ∃ program, assemble (counter.listing 2 "approval").text = .ok program ∧ program.size = 8 ∧
      ∀ env : Environment, env.program = program → RunsAs counter env := by
  have hc : counter.compile 2 "approval" = .ok (counter.listing 2 "approval") := rfl
  exact runsAs_of_compile built_counter hc

end Expr

end ContractBench
