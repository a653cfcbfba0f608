import ContractBench.Proofs.Machine.Metered
/-!
# Paths through a program

From an instruction control goes to the next one or to the target of its jump, and the number of
values on the stack changes by what the opcode pops and pushes. `Executable.DepthAt` collects where
paths lead and with how many values, without running anything; a run follows one of these paths:

    Runs env {} ms last → ∀ m ∈ ms, env.program.DepthAt m.pc m.stack.length       (Runs.depthAt)

In straight code the positions of the attempts only go up:

    env.program.Straight → Runs env m ms last → (ms.map (·.pc)).Pairwise (· < ·)    (Runs.ascends)
-/

namespace ContractBench

/-! ## Algorithm -/

/-- Where control can go behind the instruction at an address. -/
inductive Instruction.Leads (i : Instruction) (a : Nat) : Nat → Prop
  | next : i.op.endsBlock = false → Leads i a (a + 1)
  | jump {t : Nat} : i.op.immediateKind = .label → i.imm = .target t → Leads i a t

namespace Executable

/-- Some path from the start leads to an address with a number of values on the stack, counted by
the pops and pushes of the opcodes on the path alone. -/
inductive DepthAt (e : Executable) : Nat → Nat → Prop
  | start : DepthAt e 0 0
  | step {a b d : Nat} {i : Instruction} : DepthAt e a d → e.instructions[a]? = some i →
      i.Leads a b → DepthAt e b (d - i.op.pops + i.op.pushes)

/-- No path leads to an instruction with fewer values than it takes. -/
def Sufficient (e : Executable) : Prop :=
  ∀ a d i, e.DepthAt a d → e.instructions[a]? = some i → i.op.pops ≤ d

/-- If all paths that lead to one place agree, each place has its own depth or none. -/
theorem exists_depth {e : Executable} (h : ∀ {a d d'}, e.DepthAt a d → e.DepthAt a d' → d = d') :
    ∃ depth : Nat → Option Nat, ∀ a d, depth a = some d ↔ e.DepthAt a d := by
  classical
  have hchoice : ∀ a, ∃ o : Option Nat, ∀ d, o = some d ↔ e.DepthAt a d := by
    intro a
    by_cases hd : ∃ d, e.DepthAt a d
    · obtain ⟨d, hd⟩ := hd
      refine ⟨some d, fun d' => ⟨?_, fun hd' => congrArg some (h hd hd')⟩⟩
      rintro ⟨⟩
      exact hd
    · exact ⟨none, fun d => iff_of_false nofun fun hd' => hd ⟨d, hd'⟩⟩
  exact ⟨fun a => (hchoice a).choose, fun a => (hchoice a).choose_spec⟩

end Executable

namespace Machine

/-! ## Lemmas -/

variable {env : Environment} {m m' : Machine} {i : Instruction} {ms : List Machine}
  {last : Except Fault Machine}

theorem verdict_of_next? (h : m.next? env = some i) : m.verdict = none := by
  unfold next? at h
  split at h
  · cases h
  · next hv => exact hv

/-- A run that has ended without a verdict is behind the last instruction. -/
theorem size_le_of_next? (h : m.next? env = none) (hv : m.verdict = none) :
    env.program.size ≤ m.pc := by
  rw [next?, hv] at h
  exact List.getElem?_eq_none_iff.1 h

/-! ### Depth -/

/-- An instruction goes on along a path. -/
theorem depthAt_of_exec (h : env.program.DepthAt m.pc m.stack.length) (hn : m.next? env = some i)
    (hx : m.advance.exec env i = .ok m') (hv : m'.verdict = none) :
    env.program.DepthAt m'.pc m'.stack.length := by
  have hget := getElem?_of_next? hn
  have hlen : m'.stack.length = m.stack.length - i.op.pops + i.op.pushes := (length_of_exec hx).2
  obtain ⟨t, hc⟩ := continues_of_exec hx
  rw [hlen]
  cases hc with
  | next he hstays =>
    have hpc : m'.pc = m.pc + 1 := hstays.pc
    rw [hpc]
    exact h.step hget (.next he)
  | jump hk himm => exact h.step hget (.jump hk himm)
  | verdict _ hsome =>
    rw [hv] at hsome
    cases hsome

namespace Runs

/-- As long as there is no verdict, a run is on a path of its program. -/
theorem onPath (h : Runs env {} ms last) :
    (∀ m ∈ ms, m.verdict = none → env.program.DepthAt m.pc m.stack.length) ∧
      ∀ m, last = .ok m → m.verdict = none → env.program.DepthAt m.pc m.stack.length :=
  h.invariant (P := fun m => m.verdict = none → env.program.DepthAt m.pc m.stack.length)
    (fun _ _ _ hm hn hx hv => depthAt_of_exec (hm (verdict_of_next? hn)) hn hx hv) fun _ => .start

/-- Every attempt is on a path of the program. -/
theorem depthAt (h : Runs env {} ms last) :
    ∀ m ∈ ms, env.program.DepthAt m.pc m.stack.length := by
  intro m hm
  obtain ⟨i, hn⟩ := h.next m hm
  exact h.onPath.1 m hm (verdict_of_next? hn)

/-- The last machine of a run has nothing to execute. -/
theorem next_last (h : Runs env m ms last) (hl : last = .ok m') : m'.next? env = none := by
  induction h with
  | ends hn =>
    cases hl
    exact hn
  | exceeds | faults => cases hl
  | goesOn _ _ _ _ ih => exact ih hl

/-- A run that ended without a verdict took a path to the end of the program. -/
theorem depthAt_end (h : Runs env {} ms last) (hl : last = .ok m) (hv : m.verdict = none) :
    env.program.size ≤ m.pc ∧ env.program.DepthAt m.pc m.stack.length :=
  ⟨size_le_of_next? (h.next_last hl) hv, h.onPath.2 m hl hv⟩

/-- A stack never underflows if every path has enough for what is taken. -/
theorem ne_stackUnderflow (hs : env.program.Sufficient) (h : Runs env {} ms last) :
    last ≠ .error .stackUnderflow := by
  intro hl
  rcases h.fault hl with he | ⟨m, hm, i, hn, hx⟩
  · cases he
  · have hlt : m.advance.stack.length < i.op.pops := lt_pops_of_exec hx
    have hle := hs _ _ i (h.depthAt m hm) (getElem?_of_next? hn)
    exact absurd hle (Nat.not_le.2 hlt)

/-- A stack overflows only behind an instruction where some path holds too much. -/
theorem overflow (h : Runs env {} ms last) (hl : last = .error .stackOverflow) :
    ∃ a d i, env.program.DepthAt a d ∧ env.program.instructions[a]? = some i ∧
      maxStackSize < d - i.op.pops + i.op.pushes := by
  rcases h.fault hl with he | ⟨m, hm, i, hn, hx⟩
  · cases he
  · have hover : maxStackSize < m.advance.stack.length - i.op.pops + i.op.pushes :=
      overflow_of_exec hx
    exact ⟨_, _, i, h.depthAt m hm, getElem?_of_next? hn, hover⟩

end Runs

/-! ### Straight code -/

/-- An instruction leaves the program counter within the program or right behind it. -/
theorem pc_le_of_exec (hn : m.next? env = some i) (hx : m.advance.exec env i = .ok m') :
    m'.pc ≤ env.program.size := by
  rcases (moves_of_exec hx).pc with hpc | ⟨-, -, hpc⟩
  · rw [hpc]
    exact pc_lt_of_next? hn
  · exact hpc

/-- An instruction of straight code moves the program counter up. -/
theorem pc_lt_of_exec (hs : env.program.Straight) (hn : m.next? env = some i)
    (hx : m.advance.exec env i = .ok m') : m.pc < m'.pc := by
  rcases (moves_of_exec hx).pc with hpc | ⟨hk, himm, -⟩
  · rw [hpc]
    exact Nat.lt_succ_self m.pc
  · obtain ⟨t, ht, hlt, -⟩ := hs m.pc i (getElem?_of_next? hn) hk
    cases himm.symm.trans ht
    exact hlt

namespace Runs

/-- A run through straight code only goes up. -/
theorem ascends (hs : env.program.Straight) (h : Runs env m ms last) :
    (ms.map (·.pc)).Pairwise (· < ·) := by
  induction h with
  | ends => exact .nil
  | exceeds | faults => exact List.pairwise_singleton _ _
  | @goesOn m m' i ms last hn _ hx hrest ih =>
    have hlt := pc_lt_of_exec hs hn hx
    have habove := hrest.invariant (P := fun m'' => m.pc < m''.pc)
      (fun _ _ _ hm hn hx => Nat.lt_trans hm (pc_lt_of_exec hs hn hx)) hlt
    exact List.pairwise_cons.2 ⟨by simpa using habove.1, ih⟩

/-- A run through straight code attempts at most as many instructions as there are from where it
starts. -/
theorem length_le_size (hs : env.program.Straight) (h : Runs env m ms last)
    (hm : m.pc ≤ env.program.size) : m.pc + ms.length ≤ env.program.size := by
  induction h with
  | ends => exact hm
  | exceeds hn | faults hn => exact pc_lt_of_next? hn
  | @goesOn m m' i ms last hn _ hx _ ih =>
    have hlt := pc_lt_of_exec hs hn hx
    have hrest := ih (pc_le_of_exec hn hx)
    rw [List.length_cons]
    omega

/-! ### Verdicts -/

/-- A run that comes to a verdict ends with a return. -/
theorem returns (h : Runs env m ms last) (hm : m.verdict = none) (hl : last = .ok m')
    (hv : m'.verdict.isSome) :
    ∃ m'' i, ms.getLast? = some m'' ∧ m''.next? env = some i ∧ i.op = .ret := by
  induction h with
  | ends =>
    cases hl
    rw [hm] at hv
    cases hv
  | exceeds | faults => cases hl
  | @goesOn m m₁ i ms last hn _ hx hrest ih =>
    cases h₁ : m₁.verdict with
    | none =>
      obtain ⟨m'', i', hlast, hn', hop⟩ := ih h₁ hl
      exact ⟨m'', i', by rw [List.getLast?_cons, hlast]; rfl, hn', hop⟩
    | some b =>
      -- behind a verdict there is no attempt
      have hend : m₁.next? env = none := by rw [next?, h₁]
      have hnil : ms = [] := (hrest.unique (.ends hend)).1
      obtain ⟨t, hc⟩ := continues_of_exec hx
      have hop : i.op = .ret := by
        cases hc with
        | next _ hstays =>
          have hnone : m₁.verdict = none := hstays.verdict.trans hm
          cases h₁.symm.trans hnone
        | jump _ _ _ _ hsame =>
          have hnone : m₁.verdict = none := hsame.trans hm
          cases h₁.symm.trans hnone
        | verdict hret => exact hret
      exact ⟨m, i, by rw [hnil]; rfl, hn, hop⟩

end Runs

end Machine

end ContractBench
