import ContractBench.Machine.Run
import ContractBench.Proofs.Machine.Exchange
/-!
# The table of stack effects

What the table says an opcode pops and pushes is what every machine does, whatever the immediate. A
step that succeeds found as many values as the opcode pops, put as many in their place as the opcode
pushes and left those below alone; on fewer values the step fails. Control goes to the target of a
jump that is taken, ends at a return and goes on to the next instruction otherwise:

    m.advance.exec env i = .ok m' → m.Stepped i m'                            (stepped_of_exec)
    m.stack.length < i.op.pops → ∃ e, m.exec env i = .error e                (error_of_lt_pops)
-/

namespace ContractBench

open Success

/-! ## Algorithm -/

/-- Whether an opcode jumps: always, or as the integer on top tells. -/
def Opcode.jumps : Opcode → Stack → Bool
  | .jump, _ => true
  | .bnz, .int n :: _ => n != 0
  | .bz, .int n :: _ => n == 0
  | _, _ => false

/-- What a step that succeeded made of a stack, and where control is behind it. -/
structure Machine.Stepped (m : Machine) (i : Instruction) (m' : Machine) : Prop where
  pops_le : i.op.pops ≤ m.stack.length
  /-- The values below those that were taken are the values below those that were left. -/
  below : m'.stack.drop i.op.pushes = m.stack.drop i.op.pops
  length_eq : m'.stack.length = m.stack.length - i.op.pops + i.op.pushes
  jump : i.op.jumps m.stack = true → i.imm = .target m'.pc ∧ m'.verdict = m.verdict
  ends : i.op = .ret → m'.verdict.isSome
  next : i.op.jumps m.stack = false → i.op ≠ .ret → m'.pc = m.pc + 1 ∧ m'.verdict = m.verdict

/-! ## Lemmas -/

theorem Stack.eq_of_popInt {op : Opcode} {s s' : Stack} {n : UInt64}
    (h : s.popInt op = .ok (n, s')) : s = .int n :: s' := by
  match s with
  | [] => cases h
  | .bytes _ :: _ => cases h
  | .int _ :: _ =>
    cases h
    rfl

namespace Machine

variable {env : Environment} {m m' : Machine} {i : Instruction}

/-! ### The stack -/

theorem drop_of_exec (h : m.exec env i = .ok m') :
    m'.stack.drop i.op.pushes = m.stack.drop i.op.pops := by
  obtain ⟨top, new, rest, hs, hstack, ht, hn⟩ := exchanged_of_exec h
  rw [hs, hstack, ← ht, ← hn, List.drop_left, List.drop_left]

/-- An instruction fails on a stack that holds fewer values than it takes. -/
theorem error_of_lt_pops (h : m.stack.length < i.op.pops) : ∃ e, m.exec env i = .error e := by
  cases hx : m.exec env i with
  | ok m' => exact absurd (length_of_exec hx).1 (Nat.not_le.2 h)
  | error e => exact ⟨e, rfl⟩

/-! ### Control -/

/-- A branch finds an integer on top and goes to its target if that tells so. -/
theorem exists_of_branch {taken : UInt64 → Bool} (h : m.branch env i taken = .ok m') :
    ∃ n s, m.stack = .int n :: s ∧ if taken n then i.imm = .target m'.pc else m'.pc = m.pc := by
  obtain ⟨t, ht, h⟩ := bind_eq_ok.1 h
  obtain ⟨⟨n, s⟩, hpop, h⟩ := bind_eq_ok.1 h
  cases h
  refine ⟨n, s, Stack.eq_of_popInt hpop, ?_⟩
  cases taken n with
  | true => exact (jumpTarget_eq ht).1
  | false => rfl

/-- Control goes to the target of a jump that is taken, and to the next instruction otherwise. -/
theorem pc_of_exec (h : m.exec env i = .ok m') :
    if i.op.jumps m.stack then i.imm = .target m'.pc else m'.pc = m.pc := by
  -- an opcode without a label leaves the counter alone; the three with one are told apart below
  have hstays : i.op.immediateKind ≠ .label → m'.pc = m.pc := fun hk =>
    (moves_of_exec h).pc.resolve_right fun hj => hk hj.1
  obtain ⟨op, imm⟩ := i
  cases op with
  | jump =>
    obtain ⟨t, ht, h⟩ := bind_eq_ok.1 h
    cases h
    exact (jumpTarget_eq ht).1
  | bnz =>
    have hbranch : m.branch env ⟨.bnz, imm⟩ (· != 0) = .ok m' := h
    obtain ⟨n, s, hs, hpc⟩ := exists_of_branch hbranch
    rw [hs]
    exact hpc
  | bz =>
    have hbranch : m.branch env ⟨.bz, imm⟩ (· == 0) = .ok m' := h
    obtain ⟨n, s, hs, hpc⟩ := exists_of_branch hbranch
    rw [hs]
    exact hpc
  | _ => exact hstays nofun

/-- Only a return changes the verdict. -/
theorem verdict_of_exec (h : m.exec env i = .ok m') :
    if i.op = .ret then m'.verdict.isSome else m'.verdict = m.verdict := by
  obtain ⟨t, hc⟩ := continues_of_exec h
  split
  · next hret =>
    cases hc with
    | next hn =>
      rw [hret] at hn
      cases hn
    | jump hk =>
      rw [hret] at hk
      cases hk
    | verdict _ hsome => exact hsome
  · next hret =>
    cases hc with
    | next _ hstays => exact hstays.verdict
    | jump _ _ _ _ hsame => exact hsame
    | verdict hop => exact absurd hop hret

theorem stepped_of_exec (h : m.advance.exec env i = .ok m') : m.Stepped i m' := by
  have hpc : if i.op.jumps m.stack then i.imm = .target m'.pc else m'.pc = m.pc + 1 := pc_of_exec h
  have hverdict : if i.op = .ret then m'.verdict.isSome else m'.verdict = m.verdict :=
    verdict_of_exec (m := m.advance) h
  have hlen := length_of_exec h
  refine ⟨hlen.1, drop_of_exec (m := m.advance) h, hlen.2, fun hj => ?_, fun hr => ?_,
    fun hj hr => ?_⟩
  · have hr : i.op ≠ .ret := by
      intro hr
      rw [hr] at hj
      cases hj
    rw [if_pos hj] at hpc
    rw [if_neg hr] at hverdict
    exact ⟨hpc, hverdict⟩
  · rwa [if_pos hr] at hverdict
  · rw [if_neg (by simp [hj])] at hpc
    rw [if_neg hr] at hverdict
    exact ⟨hpc, hverdict⟩

/-! ## Top theorem -/

/-- The table is true of every step, whatever the instruction and the stack. One that succeeds takes,
keeps and leaves what the table says, and goes on to the next instruction unless it takes a jump or
returns. One that finds fewer values than the opcode pops fails. -/
theorem exec_follows_table (env : Environment) (m : Machine) (i : Instruction) :
    (∀ m', m.advance.exec env i = .ok m' → m.Stepped i m') ∧
      (m.stack.length < i.op.pops → ∃ e, m.advance.exec env i = .error e) :=
  ⟨fun _ => stepped_of_exec, error_of_lt_pops (m := m.advance)⟩

/-! ### A look-up that finds nothing -/

/-- A call of a program that looks up a key and stores what it finds for an account. -/
def lookingUp : Environment where
  program := ⟨2, [.plain .appGlobalGetEx, .plain .appLocalPut]⟩
  group := .single (.appCall .zero 1 .noOp)
  index := 0
  index_lt := Nat.zero_lt_one
  state := {}
  context := {}

/-- A key that is absent and an application are replaced by two zeros, above what was there; a local
write fails on two values. -/
theorem exec_follows_table_lookup :
    exec lookingUp (advance { stack := [.bytes [1], .int 0, .int 7] }) (.plain .appGlobalGetEx) =
      .ok { pc := 1, cost := 1, stack := [.int 0, .int 0, .int 7] } ∧
    Stepped { stack := [.bytes [1], .int 0, .int 7] } (.plain .appGlobalGetEx)
      { pc := 1, cost := 1, stack := [.int 0, .int 0, .int 7] } ∧
    ([.int 0, .bytes [1]] : Stack).length < Opcode.appLocalPut.pops ∧
    ∃ e, exec lookingUp (advance { stack := [.int 0, .bytes [1]] }) (.plain .appLocalPut) =
      .error e := by
  have hx : exec lookingUp (advance { stack := [.bytes [1], .int 0, .int 7] })
      (.plain .appGlobalGetEx) =
        .ok { pc := 1, cost := 1, stack := [.int 0, .int 0, .int 7] } := rfl
  have hfew : ([.int 0, .bytes [1]] : Stack).length < Opcode.appLocalPut.pops := by decide
  exact ⟨hx, (exec_follows_table lookingUp _ _).1 _ hx, hfew,
    (exec_follows_table lookingUp { stack := [.int 0, .bytes [1]] } (.plain .appLocalPut)).2 hfew⟩

end Machine

end ContractBench
