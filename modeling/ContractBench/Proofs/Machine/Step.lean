import ContractBench.Machine.Step
import ContractBench.Success
/-!
# What one instruction can do

Besides its stack an instruction changes a machine in one of five ways at most: a jump, a verdict, a
log entry, a global or a local write. No instruction touches the cost, and only a jump moves the
program counter:

    m.exec env i = .ok m' → Executed env i m m'                          (executed_of_exec)
    m.exec env i = .ok m' → m'.cost = m.cost                                (moves_of_exec)
    m.exec env i = .ok m' → m'.pc = m.pc ∨ i jumps to m'.pc
-/

namespace ContractBench

open Success

/-- A program writes local state of accounts it has access to that opted in, or opt in. -/
def Environment.MayWrite (env : Environment) (a : Address) : Prop :=
  a ∈ env.current.accessibleAccounts ∧ env.mayHoldLocal a = true

theorem Environment.mem_of_account {env : Environment} {operand : Value} {a : Address}
    (h : env.account operand = .ok a) : a ∈ env.current.accessibleAccounts := by
  unfold account at h
  cases operand with
  | int index =>
    dsimp only at h
    split at h
    · next hfound =>
      cases h
      exact Transaction.mem_of_accountAt? hfound
    · cases h
  | bytes b =>
    dsimp only at h
    split at h
    · next hfound =>
      cases h
      exact List.contains_iff_mem.1 (Option.filter_eq_some_iff.1 hfound).2
    · cases h

namespace Machine

variable {env : Environment} {m m' : Machine} {i : Instruction}

/-- What an instruction can make of a machine. -/
inductive Executed (env : Environment) (i : Instruction) (m : Machine) : Machine → Prop
  | stack (s : Stack) : Executed env i m { m with stack := s }
  | jump (s : Stack) {t : Nat} : i.op.immediateKind = .label → i.imm = .target t →
      t ≤ env.program.size → Executed env i m { m with stack := s, pc := t }
  | verdict (s : Stack) (b : Bool) : Executed env i m { m with stack := s, verdict := some b }
  | log (s : Stack) (b : Bytes) : m.logs.length < maxLogEntries →
      m.logSize + b.length ≤ maxLogBytes →
      Executed env i m
        { m with stack := s, logs := m.logs ++ [b], logSize := m.logSize + b.length }
  | globalPut (s : Stack) {key : Bytes} {x : Value} {v : View} :
      (m.view env).putGlobal key x = .ok v →
      Executed env i m { m with stack := s, pending := v.pending }
  | localPut (s : Stack) {a : Address} {key : Bytes} {x : Value} {v : View} : env.MayWrite a →
      (m.view env).putLocal a key x = .ok v →
      Executed env i m { m with stack := s, pending := v.pending }

theorem executed_of_push {v : Value} (h : m.push v = .ok m') : Executed env i m m' := by
  obtain ⟨s, -, h⟩ := bind_eq_ok.1 h
  cases h
  exact .stack s

theorem executed_of_constant (h : m.constant env i = .ok m') : Executed env i m m' := by
  unfold constant at h
  split at h
  · exact executed_of_push h
  · exact executed_of_push h
  · exact executed_of_push h
  · obtain ⟨v, -, h⟩ := bind_eq_ok.1 h
    exact executed_of_push h
  · obtain ⟨v, -, h⟩ := bind_eq_ok.1 h
    exact executed_of_push h
  · exact executed_of_push h
  · cases h

theorem jumpTarget_eq {t : Nat} (h : jumpTarget env i = .ok t) :
    i.imm = .target t ∧ t ≤ env.program.size := by
  unfold jumpTarget at h
  split at h
  · next t' ht =>
    split at h
    · next hle =>
      cases h
      exact ⟨ht, hle⟩
    · cases h
  · cases h

theorem executed_of_branch {taken : UInt64 → Bool} (hk : i.op.immediateKind = .label)
    (h : m.branch env i taken = .ok m') : Executed env i m m' := by
  obtain ⟨t, ht, h⟩ := bind_eq_ok.1 h
  obtain ⟨⟨n, s⟩, -, h⟩ := bind_eq_ok.1 h
  obtain ⟨himm, hle⟩ := jumpTarget_eq ht
  cases h
  cases taken n with
  | true => exact .jump s hk himm hle
  | false => exact .stack s

theorem executed_of_log (h : m.log = .ok m') : Executed env i m m' := by
  obtain ⟨⟨b, s⟩, -, h⟩ := bind_eq_ok.1 h
  dsimp only at h
  split at h
  · cases h
  · next hroom =>
    cases h
    exact .log s b (by omega) (by omega)

theorem executed_of_globalGet (h : m.globalGet env = .ok m') : Executed env i m m' := by
  obtain ⟨⟨key, s⟩, -, h⟩ := bind_eq_ok.1 h
  obtain ⟨s', -, h⟩ := bind_eq_ok.1 h
  cases h
  exact .stack s'

theorem executed_of_globalGetEx (h : m.globalGetEx env = .ok m') : Executed env i m m' := by
  obtain ⟨⟨key, s⟩, -, h⟩ := bind_eq_ok.1 h
  obtain ⟨⟨app, s⟩, -, h⟩ := bind_eq_ok.1 h
  obtain ⟨_, -, h⟩ := bind_eq_ok.1 h
  obtain ⟨s', -, h⟩ := bind_eq_ok.1 h
  cases h
  exact .stack s'

theorem executed_of_globalPut (h : m.globalPut env = .ok m') : Executed env i m m' := by
  obtain ⟨⟨value, s⟩, -, h⟩ := bind_eq_ok.1 h
  obtain ⟨⟨key, s⟩, -, h⟩ := bind_eq_ok.1 h
  dsimp only at h
  split at h
  · next v hput =>
    cases h
    exact .globalPut s hput
  · cases h

/-- An account taken from the stack is one the program has access to. -/
theorem mem_of_popAccount {s s' : Stack} {a : Address} (h : popAccount env s = .ok (a, s')) :
    a ∈ env.current.accessibleAccounts := by
  obtain ⟨⟨v, s''⟩, -, h⟩ := bind_eq_ok.1 h
  obtain ⟨a', ha, h⟩ := bind_eq_ok.1 h
  cases h
  exact Environment.mem_of_account ha

theorem executed_of_localGet (h : m.localGet env = .ok m') : Executed env i m m' := by
  obtain ⟨⟨key, s⟩, -, h⟩ := bind_eq_ok.1 h
  obtain ⟨⟨account, s⟩, -, h⟩ := bind_eq_ok.1 h
  obtain ⟨s', -, h⟩ := bind_eq_ok.1 h
  cases h
  exact .stack s'

theorem executed_of_localGetEx (h : m.localGetEx env = .ok m') : Executed env i m m' := by
  obtain ⟨⟨key, s⟩, -, h⟩ := bind_eq_ok.1 h
  obtain ⟨⟨app, s⟩, -, h⟩ := bind_eq_ok.1 h
  obtain ⟨⟨account, s⟩, -, h⟩ := bind_eq_ok.1 h
  obtain ⟨_, -, h⟩ := bind_eq_ok.1 h
  obtain ⟨s', -, h⟩ := bind_eq_ok.1 h
  cases h
  exact .stack s'

theorem executed_of_localPut (h : m.localPut env = .ok m') : Executed env i m m' := by
  obtain ⟨⟨value, s⟩, -, h⟩ := bind_eq_ok.1 h
  obtain ⟨⟨key, s⟩, -, h⟩ := bind_eq_ok.1 h
  obtain ⟨⟨account, s⟩, haccount, h⟩ := bind_eq_ok.1 h
  dsimp only at h
  split at h
  · cases h
  · next hmay =>
    split at h
    · next v hput =>
      cases h
      exact .localPut s ⟨mem_of_popAccount haccount, by simpa using hmay⟩ hput
    · cases h

/-- What one instruction can make of a machine. -/
theorem executed_of_exec (h : m.exec env i = .ok m') : Executed env i m m' := by
  unfold exec at h
  split at h
  all_goals rename_i hop
  case h_1 | h_2 | h_3 | h_4 | h_5 => exact executed_of_constant h
  case h_6 | h_7 | h_8 =>
    obtain ⟨s, -, h⟩ := bind_eq_ok.1 h
    cases h
    exact .stack _
  case h_9 =>
    obtain ⟨s, -, h⟩ := bind_eq_ok.1 h
    exact executed_of_push h
  case h_10 | h_11 => exact executed_of_branch (by rw [hop]; rfl) h
  case h_12 =>
    obtain ⟨t, ht, h⟩ := bind_eq_ok.1 h
    obtain ⟨himm, hle⟩ := jumpTarget_eq ht
    cases h
    exact .jump m.stack (by rw [hop]; rfl) himm hle
  case h_13 => cases h
  case h_14 =>
    obtain ⟨⟨n, s⟩, -, h⟩ := bind_eq_ok.1 h
    cases h
    exact .verdict s _
  case h_15 => exact executed_of_log h
  case h_16 => exact executed_of_globalGet h
  case h_17 => exact executed_of_globalGetEx h
  case h_18 => exact executed_of_globalPut h
  case h_19 => exact executed_of_localGet h
  case h_20 => exact executed_of_localGetEx h
  case h_21 => exact executed_of_localPut h

/-! ## The counters -/

/-- The counters are left alone, but a jump may move the program counter. -/
structure Moves (env : Environment) (i : Instruction) (m m' : Machine) : Prop where
  pc : m'.pc = m.pc ∨
    i.op.immediateKind = .label ∧ i.imm = .target m'.pc ∧ m'.pc ≤ env.program.size
  cost : m'.cost = m.cost

/-- What one instruction does to the counters. -/
theorem moves_of_exec (h : m.exec env i = .ok m') : Moves env i m m' := by
  cases executed_of_exec h with
  | jump s hk himm hle => exact ⟨.inr ⟨hk, himm, hle⟩, rfl⟩
  | stack | verdict | log | globalPut | localPut => exact ⟨.inl rfl, rfl⟩

end Machine

end ContractBench
