import ContractBench.Proofs.Machine.Reports
import ContractBench.Proofs.Machine.Step
/-!
# What an instruction takes and leaves

An instruction takes as many values from the stack as its opcode pops and leaves as many as its
opcode pushes; what lies below stays as it is. It underflows only if the stack holds fewer values
than it takes, and overflows only if the stack would hold too many behind it. Then control goes to
the next instruction, to the target of a jump, or to the end:

    Exchanges (Continues i m) m.stack i.op.pops i.op.pushes (m.exec env i)    (exchanges_exec)
-/

namespace ContractBench

/-- A fault that tells that a run is at one of its limits. -/
def Fault.isLimit : Fault → Bool
  | .stackOverflow | .stackUnderflow | .costBudgetExceeded _ => true
  | _ => false

/-- A computation that never faults at a limit. -/
def WithoutLimits {α : Type} (x : Except Fault α) : Prop := ∀ e, x = .error e → e.isLimit = false

theorem WithoutLimits.of_reports {α : Type} {x : Except Fault α} (h : Reports x) :
    WithoutLimits x := by
  intro e he
  have hr := h e he
  cases e <;> first | rfl | cases hr

/-! ## Exchanges on a stack -/

/-- A computation takes `pops` values from a stack and leaves `pushes` in their place; `Q` relates
the stack that results to what the computation gives. -/
inductive Exchanges {β : Type} (Q : Stack → β → Prop) (s : Stack) (pops pushes : Nat) :
    Except Fault β → Prop
  | done (top new : Stack) {rest : Stack} {b : β} : s = top ++ rest → top.length = pops →
      new.length = pushes → new = [] ∨ (new ++ rest).length ≤ maxStackSize → Q (new ++ rest) b →
        Exchanges Q s pops pushes (.ok b)
  | underflow : s.length < pops → Exchanges Q s pops pushes (.error .stackUnderflow)
  | overflow (top : Stack) {rest : Stack} : s = top ++ rest → top.length = pops →
      maxStackSize < rest.length + pushes → Exchanges Q s pops pushes (.error .stackOverflow)
  | fault {e : Fault} : e.isLimit = false → Exchanges Q s pops pushes (.error e)

/-- A computation takes the value on top of a stack and makes something of it. -/
inductive TakesTop {α : Type} : Stack → Except Fault (α × Stack) → Prop
  | taken (v : Value) (a : α) (s : Stack) : TakesTop (v :: s) (.ok (a, s))
  | empty : TakesTop [] (.error .stackUnderflow)
  | fault {s : Stack} {e : Fault} : e.isLimit = false → TakesTop s (.error e)

namespace Exchanges

variable {α β : Type} {Q Q' : Stack → β → Prop} {s : Stack} {pops pushes : Nat}

theorem mono {x : Except Fault β} (h : Exchanges Q s pops pushes x) (hq : ∀ t b, Q t b → Q' t b) :
    Exchanges Q' s pops pushes x := by
  cases h with
  | done top new hs ht hn hlen hb => exact .done top new hs ht hn hlen (hq _ _ hb)
  | underflow hs => exact .underflow hs
  | overflow top hs ht hlen => exact .overflow top hs ht hlen
  | fault he => exact .fault he

/-- One value is taken before the rest of the exchange. -/
theorem take {x : Except Fault (α × Stack)} {f : α × Stack → Except Fault β} (hx : TakesTop s x)
    (h : ∀ a rest, Exchanges Q rest pops pushes (f (a, rest))) :
    Exchanges Q s (pops + 1) pushes (x >>= f) := by
  cases hx with
  | empty => exact .underflow (Nat.succ_pos pops)
  | fault he => exact .fault he
  | taken v a rest =>
    show Exchanges Q (v :: rest) (pops + 1) pushes (f (a, rest))
    generalize f (a, rest) = y, h a rest = hy
    cases hy with
    | @done top new below b hs ht hn hlen hb =>
      have htop : (v :: top).length = pops + 1 := by rw [List.length_cons, ht]
      exact .done (v :: top) new (by rw [hs]; rfl) htop hn hlen hb
    | underflow hs => exact .underflow (Nat.succ_lt_succ hs)
    | @overflow top below hs ht hlen =>
      have htop : (v :: top).length = pops + 1 := by rw [List.length_cons, ht]
      exact .overflow (v :: top) (by rw [hs]; rfl) htop hlen
    | fault he => exact .fault he

/-- A check or a result that is worked out does not touch the stack. -/
theorem check {x : Except Fault α} {f : α → Except Fault β} (hx : WithoutLimits x)
    (h : ∀ a, Exchanges Q s pops pushes (f a)) : Exchanges Q s pops pushes (x >>= f) := by
  cases x with
  | error e => exact .fault (hx e rfl)
  | ok a => exact h a

/-- The stack that results is put in its place. -/
theorem into {x : Except Fault Stack} {f : Stack → β}
    (h : Exchanges (fun t b => b = t) s pops pushes x) (hq : ∀ t, Q t (f t)) :
    Exchanges Q s pops pushes (x >>= fun t => .ok (f t)) := by
  cases h with
  | done top new hs ht hn hlen hb =>
    subst hb
    exact .done top new hs ht hn hlen (hq _)
  | underflow hs => exact .underflow hs
  | overflow top hs ht hlen => exact .overflow top hs ht hlen
  | fault he => exact .fault he

/-- Nothing is taken and nothing left. -/
theorem keep {b : β} (hb : Q s b) : Exchanges Q s 0 0 (.ok b) :=
  .done [] [] rfl rfl rfl (.inl rfl) hb

end Exchanges

/-! ## Stacks -/

namespace Stack

variable {s : Stack}

theorem takesTop_pop : TakesTop s s.pop := by
  cases s with
  | nil => exact .empty
  | cons v s => exact .taken v v s

theorem takesTop_popInt (op : Opcode) : TakesTop s (s.popInt op) := by
  match s with
  | [] => exact .empty
  | .int n :: s => exact .taken (.int n) n s
  | .bytes b :: s => exact .fault rfl

theorem takesTop_popBytes (op : Opcode) : TakesTop s (s.popBytes op) := by
  match s with
  | [] => exact .empty
  | .bytes b :: s => exact .taken (.bytes b) b s
  | .int n :: s => exact .fault rfl

theorem exchanges_push (v : Value) : Exchanges (fun t b => b = t) s 0 1 (s.push v) := by
  unfold push
  split
  · next hfull => exact .overflow [] rfl rfl (Nat.lt_succ_of_le hfull)
  · next hroom =>
    have hlen : (v :: s).length ≤ maxStackSize := Nat.lt_of_not_le hroom
    exact .done [] [v] rfl rfl rfl (.inr hlen) rfl

/-- Two values, one on the other. -/
theorem exchanges_push_push (v w : Value) :
    Exchanges (fun t b => b = t) s 0 2 (s.push v >>= fun t => t.push w) := by
  have hv := exchanges_push (s := s) v
  generalize s.push v = x at hv
  cases hv with
  | underflow hs => exact absurd hs (Nat.not_lt_zero _)
  | fault he => exact .fault he
  | overflow top hs ht hlen => exact .overflow top hs ht (Nat.lt_succ_of_lt hlen)
  | @done top new rest t hs ht hn hlen hb =>
    subst hb
    show Exchanges _ s 0 2 (push (new ++ rest) w)
    unfold push
    split
    · next hfull =>
      refine .overflow top hs ht ?_
      rw [List.length_append, hn] at hfull
      omega
    · next hroom =>
      have hlen' : (w :: new ++ rest).length ≤ maxStackSize := Nat.lt_of_not_le hroom
      exact .done top (w :: new) hs ht (by rw [List.length_cons, hn]) (.inr hlen') rfl

theorem exchanges_pushLookup (found : Option Value) :
    Exchanges (fun t b => b = t) s 0 2 (s.pushLookup found) := by
  cases found with
  | none => exact exchanges_push_push (.int 0) (.int 0)
  | some v => exact exchanges_push_push v (.int 1)

/-! ### Operators -/

theorem exchanges_onInts (op : BinaryOp) {f : UInt64 → UInt64 → Except Fault UInt64}
    (hf : ∀ a b, WithoutLimits (f a b)) :
    Exchanges (fun t b => b = t) s 2 1 (onInts op f s) := by
  refine .take (takesTop_popInt _) fun b rest => ?_
  refine .take (takesTop_popInt _) fun a rest => ?_
  exact .check (hf a b) fun n => exchanges_push _

theorem exchanges_onEqual (op : BinaryOp) (f : Bool → Bool) :
    Exchanges (fun t b => b = t) s 2 1 (onEqual op f s) := by
  refine .take takesTop_pop fun b rest => ?_
  refine .take takesTop_pop fun a rest => ?_
  dsimp only
  split
  · exact .fault rfl
  · exact exchanges_push _

theorem exchanges_onConcat : Exchanges (fun t b => b = t) s 2 1 (onConcat s) := by
  refine .take (takesTop_popBytes _) fun b rest => ?_
  refine .take (takesTop_popBytes _) fun a rest => ?_
  dsimp only
  split
  · exact .fault rfl
  · exact exchanges_push _

theorem exchanges_binary (op : BinaryOp) :
    Exchanges (fun t b => b = t) s 2 1 (binary op s) := by
  generalize binary op = f, applies_binary op = h
  cases h with
  | equal g => exact exchanges_onEqual op g
  | concat => exact exchanges_onConcat
  | ints hf => exact exchanges_onInts op fun a b => .of_reports (hf a b)

theorem exchanges_unary (op : UnaryOp) : Exchanges (fun t b => b = t) s 1 1 (unary op s) := by
  cases op with
  | not => exact .take (takesTop_popInt _) fun a rest => exchanges_push _
  | len => exact .take (takesTop_popBytes _) fun b rest => exchanges_push _
  | itob => exact .take (takesTop_popInt _) fun a rest => exchanges_push _
  | btoi =>
    refine .take (takesTop_popBytes _) fun b rest => ?_
    dsimp only
    split
    · exact .fault rfl
    · exact exchanges_push _

end Stack

/-! ## Accounts and targets -/

namespace Machine

variable (env : Environment) (m : Machine) (i : Instruction)

theorem takesTop_popAccount {s : Stack} : TakesTop s (popAccount env s) := by
  cases s with
  | nil => exact .empty
  | cons v s =>
    show TakesTop (v :: s) (env.account v >>= fun a => .ok (a, s))
    have ha := WithoutLimits.of_reports (env.reports_account v)
    cases hv : env.account v with
    | error e => exact .fault (ha e hv)
    | ok a => exact .taken v a s

theorem withoutLimits_jumpTarget : WithoutLimits (jumpTarget env i) := by
  intro e he
  unfold jumpTarget at he
  split at he
  · split at he
    · cases he
    · cases he
      rfl
  · cases he
    rfl

/-! ## Machines -/

/-- Only the stack, the logs and the writes of a machine changed. -/
structure Stays (t : Stack) (m' : Machine) : Prop where
  stack : m'.stack = t
  pc : m'.pc = m.pc
  verdict : m'.verdict = m.verdict

/-- Where control is behind an instruction that left a stack. The program counter stood behind the
instruction when it began. -/
inductive Continues (t : Stack) : Machine → Prop
  | next {m' : Machine} : i.op.endsBlock = false → Stays m t m' → Continues t m'
  | jump {m' : Machine} : i.op.immediateKind = .label → i.imm = .target m'.pc →
      m'.pc ≤ env.program.size → m'.stack = t → m'.verdict = m.verdict → Continues t m'
  | verdict {m' : Machine} : i.op = .ret → m'.verdict.isSome → m'.pc = m.pc → m'.stack = t →
      Continues t m'

variable {m}

theorem exchanges_stack {pops pushes : Nat} {x : Except Fault Stack}
    (h : Exchanges (fun t b => b = t) m.stack pops pushes x) :
    Exchanges (Stays m) m.stack pops pushes (do return { m with stack := ← x }) :=
  h.into fun _ => ⟨rfl, rfl, rfl⟩

variable (m)

theorem exchanges_constant : Exchanges (Stays m) m.stack 0 1 (m.constant env i) := by
  have hpush : ∀ v, Exchanges (Stays m) m.stack 0 1 (m.push v) := fun v =>
    exchanges_stack (Stack.exchanges_push v)
  unfold constant
  split
  · exact hpush _
  · exact hpush _
  · exact hpush _
  · exact .check (.of_reports (env.reports_memberField _ _)) hpush
  · exact .check (.of_reports (env.reports_memberField _ _)) hpush
  · exact hpush _
  · exact .fault rfl

theorem exchanges_branch (taken : UInt64 → Bool) (hk : i.op.immediateKind = .label)
    (hn : i.op.endsBlock = false) :
    Exchanges (Continues env m i) m.stack 1 0 (m.branch env i taken) := by
  unfold branch
  cases ht : jumpTarget env i with
  | error e => exact .fault (withoutLimits_jumpTarget env i e ht)
  | ok target =>
    obtain ⟨himm, hle⟩ := jumpTarget_eq ht
    refine .take (Stack.takesTop_popInt _) fun n rest => .keep ?_
    cases taken n with
    | true => exact .jump hk himm hle rfl rfl
    | false => exact .next hn ⟨rfl, rfl, rfl⟩

theorem exchanges_jump (hk : i.op.immediateKind = .label) :
    Exchanges (Continues env m i) m.stack 0 0 (do return { m with pc := ← jumpTarget env i }) := by
  cases ht : jumpTarget env i with
  | error e => exact .fault (withoutLimits_jumpTarget env i e ht)
  | ok target =>
    obtain ⟨himm, hle⟩ := jumpTarget_eq ht
    exact .keep (.jump hk himm hle rfl rfl)

theorem exchanges_ret (hop : i.op = .ret) :
    Exchanges (Continues env m i) m.stack 1 0 (do
      let (n, s) ← m.stack.popInt .ret
      return { m with stack := s, verdict := some (n != 0) }) := by
  refine .take (Stack.takesTop_popInt _) fun n rest => .keep ?_
  exact .verdict hop rfl rfl rfl

theorem exchanges_log : Exchanges (Stays m) m.stack 1 0 m.log := by
  refine .take (Stack.takesTop_popBytes _) fun b rest => ?_
  dsimp only
  split
  · exact .fault rfl
  · exact .keep ⟨rfl, rfl, rfl⟩

/-- What is on top stays below its copy. -/
theorem exchanges_dup : Exchanges (Stays m) m.stack 1 2 (do m.push (← m.stack.pop).1) := by
  cases hs : m.stack with
  | nil => exact .underflow Nat.one_pos
  | cons v rest =>
    show Exchanges (Stays m) (v :: rest) 1 2
      (m.stack.push v >>= fun t => .ok { m with stack := t })
    rw [hs, Stack.push]
    split
    · next hfull => exact .overflow [v] rfl rfl (Nat.lt_succ_of_le hfull)
    · next hroom =>
      have hlen : (v :: v :: rest).length ≤ maxStackSize := Nat.lt_of_not_le hroom
      exact .done [v] [v, v] rfl rfl rfl (.inr hlen) ⟨rfl, rfl, rfl⟩

/-! ### State -/

theorem exchanges_globalGet : Exchanges (Stays m) m.stack 1 1 (m.globalGet env) := by
  refine .take (Stack.takesTop_popBytes _) fun key rest => ?_
  exact (Stack.exchanges_push _).into fun _ => ⟨rfl, rfl, rfl⟩

theorem exchanges_globalGetEx : Exchanges (Stays m) m.stack 2 2 (m.globalGetEx env) := by
  refine .take (Stack.takesTop_popBytes _) fun key rest => ?_
  refine .take (Stack.takesTop_popInt _) fun app rest => ?_
  refine .check (.of_reports (env.reports_checkOwnApp app)) fun _ => ?_
  exact (Stack.exchanges_pushLookup _).into fun _ => ⟨rfl, rfl, rfl⟩

theorem exchanges_globalPut : Exchanges (Stays m) m.stack 2 0 (m.globalPut env) := by
  refine .take Stack.takesTop_pop fun value rest => ?_
  refine .take (Stack.takesTop_popBytes _) fun key rest => ?_
  dsimp only
  split
  · exact .keep ⟨rfl, rfl, rfl⟩
  · exact .fault rfl

theorem exchanges_localGet : Exchanges (Stays m) m.stack 2 1 (m.localGet env) := by
  refine .take (Stack.takesTop_popBytes _) fun key rest => ?_
  refine .take (takesTop_popAccount env) fun account rest => ?_
  exact (Stack.exchanges_push _).into fun _ => ⟨rfl, rfl, rfl⟩

theorem exchanges_localGetEx : Exchanges (Stays m) m.stack 3 2 (m.localGetEx env) := by
  refine .take (Stack.takesTop_popBytes _) fun key rest => ?_
  refine .take (Stack.takesTop_popInt _) fun app rest => ?_
  refine .take (takesTop_popAccount env) fun account rest => ?_
  refine .check (.of_reports (env.reports_checkOwnApp app)) fun _ => ?_
  exact (Stack.exchanges_pushLookup _).into fun _ => ⟨rfl, rfl, rfl⟩

theorem exchanges_localPut : Exchanges (Stays m) m.stack 3 0 (m.localPut env) := by
  refine .take Stack.takesTop_pop fun value rest => ?_
  refine .take (Stack.takesTop_popBytes _) fun key rest => ?_
  refine .take (takesTop_popAccount env) fun account rest => ?_
  dsimp only
  split
  · exact .fault rfl
  · split
    · exact .keep ⟨rfl, rfl, rfl⟩
    · exact .fault rfl

/-! ### All instructions -/

/-- An instruction exchanges what its opcode pops and pushes, and control continues behind it or at
the target of a jump, or a verdict ends the run. -/
theorem exchanges_exec :
    Exchanges (Continues env m i) m.stack i.op.pops i.op.pushes (m.exec env i) := by
  obtain ⟨op, imm⟩ := i
  have hstays : ∀ {i : Instruction} {pops pushes : Nat} {x : Except Fault Machine},
      i.op.endsBlock = false → Exchanges (Stays m) m.stack pops pushes x →
        Exchanges (Continues env m i) m.stack pops pushes x :=
    fun hn h => h.mono fun _ _ hs => .next hn hs
  cases op with
  | int | byte | txn | gtxn | global => exact hstays rfl (exchanges_constant env m _)
  | binary op => exact hstays rfl (exchanges_stack (Stack.exchanges_binary op))
  | unary op => exact hstays rfl (exchanges_stack (Stack.exchanges_unary op))
  | pop => exact hstays rfl (.take Stack.takesTop_pop fun v rest => .keep ⟨rfl, rfl, rfl⟩)
  | dup => exact hstays rfl (exchanges_dup m)
  | bnz => exact exchanges_branch env m _ (· != 0) rfl rfl
  | bz => exact exchanges_branch env m _ (· == 0) rfl rfl
  | jump => exact exchanges_jump env m _ rfl
  | err => exact .fault rfl
  | ret => exact exchanges_ret env m _ rfl
  | log => exact hstays rfl (exchanges_log m)
  | appGlobalGet => exact hstays rfl (exchanges_globalGet env m)
  | appGlobalGetEx => exact hstays rfl (exchanges_globalGetEx env m)
  | appGlobalPut => exact hstays rfl (exchanges_globalPut env m)
  | appLocalGet => exact hstays rfl (exchanges_localGet env m)
  | appLocalGetEx => exact hstays rfl (exchanges_localGetEx env m)
  | appLocalPut => exact hstays rfl (exchanges_localPut env m)

/-! ## What follows for one instruction -/

variable {env : Environment} {m m' : Machine} {i : Instruction}

/-- An instruction that succeeds puts new values in place of those it takes from the top. -/
theorem exchanged_of_exec (h : m.exec env i = .ok m') :
    ∃ top new rest, m.stack = top ++ rest ∧ m'.stack = new ++ rest ∧
      top.length = i.op.pops ∧ new.length = i.op.pushes := by
  have hx := exchanges_exec env m i
  rw [h] at hx
  cases hx with
  | @done top new rest _ hs ht hn hlen hc =>
    have hstack : m'.stack = new ++ rest := by
      cases hc with
      | next _ hstays => exact hstays.stack
      | jump _ _ _ hstack => exact hstack
      | verdict _ _ _ hstack => exact hstack
    exact ⟨top, new, rest, hs, hstack, ht, hn⟩

/-- The stack holds what an instruction takes, and is as much shorter or longer behind it. -/
theorem length_of_exec (h : m.exec env i = .ok m') :
    i.op.pops ≤ m.stack.length ∧
      m'.stack.length = m.stack.length - i.op.pops + i.op.pushes := by
  obtain ⟨top, new, rest, hs, hstack, ht, hn⟩ := exchanged_of_exec h
  rw [hs, hstack, List.length_append, List.length_append, ht, hn]
  constructor <;> omega

/-- A stack within its limit stays within it. -/
theorem stack_le_of_exec (h : m.exec env i = .ok m') (hm : m.stack.length ≤ maxStackSize) :
    m'.stack.length ≤ maxStackSize := by
  have hx := exchanges_exec env m i
  obtain ⟨hle, hlen⟩ := length_of_exec h
  rw [h] at hx
  cases hx with
  | @done top new rest _ hs ht hn hroom hc =>
    have hrest : m.stack.length = i.op.pops + rest.length := by rw [hs, List.length_append, ht]
    rcases hroom with rfl | hroom
    · have hpushes : i.op.pushes = 0 := hn.symm
      omega
    · rw [List.length_append, hn] at hroom
      omega

/-- Where control is behind an instruction. -/
theorem continues_of_exec (h : m.exec env i = .ok m') : ∃ t, Continues env m i t m' := by
  have hx := exchanges_exec env m i
  rw [h] at hx
  cases hx with
  | done _ _ _ _ _ _ hc => exact ⟨_, hc⟩

theorem lt_pops_of_exec (h : m.exec env i = .error .stackUnderflow) :
    m.stack.length < i.op.pops := by
  have hx := exchanges_exec env m i
  rw [h] at hx
  cases hx with
  | underflow hs => exact hs
  | fault he => cases he

/-- An overflow means that the stack would be too long behind the instruction. -/
theorem overflow_of_exec (h : m.exec env i = .error .stackOverflow) :
    maxStackSize < m.stack.length - i.op.pops + i.op.pushes := by
  have hx := exchanges_exec env m i
  rw [h] at hx
  cases hx with
  | overflow top hs ht hlen =>
    rw [hs, List.length_append, ht]
    omega
  | fault he => cases he

/-- An instruction never finds that the budget is used up. -/
theorem exec_ne_costBudgetExceeded (budget : UInt64) :
    m.exec env i ≠ .error (.costBudgetExceeded budget) := by
  intro h
  have hx := exchanges_exec env m i
  rw [h] at hx
  cases hx with
  | fault he => cases he

end Machine

end ContractBench
