import ContractBench.Proofs.Assembly.Line
import ContractBench.Proofs.Machine.Metered
/-!
# Programs that make sense

An instruction makes sense in a program of some size if its immediate is of the kind of its opcode
and its jump, if it is one, goes to an instruction or behind the last one
(`Instruction.Resolved`). The machine never finds such an instruction malformed and never finds its
jump invalid, so a program made of them never fails for one of these reasons:

    i.Resolved env.program.size → Understood (m.exec env i)                 (understood_exec)
    (∀ i ∈ env.program.instructions, i.Resolved env.program.size) → Understood env.run.1
                                                                             (understood_run)
-/

namespace ContractBench

/-! ## Algorithm -/

/-- An instruction that makes sense in a program of a size. -/
structure Instruction.Resolved (size : Nat) (i : Instruction) : Prop where
  operand : i.op.immediateKind ≠ .label → i.op.immediateKind.Takes i.imm
  target : i.op.immediateKind = .label → ∃ t, i.imm = .target t ∧ t ≤ size

/-- A fault that tells of an instruction that makes no sense. -/
def Fault.isMalformed : Fault → Bool
  | .malformedInstruction _ | .invalidJump _ => true
  | _ => false

/-- A computation never fails for an instruction that makes no sense. -/
def Understood {α : Type} (x : Except Fault α) : Prop :=
  ∀ e, x = .error e → e.isMalformed = false

/-! ## Lemmas -/

namespace Understood

variable {α β : Type} {x : Except Fault α}

theorem ok (a : α) : Understood (.ok a : Except Fault α) := by
  intro e he
  cases he

theorem error {e : Fault} (h : e.isMalformed = false) : Understood (.error e : Except Fault α) := by
  rintro _ ⟨⟩
  exact h

theorem of_reports (h : Reports x) : Understood x := by
  intro e he
  have hr := h e he
  cases e <;> first | rfl | cases hr

theorem bind {f : α → Except Fault β} (hx : Understood x) (hf : ∀ a, Understood (f a)) :
    Understood (x >>= f) := by
  cases x with
  | error e => exact .error (hx e rfl)
  | ok a => exact hf a

end Understood

/-! ### Stacks -/

namespace Stack

variable {s : Stack}

theorem understood_push (v : Value) : Understood (s.push v) := by
  unfold push
  split
  · exact .error rfl
  · exact .ok _

theorem understood_pop : Understood s.pop := by
  cases s with
  | nil => exact .error rfl
  | cons v s => exact .ok _

theorem understood_popInt (op : Opcode) : Understood (s.popInt op) := by
  match s with
  | [] => exact .error rfl
  | .int _ :: _ => exact .ok _
  | .bytes _ :: _ => exact .error rfl

theorem understood_popBytes (op : Opcode) : Understood (s.popBytes op) := by
  match s with
  | [] => exact .error rfl
  | .bytes _ :: _ => exact .ok _
  | .int _ :: _ => exact .error rfl

theorem understood_pushLookup (found : Option Value) : Understood (s.pushLookup found) := by
  cases found with
  | none => exact (understood_push _).bind fun _ => understood_push _
  | some v => exact (understood_push v).bind fun _ => understood_push _

/-! ### Operators -/

theorem understood_onInts (op : BinaryOp) {f : UInt64 → UInt64 → Except Fault UInt64}
    (hf : ∀ a b, Understood (f a b)) : Understood (onInts op f s) := by
  refine (understood_popInt _).bind fun b => (understood_popInt _).bind fun a => ?_
  exact (hf _ _).bind fun n => understood_push _

theorem understood_onEqual (op : BinaryOp) (f : Bool → Bool) : Understood (onEqual op f s) := by
  refine understood_pop.bind fun b => understood_pop.bind fun a => ?_
  dsimp only
  split
  · exact .error rfl
  · exact understood_push _

theorem understood_onConcat : Understood (onConcat s) := by
  refine (understood_popBytes _).bind fun b => (understood_popBytes _).bind fun a => ?_
  dsimp only
  split
  · exact .error rfl
  · exact understood_push _

theorem understood_binary (op : BinaryOp) : Understood (binary op s) := by
  generalize binary op = f, applies_binary op = h
  cases h with
  | equal g => exact understood_onEqual op g
  | concat => exact understood_onConcat
  | ints hf => exact understood_onInts op fun a b => .of_reports (hf a b)

theorem understood_unary (op : UnaryOp) : Understood (unary op s) := by
  cases op with
  | not | itob => exact (understood_popInt _).bind fun _ => understood_push _
  | len => exact (understood_popBytes _).bind fun _ => understood_push _
  | btoi =>
    refine (understood_popBytes _).bind fun b => ?_
    dsimp only
    split
    · exact .error rfl
    · exact understood_push _

end Stack

/-! ### Instructions -/

namespace Machine

variable (env : Environment) (m : Machine)

theorem understood_account (operand : Value) : Understood (env.account operand) :=
  .of_reports (env.reports_account operand)

theorem understood_memberField (index : Nat) (f : TxnField) :
    Understood (env.memberField index f) :=
  .of_reports (env.reports_memberField index f)

theorem understood_checkOwnApp (appId : UInt64) : Understood (env.checkOwnApp appId) :=
  .of_reports (env.reports_checkOwnApp appId)

theorem understood_popAccount {s : Stack} : Understood (popAccount env s) :=
  Stack.understood_pop.bind fun _ => (understood_account env _).bind fun _ => .ok _

theorem understood_pushed (v : Value) : Understood (m.push v) :=
  (Stack.understood_push v).bind fun _ => .ok _

theorem understood_log : Understood m.log := by
  refine (Stack.understood_popBytes _).bind fun b => ?_
  dsimp only
  split
  · exact .error rfl
  · exact .ok _

theorem understood_globalGet : Understood (m.globalGet env) :=
  (Stack.understood_popBytes _).bind fun _ => (Stack.understood_push _).bind fun _ => .ok _

theorem understood_globalGetEx : Understood (m.globalGetEx env) := by
  refine (Stack.understood_popBytes _).bind fun _ => (Stack.understood_popInt _).bind fun _ => ?_
  refine (understood_checkOwnApp env _).bind fun _ => ?_
  exact (Stack.understood_pushLookup _).bind fun _ => .ok _

theorem understood_globalPut : Understood (m.globalPut env) := by
  refine Stack.understood_pop.bind fun _ => (Stack.understood_popBytes _).bind fun _ => ?_
  dsimp only
  split
  · exact .ok _
  · exact .error rfl

theorem understood_localGet : Understood (m.localGet env) := by
  refine (Stack.understood_popBytes _).bind fun _ => (understood_popAccount env).bind fun _ => ?_
  exact (Stack.understood_push _).bind fun _ => .ok _

theorem understood_localGetEx : Understood (m.localGetEx env) := by
  refine (Stack.understood_popBytes _).bind fun _ => (Stack.understood_popInt _).bind fun _ => ?_
  refine (understood_popAccount env).bind fun _ => (understood_checkOwnApp env _).bind fun _ => ?_
  exact (Stack.understood_pushLookup _).bind fun _ => .ok _

theorem understood_localPut : Understood (m.localPut env) := by
  refine Stack.understood_pop.bind fun _ => (Stack.understood_popBytes _).bind fun _ => ?_
  refine (understood_popAccount env).bind fun _ => ?_
  dsimp only
  split
  · exact .error rfl
  · split
    · exact .ok _
    · exact .error rfl

variable {env} {i : Instruction}

/-- A jump whose target is in the program goes there. -/
theorem jumpTarget_of_resolved (h : i.Resolved env.program.size)
    (hk : i.op.immediateKind = .label) : ∃ t, jumpTarget env i = .ok t := by
  obtain ⟨t, himm, hle⟩ := h.target hk
  refine ⟨t, ?_⟩
  unfold jumpTarget
  rw [himm]
  exact if_pos hle

theorem understood_jumpTarget (h : i.Resolved env.program.size)
    (hk : i.op.immediateKind = .label) : Understood (jumpTarget env i) := by
  obtain ⟨t, ht⟩ := jumpTarget_of_resolved h hk
  rw [ht]
  exact .ok t

theorem understood_branch (h : i.Resolved env.program.size) (hk : i.op.immediateKind = .label)
    (taken : UInt64 → Bool) : Understood (m.branch env i taken) :=
  (understood_jumpTarget h hk).bind fun _ => (Stack.understood_popInt _).bind fun _ => .ok _

/-- An instruction that makes sense is understood by every machine. -/
theorem understood_exec (h : i.Resolved env.program.size) : Understood (m.exec env i) := by
  obtain ⟨op, imm⟩ := i
  cases op with
  | int =>
    have ht : ImmediateKind.Takes .uint imm := h.operand nofun
    cases ht <;> exact m.understood_pushed _
  | byte =>
    have ht : ImmediateKind.Takes .bytes imm := h.operand nofun
    cases ht
    exact m.understood_pushed _
  | txn =>
    have ht : ImmediateKind.Takes .txnField imm := h.operand nofun
    cases ht
    exact (understood_memberField env _ _).bind m.understood_pushed
  | gtxn =>
    have ht : ImmediateKind.Takes .groupField imm := h.operand nofun
    cases ht
    exact (understood_memberField env _ _).bind m.understood_pushed
  | global =>
    have ht : ImmediateKind.Takes .globalField imm := h.operand nofun
    cases ht
    exact m.understood_pushed _
  | binary op => exact (Stack.understood_binary op).bind fun _ => .ok _
  | unary op => exact (Stack.understood_unary op).bind fun _ => .ok _
  | pop => exact Stack.understood_pop.bind fun _ => .ok _
  | dup => exact Stack.understood_pop.bind fun _ => m.understood_pushed _
  | bnz => exact m.understood_branch h rfl (· != 0)
  | bz => exact m.understood_branch h rfl (· == 0)
  | jump => exact (understood_jumpTarget h rfl).bind fun _ => .ok _
  | err => exact .error rfl
  | ret => exact (Stack.understood_popInt _).bind fun _ => .ok _
  | log => exact m.understood_log
  | appGlobalGet => exact m.understood_globalGet env
  | appGlobalGetEx => exact m.understood_globalGetEx env
  | appGlobalPut => exact m.understood_globalPut env
  | appLocalGet => exact m.understood_localGet env
  | appLocalGetEx => exact m.understood_localGetEx env
  | appLocalPut => exact m.understood_localPut env

/-! ### Runs -/

/-- A program of instructions that make sense is understood from beginning to end. -/
theorem understood_run
    (h : ∀ i ∈ env.program.instructions, i.Resolved env.program.size) : Understood env.run.1 := by
  intro e he
  obtain ⟨ms, last, hruns, hrun⟩ := runs_run env
  rw [hrun] at he
  rcases error_of_run he with hl | ⟨m, -, -, rfl⟩
  · rcases hruns.fault hl with rfl | ⟨m, -, i, hn, hx⟩
    · rfl
    · have hi := List.mem_of_getElem? (getElem?_of_next? hn)
      exact m.advance.understood_exec (h i hi) e hx
  · rfl

end Machine

end ContractBench
