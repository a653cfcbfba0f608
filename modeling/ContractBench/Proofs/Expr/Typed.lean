import ContractBench.Proofs.Expr.Eval
import ContractBench.Proofs.Expr.Nodes
import ContractBench.Proofs.State.Agrees
/-!
# Evaluation keeps types

Over a state that agrees with the types of a tree's keys, evaluating the tree gives a value of the
tree's type, writes values of the declared types only, and never comes to a failure that speaks of
types:

    Built e → env.state.Agrees types → KeepsTypes types env e            (keepsTypes_of_built)
-/

namespace ContractBench

/-- Failures that types, jumps or the stack would be to blame for. -/
def Fault.illTyped : Fault → Bool
  | .typeMismatch .. | .stackUnderflow | .malformedInstruction _ | .invalidJump _
  | .invalidFinalStack _ | .foreignApplication _ | .state (.schemaViolation ..) => true
  | _ => false

/-- A computation gives what it should, or fails for a reason that types do not exclude. -/
inductive Checked {α : Type} (Q : α → Prop) : Except Fault α → Prop
  | ok {a : α} : Q a → Checked Q (.ok a)
  | error {e : Fault} : e.illTyped = false → Checked Q (.error e)

/-! ## Operators -/

theorem Value.checked_ofExact (n : Int) : Checked (·.type = .int) (ofExact n) := by
  unfold ofExact
  split
  · exact .error rfl
  · split
    · exact .ok rfl
    · exact .error rfl

namespace BinaryOp

theorem checked_onWords {op : BinaryOp} (hop : op.operandType? ≠ some .bytes) (a b : UInt64) :
    Checked (·.type = op.resultType) (op.onWords a b) := by
  cases op with
  | eq | ne | lt | gt | le | ge | and | or => exact .ok rfl
  | add | sub | mul => exact Value.checked_ofExact _
  | div | mod =>
    rw [onWords]
    split
    · exact .error rfl
    · exact Value.checked_ofExact _
  | concat => exact absurd rfl hop

theorem checked_onBytes {op : BinaryOp} (hop : op.operandType? ≠ some .int) (a b : Bytes) :
    Checked (·.type = op.resultType) (op.onBytes a b) := by
  cases op with
  | eq | ne => exact .ok rfl
  | concat =>
    rw [onBytes]
    split
    · exact .error rfl
    · exact .ok rfl
  | _ => exact absurd rfl hop

/-- An operator on operands it takes. -/
theorem checked_apply {op : BinaryOp} {v w : Value} (h : w.type = v.type)
    (hop : ∀ t, op.operandType? = some t → v.type = t) :
    Checked (·.type = op.resultType) (op.apply v w) := by
  cases v with
  | int a =>
    cases w with
    | int b => exact checked_onWords (fun ho => nomatch hop _ ho) a b
    | bytes b => cases h
  | bytes a =>
    cases w with
    | int b => cases h
    | bytes b => exact checked_onBytes (fun ho => nomatch hop _ ho) a b

end BinaryOp

theorem UnaryOp.checked_apply {op : UnaryOp} {v : Value} (h : v.type = op.operandType) :
    Checked (·.type = op.resultType) (op.apply v) := by
  cases op with
  | not | itob =>
    cases v with
    | int a => exact .ok rfl
    | bytes b => cases h
  | len =>
    cases v with
    | int a => cases h
    | bytes b => exact .ok rfl
  | btoi =>
    cases v with
    | int a => cases h
    | bytes b =>
      rw [UnaryOp.apply]
      split
      · exact .error rfl
      · exact .ok rfl

/-! ## Effects -/

namespace Effects

variable {env : Environment} {types : KeyTypes} {fx : Effects} {key : Bytes} {v : Value}
  {t : ValueType}

theorem checked_account (env : Environment) (v : Value) :
    Checked (fun _ => True) (env.account v) := by
  unfold Environment.account
  dsimp only
  split
  · exact .ok trivial
  · exact .error rfl

/-- What is found at a key is of its declared type. -/
def Finds (t : ValueType) (found : Option Value) : Prop := ∀ v, found = some v → v.type = t

theorem Finds.getD {found : Option Value} (h : Finds t found) :
    (found.getD (.zero t)).type = t := by
  cases found with
  | none => exact Value.type_zero t
  | some v => exact h v rfl

theorem checked_log (hp : fx.pending.Agrees types) (hv : v.type = .bytes) :
    Checked (fun fx' : Effects => fx'.pending.Agrees types) (fx.log v) := by
  cases v with
  | int n => cases hv
  | bytes b =>
    rw [log]
    split
    · exact .error rfl
    · exact .ok hp

theorem checked_getGlobal (hs : env.state.Agrees types) (hp : fx.pending.Agrees types)
    (hu : (⟨.global, key⟩, t) ∈ types) : Checked (Finds t) (fx.getGlobal env key) :=
  .ok fun _ hv => View.admits_getGlobal? hs hp hv _ hu

theorem checked_getLocal (hs : env.state.Agrees types) (hp : fx.pending.Agrees types)
    (hu : (⟨.account, key⟩, t) ∈ types) : Checked (Finds t) (fx.getLocal env v key) := by
  have ha := checked_account env v
  unfold getLocal
  generalize env.account v = found at ha
  cases ha with
  | error he => exact .error he
  | ok => exact .ok fun _ hv => View.admits_getLocal? hs hp hv _ hu

theorem checked_putGlobal (hs : env.state.Agrees types) (hp : fx.pending.Agrees types)
    (hc : types.ConsistentAt ⟨.global, key⟩) (hu : (⟨.global, key⟩, v.type) ∈ types) :
    Checked (fun fx' : Effects => fx'.pending.Agrees types) (fx.putGlobal env key v) := by
  unfold putGlobal
  cases hx : (fx.view env).putGlobal key v with
  | ok view => exact .ok (View.agrees_putGlobal hp (hc.admits hu rfl) hx)
  | error e =>
    cases View.putGlobal_error hs hp hu hx
    exact .error rfl

theorem checked_putLocal {account : Value} (hs : env.state.Agrees types)
    (hp : fx.pending.Agrees types) (hc : types.ConsistentAt ⟨.account, key⟩)
    (hu : (⟨.account, key⟩, v.type) ∈ types) :
    Checked (fun fx' : Effects => fx'.pending.Agrees types) (fx.putLocal env account key v) := by
  have ha := checked_account env account
  unfold putLocal
  generalize env.account account = found at ha
  cases ha with
  | error he => exact .error he
  | @ok a _ =>
    dsimp only [bind, Except.bind]
    cases env.mayHoldLocal a with
    | false => exact .error rfl
    | true =>
      cases hx : (fx.view env).putLocal a key v with
      | ok view => exact .ok (View.agrees_putLocal hp (hc.admits hu rfl) hx)
      | error e =>
        cases View.putLocal_error hs hp hu hx
        exact .error rfl

end Effects

namespace Expr

open Stop

/-! ## Evaluations -/

/-- An evaluation gives what it should; if it stops, its writes are of the declared types and its
failure is not one of types. -/
inductive Typed {α : Type} (types : KeyTypes) (Q : α → Prop) : Except Stop α → Prop
  | ok {a : α} : Q a → Typed types Q (.ok a)
  | verdict {b : Bool} {fx : Effects} :
      fx.pending.Agrees types → Typed types Q (.error (.verdict b fx))
  | fault {e : Fault} : e.illTyped = false → Typed types Q (.error (.fault e))

/-- What evaluating a node should give. -/
structure Yields (types : KeyTypes) (e : Expr) (r : Effects × Option Value) : Prop where
  goesOn : e.terminates = false
  writes : r.1.pending.Agrees types
  value : r.2.map Value.type = e.type.valueType?

section

variable {α β : Type} {types : KeyTypes} {Q : α → Prop} {R : β → Prop}

theorem Typed.bind {x : Except Stop α} {f : α → Except Stop β} (h : Typed types Q x)
    (hf : ∀ a, Q a → Typed types R (f a)) : Typed types R (x >>= f) := by
  cases h with
  | ok h => exact hf _ h
  | verdict h => exact .verdict h
  | fault h => exact .fault h

theorem Typed.orFault {x : Except Fault α} {f : α → Except Stop β} (h : Checked Q x)
    (hf : ∀ a, Q a → Typed types R (f a)) : Typed types R (orFault x >>= f) := by
  cases h with
  | ok h => exact hf _ h
  | error h => exact .fault h

theorem Typed.imp {R : α → Prop} {x : Except Stop α} (h : Typed types Q x)
    (hq : ∀ a, Q a → R a) : Typed types R x := by
  cases h with
  | ok h => exact .ok (hq _ h)
  | verdict h => exact .verdict h
  | fault h => exact .fault h

/-- What the last part of a node gives is what the node gives. -/
theorem Yields.last {e e' : Expr} {r : Effects × Option Value} (h : Yields types e r)
    (ht : e'.type = e.type) (hg : e'.terminates = e.terminates) : Yields types e' r :=
  ⟨hg.trans h.goesOn, h.writes, by rw [ht]; exact h.value⟩

theorem Yields.operand {e : Expr} {t : ValueType} {r : Effects × Option Value}
    (h : Yields types e r) (ht : e.type = .value t) : ∃ v, r = (r.1, some v) ∧ v.type = t := by
  obtain ⟨-, -, hv⟩ := h
  obtain ⟨fx, v⟩ := r
  rw [ht] at hv
  obtain ⟨v, rfl, hty⟩ := Option.map_eq_some_iff.1 hv
  exact ⟨v, rfl, hty⟩

end

/-- The keys of a tree are declared as it uses them, and the keys that it writes with one type only.
A key that is declared with two types has no value in a state that agrees. -/
structure Declared (types : KeyTypes) (e : Expr) : Prop where
  uses : ∀ u ∈ e.keyUses, u ∈ types
  puts : ∀ k, e.Puts k → types.ConsistentAt k

/-- Evaluating a node keeps to the types, if the keys of the node are declared. -/
def KeepsTypes (types : KeyTypes) (env : Environment) (e : Expr) : Prop :=
  Declared types e → ∀ fx : Effects, fx.pending.Agrees types →
    Typed types (Yields types e) (e.eval env fx)

/-! ## Lemmas -/

variable {types : KeyTypes} {env : Environment}

section

variable {e : Expr}

theorem Declared.child {c : Expr} (h : Declared types e) (hc : c ∈ e.children) :
    Declared types c where
  uses u hu := h.uses u (mem_keyUses_iff_children.2 (.inr ⟨c, hc, hu⟩))
  puts k := fun ⟨n, hn, hk⟩ => h.puts k ⟨n, .child hc hn, hk⟩

theorem Declared.use {u : StateKey × ValueType} (h : Declared types e) (hu : e.keyUse? = some u) :
    u ∈ types :=
  h.uses u (mem_keyUses_iff_children.2 (.inl hu))

/-- The uses of a tree whose keys agree declare it. -/
theorem declared_keyUses (h : e.KeysAgree) : Declared e.keyUses e :=
  ⟨fun _ hu => hu, fun _ _ _ _ hu hu' => h _ hu _ hu' rfl⟩

theorem Declared.put {k : StateKey} (h : Declared types e) (hk : e.put? = some k) :
    types.ConsistentAt k :=
  h.puts k ⟨e, .self, hk⟩

end

theorem keepsTypes_value {e : Expr} {v : Value} {t : ValueType}
    (he : ∀ fx, e.eval env fx = .ok (fx, some v)) (ht : e.type = .value t)
    (hg : e.terminates = false) (hv : v.type = t) : KeepsTypes types env e := by
  intro _ fx hp
  rw [he]
  exact .ok ⟨hg, hp, by rw [ht]; exact congrArg some hv⟩

theorem checked_transactionField (t : Transaction) (index : Nat) (field : TxnField) :
    Checked (·.type = field.valueType) (t.readField index field) := by
  cases hr : t.readField index field with
  | ok v => exact .ok (Transaction.type_of_readField hr)
  | error e =>
    refine .error ?_
    unfold Transaction.readField at hr
    cases field <;> cases hk : t.kind <;> simp_all <;> subst hr <;> rfl

theorem checked_readField (env : Environment) (source : TxnSource) (field : TxnField) :
    Checked (·.type = field.valueType) (readField env source field) := by
  have hmember : ∀ index, Checked (·.type = field.valueType) (env.memberField index field) := by
    intro index
    unfold Environment.memberField
    split
    · exact checked_transactionField _ index field
    · exact .error rfl
  cases source <;> exact hmember _

theorem keepsTypes_txn (source : TxnSource) (field : TxnField) :
    KeepsTypes types env (.txn source field) :=
  fun _ _ hp => Typed.orFault (checked_readField env source field) fun _ hv =>
    .ok ⟨rfl, hp, congrArg some hv⟩

theorem keepsTypes_unary {op : UnaryOp} {operand : Expr} (ho : KeepsTypes types env operand)
    (hf : Fits (.unary op operand)) : KeepsTypes types env (.unary op operand) := by
  intro hu fx hp
  refine Typed.bind (ho (hu.child (by simp [children])) fx hp) ?_
  intro r hr
  obtain ⟨v, he, hv⟩ := hr.operand hf
  rw [he]
  refine Typed.orFault (UnaryOp.checked_apply hv) fun w hw => ?_
  exact .ok ⟨rfl, hr.writes, congrArg some hw⟩

theorem keepsTypes_binary {op : BinaryOp} {left right : Expr}
    (hl : KeepsTypes types env left) (hr : KeepsTypes types env right)
    (hf : Fits (.binary op left right)) : KeepsTypes types env (.binary op left right) := by
  intro hu fx hp
  obtain ⟨t, htl, htr, hop⟩ := hf
  refine Typed.bind (hl (hu.child (by simp [children])) fx hp) ?_
  intro r hr'
  obtain ⟨v, he, hv⟩ := hr'.operand htl
  rw [he]
  refine Typed.bind (hr (hu.child (by simp [children])) r.1 hr'.writes) ?_
  intro r' hr'
  obtain ⟨w, he, hw⟩ := hr'.operand htr
  rw [he]
  have happly := BinaryOp.checked_apply (hw.trans hv.symm) fun t' ht' => hv.trans (hop t' ht')
  refine Typed.orFault happly fun u hu => ?_
  exact .ok ⟨rfl, hr'.writes, congrArg some hu⟩

theorem keepsTypes_globalGet (hs : env.state.Agrees types) (key : Bytes) (t : ValueType) :
    KeepsTypes types env (.globalGet key t) := by
  intro hu fx hp
  refine Typed.orFault (Effects.checked_getGlobal hs hp (hu.use rfl)) fun found hfound => ?_
  exact .ok ⟨rfl, hp, congrArg some hfound.getD⟩

theorem keepsTypes_localGet (hs : env.state.Agrees types) {account : Expr} {key : Bytes}
    {t : ValueType} (ha : KeepsTypes types env account) (hf : Fits (.localGet account key t)) :
    KeepsTypes types env (.localGet account key t) := by
  intro hu fx hp
  refine Typed.bind (ha (hu.child (by simp [children])) fx hp) ?_
  intro r hr
  obtain ⟨v, he, -⟩ := hr.operand hf
  rw [he]
  have hget := Effects.checked_getLocal (v := v) hs hr.writes (hu.use rfl)
  refine Typed.orFault hget fun found hfound => ?_
  exact .ok ⟨rfl, hr.writes, congrArg some hfound.getD⟩

theorem keepsTypes_globalPut (hs : env.state.Agrees types) {key : Bytes}
    {value : Expr} (hv : KeepsTypes types env value) (hf : Fits (.globalPut key value)) :
    KeepsTypes types env (.globalPut key value) := by
  intro hu fx hp
  obtain ⟨t, ht⟩ := hf
  refine Typed.bind (hv (hu.child (by simp [children])) fx hp) ?_
  intro r hr
  obtain ⟨v, he, hty⟩ := hr.operand ht
  rw [he]
  have huse : (⟨.global, key⟩, v.type) ∈ types :=
    hu.use (by rw [keyUse?, ht, hty]; rfl)
  refine Typed.orFault (Effects.checked_putGlobal hs hr.writes (hu.put rfl) huse) fun fx' hfx => ?_
  exact .ok ⟨rfl, hfx, rfl⟩

theorem keepsTypes_localPut (hs : env.state.Agrees types) {key : Bytes}
    {account value : Expr} (ha : KeepsTypes types env account) (hv : KeepsTypes types env value)
    (hf : Fits (.localPut account key value)) :
    KeepsTypes types env (.localPut account key value) := by
  intro hu fx hp
  obtain ⟨hta, t, ht⟩ := hf
  refine Typed.bind (ha (hu.child (by simp [children])) fx hp) ?_
  intro r hr
  obtain ⟨a, he, -⟩ := hr.operand hta
  rw [he]
  refine Typed.bind (hv (hu.child (by simp [children])) r.1 hr.writes) ?_
  intro r' hr
  obtain ⟨v, he, hty⟩ := hr.operand ht
  rw [he]
  have huse : (⟨.account, key⟩, v.type) ∈ types :=
    hu.use (by rw [keyUse?, ht, hty]; rfl)
  refine Typed.orFault (Effects.checked_putLocal hs hr.writes (hu.put rfl) huse) fun fx' hfx => ?_
  exact .ok ⟨rfl, hfx, rfl⟩

theorem keepsTypes_log {value : Expr} (hv : KeepsTypes types env value) (hf : Fits (.log value)) :
    KeepsTypes types env (.log value) := by
  intro hu fx hp
  refine Typed.bind (hv (hu.child (by simp [children])) fx hp) ?_
  intro r hr
  obtain ⟨v, he, hty⟩ := hr.operand hf
  rw [he]
  refine Typed.orFault (Effects.checked_log hr.writes hty) fun fx' hfx => ?_
  exact .ok ⟨rfl, hfx, rfl⟩

/-! ### Sequences and choices -/

theorem typed_items {items : List Expr} (hs : ∀ e ∈ items, KeepsTypes types env e)
    (hu : ∀ e ∈ items, Declared types e) {fx : Effects} (hp : fx.pending.Agrees types) :
    Typed types (Yields types (.seq items)) (evalItems env fx items) := by
  induction items generalizing fx with
  | nil => exact .ok ⟨rfl, hp, rfl⟩
  | cons e rest ih =>
    refine Typed.bind (hs e List.mem_cons_self (hu e List.mem_cons_self) fx hp) ?_
    intro r hr
    have hg := hr.goesOn
    cases rest with
    | nil =>
      obtain ⟨htype, hterm⟩ := seq_singleton hg
      exact .ok (hr.last htype (hterm.trans hg.symm))
    | cons e' rest =>
      have hrest := ih (fun x hx => hs x (List.mem_cons_of_mem _ hx))
        (fun x hx => hu x (List.mem_cons_of_mem _ hx)) hr.writes
      obtain ⟨htype, hterm⟩ := @seq_cons e e' rest hg
      exact hrest.imp fun r' hr' => hr'.last htype hterm

theorem keepsTypes_seq {items : List Expr} (hs : ∀ e ∈ items, KeepsTypes types env e) :
    KeepsTypes types env (.seq items) :=
  fun hu _ hp => typed_items hs (fun _ he => hu.child he) hp

/-- Arms whose bodies give what the choice should. -/
theorem typed_arms {Q : Effects × Option Value → Prop} {arms : List (Expr × Expr)}
    (htest : ∀ arm ∈ arms, KeepsTypes types env arm.1)
    (hbody : ∀ arm ∈ arms, KeepsTypes types env arm.2)
    (hint : ∀ arm ∈ arms, arm.1.type = .value .int)
    (hu : ∀ arm ∈ arms, Declared types arm.1 ∧ Declared types arm.2)
    (hq : ∀ arm ∈ arms, ∀ r, Yields types arm.2 r → Q r) {fx : Effects}
    (hp : fx.pending.Agrees types) : Typed types Q (evalArms env fx arms) := by
  induction arms generalizing fx with
  | nil => exact .fault rfl
  | cons arm rest ih =>
    obtain ⟨hutest, hubody⟩ := hu arm List.mem_cons_self
    refine Typed.bind (htest arm List.mem_cons_self hutest fx hp) ?_
    intro r hr
    obtain ⟨v, he, hv⟩ := hr.operand (hint arm List.mem_cons_self)
    rw [he]
    cases v with
    | bytes b => cases hv
    | int n =>
      show Typed types Q (if n != 0 then arm.2.eval env r.1 else evalArms env r.1 rest)
      split
      · exact (hbody arm List.mem_cons_self hubody r.1 hr.writes).imp (hq arm List.mem_cons_self)
      · exact ih (fun a h => htest a (List.mem_cons_of_mem _ h))
          (fun a h => hbody a (List.mem_cons_of_mem _ h))
          (fun a h => hint a (List.mem_cons_of_mem _ h))
          (fun a h => hu a (List.mem_cons_of_mem _ h))
          (fun a h => hq a (List.mem_cons_of_mem _ h)) hr.writes

theorem keepsTypes_cond {arms : List (Expr × Expr)}
    (htest : ∀ arm ∈ arms, KeepsTypes types env arm.1)
    (hbody : ∀ arm ∈ arms, KeepsTypes types env arm.2) (hf : Fits (.cond arms)) :
    KeepsTypes types env (.cond arms) := by
  intro hu fx hp
  refine typed_arms htest hbody hf.1 ?_ ?_ hp
  · intro arm harm
    exact ⟨hu.child (mem_children_cond.2 ⟨arm, harm, .inl rfl⟩),
      hu.child (mem_children_cond.2 ⟨arm, harm, .inr rfl⟩)⟩
  · intro arm harm r hr
    obtain ⟨htype, hterm⟩ := cond_of_goes_on hf harm hr.goesOn
    exact hr.last htype (hterm.trans hr.goesOn.symm)

/-! ### All trees -/

/-- Evaluating a built tree keeps to the types declared for its keys. -/
theorem keepsTypes_of_built (hs : env.state.Agrees types) {e : Expr}
    (h : Built e) : KeepsTypes types env e := by
  induction h with
  | int | bytes | named => exact keepsTypes_value (fun _ => rfl) rfl rfl rfl
  | global field => exact keepsTypes_value (fun _ => rfl) rfl rfl (env.type_globalField field)
  | txn source field => exact keepsTypes_txn source field
  | unary _ ha iho => exact keepsTypes_unary iho (admitted_iff_fits.1 ha)
  | binary _ _ ha ihl ihr => exact keepsTypes_binary ihl ihr (admitted_iff_fits.1 ha)
  | globalGet key type => exact keepsTypes_globalGet hs key type
  | localGet _ ha ih => exact keepsTypes_localGet hs ih (admitted_iff_fits.1 ha)
  | globalPut _ ha ih => exact keepsTypes_globalPut hs ih (admitted_iff_fits.1 ha)
  | localPut _ _ ha iha ihv => exact keepsTypes_localPut hs iha ihv (admitted_iff_fits.1 ha)
  | log _ ha ih => exact keepsTypes_log ih (admitted_iff_fits.1 ha)
  | verdict approve => exact fun _ _ hp => .verdict hp
  | seq _ ih => exact keepsTypes_seq ih
  | cond _ _ ha iht ihb => exact keepsTypes_cond iht ihb (admitted_iff_fits.1 ha)

end Expr

end ContractBench
