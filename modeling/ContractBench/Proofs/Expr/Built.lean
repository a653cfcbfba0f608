import ContractBench.Expr.Typing
/-!
# Trees that can be built

Leaves and sequences are made as they are; every other node passes the check of `Expr.checked`
over children that were built before it (`Expr.Built`). What that check asks for is said node by
node, and it never fails again:

    Built e → e.infer node = .ok (e.type, e.terminates)                 (infer_of_built)
-/

namespace ContractBench

open Success

namespace Expr

/-- The check of a constructor lets the node pass. -/
def Admitted (e : Expr) : Prop := e.checked = .ok e

/-- Trees made by the constructors, bottom up. -/
inductive Built : Expr → Prop
  | int (value : UInt64) : Built (.int value)
  | bytes (value : Bytes) : Built (.bytes value)
  | named (constant : NamedConst) : Built (.named constant)
  | txn (source : TxnSource) (field : TxnField) : Built (.txn source field)
  | global (field : GlobalField) : Built (.global field)
  | unary {op : UnaryOp} {operand : Expr} :
      Built operand → Admitted (.unary op operand) → Built (.unary op operand)
  | binary {op : BinaryOp} {left right : Expr} :
      Built left → Built right → Admitted (.binary op left right) → Built (.binary op left right)
  | globalGet (key : Bytes) (type : ValueType) : Built (.globalGet key type)
  | localGet {account : Expr} {key : Bytes} {type : ValueType} :
      Built account → Admitted (.localGet account key type) → Built (.localGet account key type)
  | globalPut {key : Bytes} {value : Expr} :
      Built value → Admitted (.globalPut key value) → Built (.globalPut key value)
  | localPut {account : Expr} {key : Bytes} {value : Expr} :
      Built account → Built value → Admitted (.localPut account key value) →
        Built (.localPut account key value)
  | log {value : Expr} : Built value → Admitted (.log value) → Built (.log value)
  | verdict (approve : Bool) : Built (.verdict approve)
  | seq {items : List Expr} : (∀ e ∈ items, Built e) → Built (.seq items)
  | cond {arms : List (Expr × Expr)} :
      (∀ arm ∈ arms, Built arm.1) → (∀ arm ∈ arms, Built arm.2) → Admitted (.cond arms) →
        Built (.cond arms)

/-! ## What the check asks for -/

/-- What a node asks of its children. -/
def Fits : Expr → Prop
  | .unary op operand => operand.type = .value op.operandType
  | .binary op left right =>
    ∃ t, left.type = .value t ∧ right.type = .value t ∧ ∀ t', op.operandType? = some t' → t = t'
  | .localGet account _ _ => account.type = .value .bytes
  | .globalPut _ value => ∃ t, value.type = .value t
  | .localPut account _ value => account.type = .value .bytes ∧ ∃ t, value.type = .value t
  | .log value => value.type = .value .bytes
  | .cond arms =>
    (∀ arm ∈ arms, arm.1.type = .value .int) ∧
      ∀ arm ∈ arms, arm.2.terminates = false → arm.2.type = bodyType arms
  | _ => True

theorem expectValue_eq_ok {e : Expr} {node : String} {t : ValueType} :
    e.expectValue node = .ok t ↔ e.type = .value t := by
  unfold expectValue
  cases h : e.type <;> simp

theorem expectType_eq_ok {e : Expr} {node : String} {t : ValueType} {u : Unit} :
    e.expectType t node = .ok u ↔ e.type = .value t := by
  unfold expectType
  rw [bind_eq_ok]
  constructor
  · rintro ⟨t', h, h'⟩
    split at h'
    · next ht => rw [← ht]; exact expectValue_eq_ok.1 h
    · exact absurd h' throw_ne_ok
  · intro h
    exact ⟨t, expectValue_eq_ok.2 h, by simp [pure, Except.pure]⟩

theorem checkOperands_eq_ok {op : BinaryOp} {node : String} {t t' : ValueType} {u : Unit} :
    checkOperands node op t t' = .ok u ↔ t = t' ∧ ∀ s, op.operandType? = some s → t = s := by
  unfold checkOperands
  by_cases h : t = t'
  · subst h
    cases hop : op.operandType? with
    | none => simp
    | some s => by_cases hs : t = s <;> simp [hs]
  · simp [h]

/-- The arms are typed exactly when the tests are integers and the bodies that do not terminate
agree with those seen before, or else with the first of them. -/
theorem inferArms_ok_iff {node : String} {seen : Option ExprType} {arms : List (Expr × Expr)} :
    (∃ found, inferArms node seen arms = .ok found) ↔
      (∀ arm ∈ arms, arm.1.type = .value .int) ∧
        ∀ arm ∈ arms, arm.2.terminates = false → arm.2.type = seen.getD (bodyType arms) := by
  induction arms generalizing seen with
  | nil => simp [inferArms]
  | cons arm rest ih =>
    obtain ⟨test, body⟩ := arm
    simp only [inferArms, bind_eq_ok, List.forall_mem_cons, bodyType]
    by_cases ht : test.type = .value .int
    · have step : ∀ x : Except CompileError (Option ExprType),
          (∃ found u, test.expectType .int node = .ok u ∧ x = .ok found) ↔
            ∃ found, x = .ok found := by
        intro x
        constructor
        · rintro ⟨found, u, -, h⟩
          exact ⟨found, h⟩
        · rintro ⟨found, h⟩
          exact ⟨found, (), expectType_eq_ok.2 ht, h⟩
      rw [step]
      cases hb : body.terminates with
      | true => simp [ih, ht]
      | false =>
        cases seen with
        | none => simp [ih, ht]
        | some t =>
          by_cases hty : t = body.type
          · simp [ih, ht, hty]
          · simp [ht, hty, throw_ne_ok, Ne.symm hty]
    · simp [expectType_eq_ok, ht]

theorem exists_bind_ok {ε α β : Type} {x : Except ε α} {f : α → Except ε β} :
    (∃ b, (x >>= f) = .ok b) ↔ ∃ a, x = .ok a ∧ ∃ b, f a = .ok b := by
  simp only [bind_eq_ok]
  exact ⟨fun ⟨b, a, ha, hb⟩ => ⟨a, ha, b, hb⟩, fun ⟨a, ha, b, hb⟩ => ⟨b, a, ha, hb⟩⟩

theorem exists_pure_ok {ε α : Type} {a : α} : (∃ b, (pure a : Except ε α) = .ok b) ↔ True :=
  iff_of_true ⟨a, rfl⟩ trivial

/-- A node is typed exactly when its children are what it asks for, whatever it is called. -/
theorem infer_ok_iff_fits {e : Expr} {node : String} :
    (∃ r, e.infer node = .ok r) ↔ e.Fits := by
  cases e with
  | int | bytes | named | txn | global | globalGet | verdict => simp [infer, Fits]
  | unary | log | localGet =>
    simp only [infer, Fits, exists_bind_ok, expectType_eq_ok, exists_pure_ok, and_true]
    exact ⟨fun ⟨_, h⟩ => h, fun h => ⟨(), h⟩⟩
  | globalPut => simp only [infer, Fits, exists_bind_ok, expectValue_eq_ok, exists_pure_ok, and_true]
  | localPut =>
    simp only [infer, Fits, exists_bind_ok, expectType_eq_ok, expectValue_eq_ok, exists_pure_ok,
      and_true]
    exact ⟨fun ⟨_, h⟩ => h, fun h => ⟨(), h⟩⟩
  | binary op left right =>
    simp only [infer, Fits, exists_bind_ok, expectValue_eq_ok, checkOperands_eq_ok, exists_pure_ok,
      and_true]
    constructor
    · rintro ⟨t, hl, t', hr, _, rfl, hop⟩
      exact ⟨t, hl, hr, hop⟩
    · rintro ⟨t, hl, hr, hop⟩
      exact ⟨t, hl, t, hr, (), rfl, hop⟩
  | seq items =>
    simp only [infer, Fits, iff_true]
    split <;> exact ⟨_, rfl⟩
  | cond arms =>
    have harms := @inferArms_ok_iff node none arms
    simp only [infer, Fits, exists_bind_ok]
    constructor
    · rintro ⟨found, h, _⟩
      exact harms.1 ⟨found, h⟩
    · intro h
      obtain ⟨found, h⟩ := harms.2 h
      cases found with
      | none => exact ⟨none, h, _, rfl⟩
      | some t => exact ⟨some t, h, _, rfl⟩

theorem admitted_iff_fits {e : Expr} : e.Admitted ↔ e.Fits := by
  rw [← @infer_ok_iff_fits e e.describe, Admitted, checked, bind_eq_ok]
  exact ⟨fun ⟨r, h, _⟩ => ⟨r, h⟩, fun ⟨r, h⟩ => ⟨r, h, rfl⟩⟩

theorem Built.fits {e : Expr} (h : Built e) : e.Fits := by
  cases h with
  | int | bytes | named | txn | global | globalGet | verdict | seq => trivial
  | unary _ h | binary _ _ h | localGet _ h | globalPut _ h | localPut _ _ h | log _ h
  | cond _ _ h => exact admitted_iff_fits.1 h

/-! ## What follows -/

/-- Typing a built node again gives what the tree says. -/
theorem infer_of_built {e : Expr} (h : Built e) (node : String) :
    e.infer node = .ok (e.type, e.terminates) := by
  obtain ⟨⟨t, b⟩, hi⟩ := infer_ok_iff_fits.2 h.fits
  obtain ⟨rfl, rfl⟩ := eq_of_infer hi
  exact hi

theorem bodyType_of_bodiesTerminate {arms : List (Expr × Expr)} (h : bodiesTerminate arms) :
    bodyType arms = .statement := by
  induction arms with
  | nil => rfl
  | cons arm rest ih =>
    obtain ⟨hb, hr⟩ := (Bool.and_eq_true_iff).1 h
    simp [bodyType, hb, ih hr]

/-- A node that terminates leaves no value. -/
theorem type_of_terminates {e : Expr} (h : e.terminates) : e.type = .statement := by
  cases e with
  | verdict => rfl
  | seq items => simp only [terminates] at h; simp [type, h]
  | cond arms => exact bodyType_of_bodiesTerminate h
  | _ => simp [terminates] at h

/-- A sequence is as its last item, if none before terminates. -/
theorem seq_singleton {e : Expr} (h : e.terminates = false) :
    (Expr.seq [e]).type = e.type ∧ (Expr.seq [e]).terminates = false := by
  constructor
  · simp [type, anyTerminates, h, lastType]
  · simp [terminates, anyTerminates, h]

theorem seq_cons {e e' : Expr} {rest : List Expr} (h : e.terminates = false) :
    (Expr.seq (e :: e' :: rest)).type = (Expr.seq (e' :: rest)).type ∧
      (Expr.seq (e :: e' :: rest)).terminates = (Expr.seq (e' :: rest)).terminates := by
  constructor
  · simp [type, anyTerminates, h, lastType]
  · simp [terminates, anyTerminates, h]

/-- A choice is as its bodies that go on. -/
theorem cond_of_goes_on {arms : List (Expr × Expr)} {arm : Expr × Expr} (hf : Fits (.cond arms))
    (harm : arm ∈ arms) (hg : arm.2.terminates = false) :
    (Expr.cond arms).type = arm.2.type ∧ (Expr.cond arms).terminates = false := by
  refine ⟨(hf.2 arm harm hg).symm, ?_⟩
  rw [terminates, bodiesTerminate_eq_all, List.all_eq_false]
  exact ⟨arm, harm, by simp [hg]⟩

theorem terminates_of_type {e : Expr} {t : ValueType} (h : e.type = .value t) :
    e.terminates = false := by
  cases hb : e.terminates with
  | false => rfl
  | true => rw [type_of_terminates hb] at h; cases h

end Expr

end ContractBench
