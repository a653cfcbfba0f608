import ContractBench.Proofs.Code.Naming
import ContractBench.Proofs.Expr.Nodes
/-!
# Versions that know the code

Each node needs a version for the instructions of its own (`Expr.requires`). A version knows all
instructions of a tree's code exactly when it is enough for every node that is lowered:

    (∀ i ∈ Item.emitted (Item.namedLines (e.lower p)), i.1.minVersion ≤ v)
      ↔ ∀ n, Reached n e → n.requires ≤ v                                 (emitted_known_iff)
-/

namespace ContractBench

namespace Expr

/-- The first version that knows the instructions a node has besides those of its children. -/
def requires : Expr → UInt8
  | .txn _ field => field.minVersion
  | .global field => field.minVersion
  | .binary .concat _ _ => 2
  | .globalGet _ _ | .localGet _ _ _ | .globalPut _ _ | .localPut _ _ _ => 2
  | .log _ => 5
  | .verdict _ => 2
  | .cond arms => if bodiesTerminate arms then 1 else 2
  | _ => 1

end Expr

/-! ## Single instructions -/

@[simp] theorem Opcode.max_minVersion_one (op : Opcode) : max op.minVersion 1 = op.minVersion := by
  cases op with
  | binary op => cases op <;> rfl
  | _ => rfl

@[simp] theorem Instruction.minVersion_plain (op : Opcode) :
    (Instruction.plain op).minVersion = op.minVersion :=
  op.max_minVersion_one

@[simp] theorem Instruction.minVersion_label (op : Opcode) (name : String) :
    (Instruction.mk op (.label name)).minVersion = op.minVersion :=
  op.max_minVersion_one

@[simp] theorem Instruction.minVersion_int (n : UInt64) : (Instruction.int n).minVersion = 1 := rfl

@[simp] theorem Instruction.minVersion_named (c : NamedConst) :
    (Instruction.named c).minVersion = 1 := rfl

@[simp] theorem Instruction.minVersion_bytes (b : Bytes) :
    (Instruction.bytes b).minVersion = 1 := rfl

@[simp] theorem Instruction.minVersion_txn (f : TxnField) :
    (Instruction.mk .txn (.txn f)).minVersion = f.minVersion := by
  cases f <;> rfl

@[simp] theorem Instruction.minVersion_gtxn (index : UInt8) (f : TxnField) :
    (Instruction.mk .gtxn (.gtxn index f)).minVersion = f.minVersion := by
  cases f <;> rfl

@[simp] theorem Instruction.minVersion_global (f : GlobalField) :
    (Instruction.mk .global (.global f)).minVersion = f.minVersion := by
  cases f <;> rfl

namespace Item

/-- The first version that knows an item. -/
def minVersion : Item → UInt8
  | .op i _ => i.minVersion
  | .jump opcode _ _ => opcode.minVersion
  | .mark _ _ => 0

/-- A version knows all items of a piece of code. -/
def Known (v : UInt8) (items : List Item) : Prop := ∀ item ∈ items, item.minVersion ≤ v

variable {v : UInt8} {p : NodePath} {xs ys : List Item}

@[simp] theorem known_nil : Known v [] := fun _ h => nomatch h

@[simp] theorem known_append : Known v (xs ++ ys) ↔ Known v xs ∧ Known v ys :=
  List.forall_mem_append

@[simp] theorem known_op {i : Instruction} :
    Known v (.op i p :: xs) ↔ i.minVersion ≤ v ∧ Known v xs :=
  List.forall_mem_cons (p := (minVersion · ≤ v))

@[simp] theorem known_jump {opcode : Opcode} {l : Label} :
    Known v (.jump opcode l p :: xs) ↔ opcode.minVersion ≤ v ∧ Known v xs :=
  List.forall_mem_cons (p := (minVersion · ≤ v))

@[simp] theorem known_mark {l : Label} : Known v (.mark l p :: xs) ↔ Known v xs :=
  (List.forall_mem_cons (p := (minVersion · ≤ v))).trans
    (and_iff_right (UInt8.le_iff_toNat_le.2 (Nat.zero_le v.toNat)))

theorem emitted_known_iff_known (marks : List Label) (items : List Item) :
    (∀ i ∈ emitted (items.map fun item => (item.namedLine marks, item.origin)),
      i.1.minVersion ≤ v) ↔ Known v items := by
  induction items with
  | nil => simp [emitted]
  | cons item rest ih =>
    rw [emitted] at ih ⊢
    cases item with
    | op i p => simpa [namedLine] using fun _ => ih
    | jump opcode l p => simpa [namedLine] using fun _ => ih
    | mark l p => simpa [namedLine] using ih

end Item

/-! ## The code of a tree -/

namespace Expr

open Item

/-- A version knows the code of a tree exactly when it is enough for all lowered nodes. -/
def CodeKnown (v : UInt8) (e : Expr) : Prop :=
  ∀ p, Known v (e.lower p) ↔ ∀ n, Reached n e → n.requires ≤ v

theorem known_lowerRead {v : UInt8} (p : NodePath) (key : Bytes) (type : ValueType)
    {get getEx : Opcode} (hg : get.minVersion = 2) (hx : getEx.minVersion = 2) (hv : 1 ≤ v) :
    Known v (lowerRead p key type get getEx) ↔ 2 ≤ v := by
  have hb : Opcode.minVersion .bnz = 1 := rfl
  have hpop : Opcode.minVersion .pop = 1 := rfl
  cases type <;> simp [lowerRead, hg, hx, hv, hb, hpop]

theorem known_lowerItems {v : UInt8} {items : List Expr} (hv : 1 ≤ v)
    (h : ∀ e ∈ items, CodeKnown v e) (p : NodePath) (i : Nat) :
    Known v (lowerItems p i items) ↔
      ∀ c ∈ liveItems items, ∀ n, Reached n c → n.requires ≤ v := by
  induction items generalizing i with
  | nil => simp [lowerItems, liveItems]
  | cons e rest ih =>
    rw [List.forall_mem_cons] at h
    have hd : Known v (dropValue p e rest) := by
      have hpop : Opcode.minVersion .pop = 1 := rfl
      unfold dropValue
      split <;> simp [hpop, hv]
    cases he : e.terminates with
    | true =>
      rw [lowerItems_of_terminates he, liveItems, if_pos he, h.1 _]
      simp
    | false =>
      rw [lowerItems_of_goes_on he, liveItems, if_neg (by simp [he]), List.forall_mem_cons,
        known_append, known_append, h.1 _, ih h.2 (i + 1)]
      exact and_congr_right fun _ => and_iff_right hd

theorem known_lowerTests {v : UInt8} {arms : List (Expr × Expr)} (hv : 1 ≤ v)
    (h : ∀ arm ∈ arms, CodeKnown v arm.1) (p : NodePath) (i : Nat) :
    Known v (lowerTests p i arms) ↔
      ∀ arm ∈ arms, ∀ n, Reached n arm.1 → n.requires ≤ v := by
  induction arms generalizing i with
  | nil => simp [lowerTests]
  | cons arm rest ih =>
    obtain ⟨test, body⟩ := arm
    rw [List.forall_mem_cons] at h ⊢
    have hbnz : Opcode.minVersion .bnz = 1 := rfl
    rw [lowerTests, known_append, known_jump, h.1 _, ih h.2 (i + 1), hbnz]
    exact and_congr_right fun _ => and_iff_right hv

theorem known_lowerBodies {v : UInt8} {arms : List (Expr × Expr)} (hv : 1 ≤ v)
    (h : ∀ arm ∈ arms, CodeKnown v arm.2) (p : NodePath) (i : Nat) :
    Known v (lowerBodies p i arms) ↔
      (if bodiesTerminate arms then 1 else 2) ≤ v ∧
        ∀ arm ∈ arms, ∀ n, Reached n arm.2 → n.requires ≤ v := by
  induction arms generalizing i with
  | nil => simp [lowerBodies, bodiesTerminate, hv]
  | cons arm rest ih =>
    obtain ⟨test, body⟩ := arm
    rw [List.forall_mem_cons] at h ⊢
    have hjump : Opcode.minVersion .jump = 2 := rfl
    rw [lowerBodies, bodiesTerminate]
    simp only [List.cons_append, known_mark, known_append, h.1 _, ih h.2 (i + 1)]
    cases hb : body.terminates with
    | true => simp [and_left_comm]
    | false =>
      have h2 : 2 ≤ v → (if bodiesTerminate rest then 1 else 2) ≤ v := by
        intro h2
        split
        · exact hv
        · exact h2
      simp only [Bool.false_eq_true, if_false, known_jump, hjump, known_nil, and_true,
        Bool.false_and]
      constructor
      · rintro ⟨⟨hn, h2⟩, -, hr⟩
        exact ⟨h2, hn, hr⟩
      · rintro ⟨h2', hn, hr⟩
        exact ⟨⟨hn, h2'⟩, h2 h2', hr⟩

theorem codeKnown_of_built {e : Expr} {v : UInt8} (h : Built e) (hv : 1 ≤ v) : CodeKnown v e := by
  intro p
  induction h generalizing p with
  | int | bytes | named | global =>
    rw [forall_reached_iff]
    simp [lower, liveChildren, children, requires, hv]
  | txn source field =>
    rw [forall_reached_iff]
    cases source <;> simp [lower, liveChildren, children, requires]
  | verdict =>
    have hret : Opcode.minVersion .ret = 2 := rfl
    rw [forall_reached_iff]
    simp [lower, liveChildren, children, requires, hv, hret]
  | @unary op operand _ _ ih =>
    have hop : Opcode.minVersion (.unary op) = 1 := rfl
    have hr : (Expr.unary op operand).requires = 1 := rfl
    rw [forall_reached_iff, lower, known_append, ih, hr]
    simp [liveChildren, children, hop, hv]
  | @binary op left right _ _ _ ihl ihr =>
    have hr : (Expr.binary op left right).requires = (Opcode.binary op).minVersion := by
      cases op <;> rfl
    rw [forall_reached_iff, lower, known_append, known_append, ihl, ihr, hr]
    simp [liveChildren, children, and_comm]
  | globalGet key type =>
    rw [forall_reached_iff, lower, known_lowerRead p key type rfl rfl hv]
    simp [liveChildren, children, requires]
  | @localGet account key type _ _ ih =>
    have hr : (Expr.localGet account key type).requires = 2 := rfl
    rw [forall_reached_iff, lower, known_append, ih, known_lowerRead p key type rfl rfl hv, hr]
    simp [liveChildren, children, and_comm]
  | @globalPut key value _ _ ih =>
    have hput : Opcode.minVersion .appGlobalPut = 2 := rfl
    have hr : (Expr.globalPut key value).requires = 2 := rfl
    rw [forall_reached_iff, lower, hr]
    simp [liveChildren, children, hput, hv, ih, and_comm]
  | @localPut account key value _ _ _ iha ihv =>
    have hput : Opcode.minVersion .appLocalPut = 2 := rfl
    have hr : (Expr.localPut account key value).requires = 2 := rfl
    rw [forall_reached_iff, lower, hr]
    simp [liveChildren, children, hput, hv, iha, ihv, and_comm, and_left_comm]
  | @log value _ _ ih =>
    have hlog : Opcode.minVersion .log = 5 := rfl
    have hr : (Expr.log value).requires = 5 := rfl
    rw [forall_reached_iff, lower, known_append, ih, hr]
    simp [liveChildren, children, hlog, and_comm]
  | seq _ ih =>
    rw [forall_reached_iff, lower, known_lowerItems hv ih]
    exact (and_iff_right hv).symm
  | @cond arms _ _ _ iht ihb =>
    have herr : Opcode.minVersion .err = 1 := rfl
    rw [forall_reached_iff, lower]
    have hend : Known v (if bodiesTerminate arms then [] else [.mark (.done p.roles) p]) := by
      split <;> simp
    simp only [known_append, known_op, hend, Instruction.minVersion_plain, herr, hv,
      known_lowerTests hv iht, known_lowerBodies hv ihb, and_true, true_and, liveChildren, requires]
    constructor
    · rintro ⟨ht, hr, hb⟩
      refine ⟨hr, fun c hc => ?_⟩
      obtain ⟨arm, harm, rfl | rfl⟩ := mem_children_cond.1 hc
      · exact ht arm harm
      · exact hb arm harm
    · rintro ⟨hr, hc⟩
      exact ⟨fun arm harm => hc _ (mem_children_cond.2 ⟨arm, harm, .inl rfl⟩), hr,
        fun arm harm => hc _ (mem_children_cond.2 ⟨arm, harm, .inr rfl⟩)⟩

/-- The version knows what is emitted for a tree exactly when it is enough for every node that is
lowered. -/
theorem emitted_known_iff {e : Expr} {v : UInt8} (h : Built e) (hv : 1 ≤ v) (p : NodePath) :
    (∀ i ∈ emitted (namedLines (e.lower p)), i.1.minVersion ≤ v) ↔
      ∀ n, Reached n e → n.requires ≤ v :=
  (emitted_known_iff_known _ _).trans (codeKnown_of_built h hv p)

end Expr

end ContractBench
