import ContractBench.Proofs.Code.Compile
import ContractBench.Proofs.Expr.Pruned
/-!
# Dead code

A sequence is lowered up to the first item that terminates, and what stands behind it has no part in the
paths and the labels of the rest. So pruning a tree leaves its code as it is, labels and all, and a tree
that compiles has the same listing without its dead items:

    Built e → (e.prune drop p).lower q = e.lower q                               (lower_prune)
    Built root → root.compile v name = .ok l → (root.prune drop []).compile v name = .ok l
                                                                                 (compile_prune)
-/

namespace ContractBench

namespace Expr

/-! ## Lemmas -/

variable (drop : List Role → Bool)

theorem describe_prune (e : Expr) (p : List Role) : (e.prune drop p).describe = e.describe := by
  cases e <;> rfl

/-- A node goes by the same path when it is pruned. -/
theorem enter_prune (e : Expr) (p : List Role) (q : NodePath) (role : Role) :
    q.enter role (e.prune drop p) = q.enter role e := by
  rw [NodePath.enter, NodePath.enter, describe_prune]

/-- Pruning leaves the code of a tree alone, whatever path the tree stands at. -/
def Lowers (e : Expr) : Prop := ∀ p q, (e.prune drop p).lower q = e.lower q

variable {drop}

/-- A sequence is lowered as before: its items keep their positions up to the first that terminates. -/
theorem lowerItems_pruneItems {items : List Expr} (hb : ∀ e ∈ items, Built e)
    (h : ∀ e ∈ items, Lowers drop e) (p : List Role) (q : NodePath) (i j : Nat) :
    lowerItems q j (pruneItems drop p i false items) = lowerItems q j items := by
  induction items generalizing i j with
  | nil => rfl
  | cons e rest ih =>
    rw [List.forall_mem_cons] at hb h
    have ha := alike_prune drop hb.1 (.item i :: p)
    rw [pruneItems, Bool.false_and, if_neg Bool.false_ne_true]
    cases he : e.terminates with
    | true =>
      -- neither sequence is lowered behind the item that terminates
      rw [lowerItems_of_terminates (ha.terminates.trans he), lowerItems_of_terminates he,
        enter_prune, h.1]
    | false =>
      rw [Bool.or_false, lowerItems_of_goes_on (ha.terminates.trans he), lowerItems_of_goes_on he,
        enter_prune, h.1, ih hb.2 h.2, dropValue, dropValue, ha.type, isEmpty_pruneItems]

theorem lowerTests_pruneArms {arms : List (Expr × Expr)} (h : ∀ arm ∈ arms, Lowers drop arm.1)
    (p : List Role) (q : NodePath) (i j : Nat) :
    lowerTests q j (pruneArms drop p i arms) = lowerTests q j arms := by
  induction arms generalizing i j with
  | nil => rfl
  | cons arm rest ih =>
    rw [List.forall_mem_cons] at h
    rw [pruneArms, lowerTests, lowerTests, enter_prune, h.1, ih h.2]

theorem lowerBodies_pruneArms {arms : List (Expr × Expr)} (hb : ∀ arm ∈ arms, Built arm.2)
    (h : ∀ arm ∈ arms, Lowers drop arm.2) (p : List Role) (q : NodePath) (i j : Nat) :
    lowerBodies q j (pruneArms drop p i arms) = lowerBodies q j arms := by
  induction arms generalizing i j with
  | nil => rfl
  | cons arm rest ih =>
    rw [List.forall_mem_cons] at hb h
    rw [pruneArms, lowerBodies, lowerBodies, enter_prune, h.1,
      (alike_prune drop hb.1 _).terminates, ih hb.2 h.2]

variable (drop)

/-- The code of a pruned tree is that of the tree. -/
theorem lower_prune {e : Expr} (h : Built e) : ∀ p q, (e.prune drop p).lower q = e.lower q := by
  induction h with
  | int | bytes | named | txn | global | globalGet | verdict => exact fun _ _ => rfl
  | unary _ _ ih | localGet _ _ ih | globalPut _ _ ih | log _ _ ih =>
    intro p q
    rw [prune, lower, lower, enter_prune, ih]
  | binary _ _ _ iha ihb | localPut _ _ _ iha ihb =>
    intro p q
    rw [prune, lower, lower, enter_prune, enter_prune, iha, ihb]
  | seq hs ih => exact fun p q => lowerItems_pruneItems hs ih p q 0 0
  | cond _ hb _ iht ihb =>
    intro p q
    have hends := bodiesTerminate_pruneArms (fun arm harm => alike_prune drop (hb arm harm)) p 0
    rw [prune, lower, lower, lowerTests_pruneArms iht, lowerBodies_pruneArms hb ihb, hends]

/-- A tree that compiles does so without any of its dead items. -/
theorem compile_of_pruned {root : Expr} (hb : Built root) {v : UInt8} {name : String} {l : Listing}
    (h : root.compile v name = .ok l) : (root.prune drop []).compile v name = .ok l := by
  obtain ⟨hv, hk, ht, -, -⟩ := (compile_eq_ok_iff hb).1 h
  have ht' : (root.prune drop []).terminates = true :=
    (alike_prune drop hb []).terminates.trans ht
  have hcode : (root.prune drop []).namedCode name = root.namedCode name := by
    rw [namedCode, namedCode, lower_prune drop hb]
  rw [compile_of_keysAgree hb hv hk ht] at h
  rw [compile_of_keysAgree (built_prune drop hb []) hv (keysAgree_prune drop hb hk []) ht', hcode, h]

/-! ## Mostly dead -/

/-- A choice that always terminates, with a log and a value behind the end of its body, and a verdict
that nothing reaches. -/
def mostlyDead : Expr :=
  .seq [.cond [(.int 1, .seq [.approve, .log (.bytes []), .int 7])], .reject]

/-- The paths of the log and of the verdict. -/
def mostlyDeadDrop (p : List Role) : Bool :=
  p == [.item 1, .body 0, .item 0] || p == [.item 1]

theorem built_mostlyDead : Built mostlyDead := by
  have hbody : Built (.seq [.approve, .log (.bytes []), .int 7]) := by
    refine .seq (List.forall_mem_cons.2 ⟨.verdict true, List.forall_mem_cons.2 ⟨?_, ?_⟩⟩)
    · exact .log (.bytes []) (admitted_iff_fits.2 rfl)
    · exact List.forall_mem_singleton.2 (.int 7)
  have hcond : Built (.cond [(.int 1, .seq [.approve, .log (.bytes []), .int 7])]) :=
    .cond (List.forall_mem_singleton.2 (.int 1)) (List.forall_mem_singleton.2 hbody) (by rfl)
  exact .seq (List.forall_mem_cons.2 ⟨hcond, List.forall_mem_singleton.2 (.verdict false)⟩)

/-! ## Top theorem -/

/-- A tree that compiles compiles to the same listing without any of its dead items. The smaller tree
can be built, and each of its nodes has the type and the termination of the node it is left of. -/
theorem compile_prune {root : Expr} (hb : Built root) {v : UInt8} {name : String} {l : Listing}
    (h : root.compile v name = .ok l) :
    Built (root.prune drop []) ∧
      List.Forall₂ Alike (root.remaining drop []) (root.prune drop []).nodes ∧
        (root.prune drop []).compile v name = .ok l :=
  ⟨built_prune drop hb [], alike_remaining drop hb [], compile_of_pruned drop hb h⟩

/-- Version 2 has no logs, and the listing has only the verdict that is reached. Of what is dead the
value stays. -/
theorem compile_prune_mostlyDead :
    mostlyDead.prune mostlyDeadDrop [] = .seq [.cond [(.int 1, .seq [.approve, .int 7])]] ∧
      (Expr.seq [.cond [(.int 1, .seq [.approve, .int 7])]]).compile 2 "approval" =
        .ok (mostlyDead.listing 2 "approval") := by
  have hprune : mostlyDead.prune mostlyDeadDrop [] =
      .seq [.cond [(.int 1, .seq [.approve, .int 7])]] := by rfl
  have h : mostlyDead.compile 2 "approval" = .ok (mostlyDead.listing 2 "approval") := by rfl
  have hsame := (compile_prune mostlyDeadDrop built_mostlyDead h).2.2
  rw [hprune] at hsame
  exact ⟨hprune, hsame⟩

end Expr

end ContractBench
