import ContractBench.Proofs.Code.Behind
/-!
# Code does what trees mean

The code of a node, placed anywhere in a program and started on any stack, does what evaluating the
node says: it ends behind the node, or stops in the same way (`Simulates`). Every kind of node does
if its children do, so that all trees do:

    Built e → Simulates env target e                                     (simulates_of_built)
-/

namespace ContractBench

namespace Expr

open Item Machine Stop

/-- The code of a node does what the node means, in a given program. -/
def Simulates (env : Environment) (target : Label → Nat) (e : Expr) : Prop :=
  ∀ (p : NodePath) (a b cost top : Nat) (s : Stack) (fx : Effects),
    Placed env.program.instructions target a (e.lower p) → b = a + count (e.lower p) →
      s.length + e.height ≤ top →
        Follows env top (Behind e b s) (ready a cost s fx) (e.eval env fx)

variable {env : Environment} {target : Label → Nat}

/-! ## Leaves -/

/-- A node that is one instruction pushing a value. -/
theorem simulates_push {e : Expr} {i : Instruction} {v : Value} {t : ValueType}
    (hl : ∀ p, e.lower p = [.op i p]) (hx : ∀ m : Machine, m.exec env i = m.push v)
    (he : ∀ fx, e.eval env fx = .ok (fx, some v)) (ht : e.type = .value t)
    (hg : e.terminates = false) (hh : e.height = 1) : Simulates env target e := by
  intro p a b cost top s fx hp hb hle
  rw [hl] at hp hb
  rw [he]
  refine follows_push hp.1 (hx _) (by omega) (.done ?_)
  rw [hb]
  exact .ofValue v ht hg

theorem simulates_txn (source : TxnSource) (field : TxnField) :
    Simulates env target (.txn source field) := by
  intro p a b cost top s fx hp hb hle
  have hle : s.length + 1 ≤ top := hle
  have hfield : ∃ i, lower p (.txn source field) = [.op i p] ∧ ∀ m : Machine,
      m.exec env i = readField env source field >>= m.push := by
    cases source <;> exact ⟨_, rfl, fun m => rfl⟩
  obtain ⟨i, hl, hx⟩ := hfield
  rw [hl] at hp hb
  show Follows env top _ _ (orFault (readField env source field) >>= fun v => .ok (fx, some v))
  refine Follows.exec_ready hp.1 ?_
  rw [hx]
  refine Leads.bind fun v _ => Leads.push (by omega) (.done ?_)
  rw [hb]
  exact .ofValue v rfl rfl

theorem simulates_verdict (approve : Bool) : Simulates env target (.verdict approve) := by
  intro p a b cost top s fx hp hb hle
  have hle : s.length + 1 ≤ top := hle
  have hret : ∀ n : UInt64, Follows env top (Behind (.verdict approve) b s)
      (ready (a + 1) (cost + 1) (.int n :: s) fx) (.error (.verdict (n != 0) fx)) :=
    fun n => follows_ret hp.2.1
  refine follows_push hp.1 rfl (by omega) ?_
  cases approve with
  | true => exact hret 1
  | false => exact hret 0

/-! ## Operators -/

theorem simulates_unary {op : UnaryOp} {operand : Expr} (ho : Simulates env target operand)
    (hf : Fits (.unary op operand)) : Simulates env target (.unary op operand) := by
  intro p a b cost top s fx hp hb hle
  obtain ⟨hpo, hop, -⟩ := Placed.append_iff.1 hp
  have hle : s.length + max 1 operand.height ≤ top := hle
  rw [lower, count_append] at hb
  refine Follows.bind (ho _ _ _ _ _ s fx hpo rfl (by omega)) ?_
  intro r m hm
  obtain ⟨v, cost, hr, rfl⟩ := hm.value hf
  rw [hr]
  show Follows env top _ _ (orFault (op.apply v) >>= fun w => .ok (r.1, some w))
  refine Follows.exec_ready hop ?_
  rw [exec_unary]
  refine Leads.bind fun w _ => Leads.push (by omega) (.done ?_)
  rw [hb]
  exact .ofValue w rfl rfl

theorem simulates_binary {op : BinaryOp} {left right : Expr} (hl : Simulates env target left)
    (hr : Simulates env target right) (hf : Fits (.binary op left right)) :
    Simulates env target (.binary op left right) := by
  intro p a b cost top s fx hp hb hle
  obtain ⟨t, htl, htr, -⟩ := hf
  obtain ⟨hlr, hop⟩ := Placed.append_iff.1 hp
  obtain ⟨hpl, hpr⟩ := Placed.append_iff.1 hlr
  have hle : s.length + max left.height (right.height + 1) ≤ top := hle
  rw [lower, count_append, count_append] at hb
  rw [count_append, ← Nat.add_assoc] at hop
  refine Follows.bind (hl _ _ _ _ _ s fx hpl rfl (by omega)) ?_
  intro r m hm
  obtain ⟨v, cost, hv, rfl⟩ := hm.value htl
  rw [hv]
  refine Follows.bind (hr _ _ _ _ _ (v :: s) r.1 hpr rfl (by simp; omega)) ?_
  intro r' m hm
  obtain ⟨w, cost, hw, rfl⟩ := hm.value htr
  rw [hw]
  show Follows env top _ _ (orFault (op.apply v w) >>= fun u => .ok (r'.1, some u))
  refine Follows.exec_ready hop.1 ?_
  rw [exec_binary]
  refine Leads.bind fun u _ => Leads.push (by omega) (.done ?_)
  rw [hb, ← Nat.add_assoc, ← Nat.add_assoc]
  exact .ofValue u rfl rfl

/-! ## State and log -/

theorem simulates_globalGet (hle : ∀ l, target l ≤ env.program.size) (key : Bytes)
    (type : ValueType) : Simulates env target (.globalGet key type) := by
  intro p a b cost top s fx hp hb ht
  have ht : s.length + readHeight type ≤ top := by cases type <;> exact ht
  refine follows_read (fun _ _ => exec_globalGet key) (fun _ _ => exec_globalGetEx key) hp hle
    (Nat.le_refl _) ht ?_
  intro v cost
  rw [hb]
  exact .ofValue v rfl rfl

theorem simulates_localGet (hle : ∀ l, target l ≤ env.program.size) {account : Expr} {key : Bytes}
    {type : ValueType} (ha : Simulates env target account)
    (hf : Fits (.localGet account key type)) :
    Simulates env target (.localGet account key type) := by
  intro p a b cost top s fx hp hb ht
  obtain ⟨hpa, hpr⟩ := Placed.append_iff.1 hp
  have ht : s.length + max account.height (1 + readHeight type) ≤ top := by
    cases type <;> exact ht
  rw [lower, count_append] at hb
  refine Follows.bind (ha _ _ _ _ _ s fx hpa rfl (by omega)) ?_
  intro r m hm
  obtain ⟨v, cost, hv, rfl⟩ := hm.value hf
  rw [hv]
  refine follows_read (fun _ _ => exec_localGet key v) (fun _ _ => exec_localGetEx key v) hpr hle
    (Nat.le_succ _) (by simp; omega) ?_
  intro w cost
  rw [hb, ← Nat.add_assoc]
  exact .ofValue w rfl rfl

theorem simulates_globalPut {key : Bytes} {value : Expr} (hv : Simulates env target value)
    (hf : Fits (.globalPut key value)) : Simulates env target (.globalPut key value) := by
  intro p a b cost top s fx hp hb hle
  obtain ⟨t, hf⟩ := hf
  obtain ⟨⟨hkey, hpv⟩, hop⟩ := Placed.append_iff.1 hp
  have hle : s.length + (value.height + 1) ≤ top := hle
  rw [lower, count_append, count_op] at hb
  rw [count_op] at hop
  refine follows_push hkey rfl (by omega) ?_
  refine Follows.bind (hv _ _ _ _ _ (.bytes key :: s) fx hpv rfl (by simp; omega)) ?_
  intro r m hm
  obtain ⟨v, cost, hr, rfl⟩ := hm.value hf
  rw [hr]
  show Follows env top _ _ (orFault (r.1.putGlobal env key v) >>= fun fx => .ok (fx, none))
  have hput : env.program.instructions[a + 1 + count (value.lower (p.enter .value value))]? =
      some (.plain .appGlobalPut) := by
    rw [← hop.1]
    congr 1
    omega
  refine Follows.exec_ready hput ?_
  rw [exec_globalPut]
  refine Leads.bind fun fx' _ => Follows.done ?_
  rw [show b = a + 1 + count (value.lower (p.enter .value value)) + 1 by rw [hb]; simp; omega]
  exact .ofStatement rfl rfl

theorem simulates_localPut {account value : Expr} {key : Bytes}
    (ha : Simulates env target account) (hv : Simulates env target value)
    (hf : Fits (.localPut account key value)) :
    Simulates env target (.localPut account key value) := by
  intro p a b cost top s fx hp hb hle
  obtain ⟨hfa, t, hfv⟩ := hf
  obtain ⟨hav, hop⟩ := Placed.append_iff.1 hp
  obtain ⟨hpa, hkey, hpv⟩ := Placed.append_iff.1 hav
  have hle : s.length + max account.height (value.height + 2) ≤ top := hle
  rw [lower, count_append, count_append, count_op] at hb
  rw [count_append, count_op, ← Nat.add_assoc] at hop
  refine Follows.bind (ha _ _ _ _ _ s fx hpa rfl (by omega)) ?_
  intro r m hm
  obtain ⟨w, cost, hw, rfl⟩ := hm.value hfa
  rw [hw]
  refine follows_push hkey rfl (by simp; omega) ?_
  refine Follows.bind (hv _ _ _ _ _ (.bytes key :: w :: s) r.1 hpv rfl (by simp; omega)) ?_
  intro r' m hm
  obtain ⟨v, cost, hr, rfl⟩ := hm.value hfv
  rw [hr]
  show Follows env top _ _ (orFault (r'.1.putLocal env w key v) >>= fun fx => .ok (fx, none))
  have hput : env.program.instructions[a + count (account.lower (p.enter .account account)) + 1 +
      count (value.lower (p.enter .value value))]? = some (.plain .appLocalPut) := by
    rw [← hop.1]
    congr 1
    omega
  refine Follows.exec_ready hput ?_
  rw [exec_localPut]
  refine Leads.bind fun fx' _ => Follows.done ?_
  rw [show b = a + count (account.lower (p.enter .account account)) + 1 +
    count (value.lower (p.enter .value value)) + 1 by rw [hb]; simp; omega]
  exact .ofStatement rfl rfl

theorem simulates_log {value : Expr} (hv : Simulates env target value)
    (hf : Fits (.log value)) : Simulates env target (.log value) := by
  intro p a b cost top s fx hp hb hle
  obtain ⟨hpv, hop, -⟩ := Placed.append_iff.1 hp
  have hle : s.length + value.height ≤ top := hle
  rw [lower, count_append] at hb
  refine Follows.bind (hv _ _ _ _ _ s fx hpv rfl (by omega)) ?_
  intro r m hm
  obtain ⟨v, cost, hr, rfl⟩ := hm.value hf
  rw [hr]
  show Follows env top _ _ (orFault (r.1.log v) >>= fun fx => .ok (fx, none))
  refine Follows.exec_ready hop ?_
  rw [exec_log]
  refine Leads.bind fun fx' _ => Follows.done ?_
  rw [hb]
  exact .ofStatement rfl rfl

/-! ## Sequences -/

/-- Between two items nothing is left on the stack. -/
theorem follows_dropValue {α : Type} {Q : α → Machine → Prop} {x : Except Stop α} {e : Expr}
    {rest : List Expr} {p : NodePath} {a top : Nat} {s : Stack} {r : Yield} {m : Machine}
    (hrest : rest ≠ []) (hp : Placed env.program.instructions target a (dropValue p e rest))
    (hm : Behind e a s r m)
    (h : ∀ cost, Follows env top Q (ready (a + count (dropValue p e rest)) cost s r.1) x) :
    Follows env top Q m x := by
  unfold dropValue at hp h
  cases ht : e.type with
  | statement =>
    obtain ⟨cost, -, rfl⟩ := hm.statement ht
    rw [if_neg (by simp [ht])] at h
    exact h cost
  | value t =>
    obtain ⟨v, cost, -, rfl⟩ := hm.value ht
    have hdrop : e.type ≠ .statement ∧ !rest.isEmpty := by simp [ht, hrest]
    rw [if_pos hdrop] at hp h
    exact follows_pop hp.1 (h _)

/-- Items behind which a machine is as it is behind their last one. -/
theorem follows_items {Q : Yield → Machine → Prop} {items : List Expr}
    (hs : ∀ e ∈ items, Simulates env target e) {p : NodePath} {i a b cost top : Nat} {s : Stack}
    {fx : Effects} (hp : Placed env.program.instructions target a (lowerItems p i items))
    (hb : b = a + count (lowerItems p i items)) (ht : s.length + itemsHeight items ≤ top)
    (hq : ∀ r m, Behind (.seq items) b s r m → Q r m) :
    Follows env top Q (ready a cost s fx) (evalItems env fx items) := by
  induction items generalizing i a cost fx with
  | nil =>
    refine .done (hq _ _ ?_)
    rw [hb]
    exact .ofStatement rfl rfl
  | cons e rest ih =>
    have ht : s.length + max e.height (itemsHeight rest) ≤ top := ht
    have he := hs e List.mem_cons_self
    cases hg : e.terminates with
    | true =>
      rw [lowerItems_of_terminates hg] at hp
      refine Follows.bind (he _ _ _ _ _ s fx hp rfl (by omega)) ?_
      exact fun r m hm => Bool.noConfusion (hg.symm.trans hm.goesOn)
    | false =>
      rw [lowerItems_of_goes_on hg] at hp hb
      obtain ⟨hpe, hpd⟩ := Placed.append_iff.1 hp
      obtain ⟨hpd, hpr⟩ := Placed.append_iff.1 hpd
      rw [count_append, count_append] at hb
      refine Follows.bind (he _ _ _ _ _ s fx hpe rfl (by omega)) ?_
      intro r m hm
      cases rest with
      | nil =>
        have hend : b = a + count (e.lower (p.enter (.item i) e)) := by
          simpa [dropValue, lowerItems] using hb
        refine .done (hq _ _ ?_)
        rw [hend]
        exact hm.last (seq_singleton hg).1 (seq_singleton hg).2
      | cons e' rest =>
        refine follows_dropValue (List.cons_ne_nil _ _) hpd hm fun cost => ?_
        refine ih (fun x hx => hs x (List.mem_cons_of_mem _ hx)) hpr (by omega) (by omega) ?_
        intro r m hm
        obtain ⟨htype, hterm⟩ := @seq_cons e e' rest hg
        exact hq r m (hm.last htype (hterm.trans hm.goesOn))

theorem simulates_seq {items : List Expr} (hs : ∀ e ∈ items, Simulates env target e) :
    Simulates env target (.seq items) :=
  fun _ _ _ _ _ _ _ hp hb ht => follows_items hs hp hb ht fun _ _ h => h

/-! ## Choices -/

/-- The tests of a choice lead to the body of the first arm that holds, and the body behind the
choice, at `fin`. -/
theorem follows_arms (hle : ∀ l, target l ≤ env.program.size) {Q : Yield → Machine → Prop}
    {arms : List (Expr × Expr)} (htest : ∀ arm ∈ arms, Simulates env target arm.1)
    (hbody : ∀ arm ∈ arms, Simulates env target arm.2)
    (hint : ∀ arm ∈ arms, arm.1.type = .value .int) {p : NodePath} {i a b fin cost top : Nat}
    {s : Stack} {fx : Effects}
    (hp : Placed env.program.instructions target a (lowerTests p i arms ++ [.op (.plain .err) p]))
    (hpb : Placed env.program.instructions target b (lowerBodies p i arms))
    (hfin : ∀ arm ∈ arms, arm.2.terminates = false → target (.done p.roles) = fin)
    (ht : s.length + armsHeight arms ≤ top)
    (hq : ∀ arm ∈ arms, ∀ r m, Behind arm.2 fin s r m → Q r m) :
    Follows env top Q (ready a cost s fx) (evalArms env fx arms) := by
  induction arms generalizing i a b cost fx with
  | nil => exact follows_err hp.1
  | cons arm rest ih =>
    obtain ⟨test, body⟩ := arm
    have ht : s.length + max test.height (max body.height (armsHeight rest)) ≤ top := ht
    rw [lowerTests, List.append_assoc] at hp
    obtain ⟨hpt, hjump, hprest⟩ := Placed.append_iff.1 hp
    obtain ⟨hbodies, hpbrest⟩ := Placed.append_iff.1 hpb
    obtain ⟨⟨hmark, hpbody⟩, hdone⟩ := Placed.append_iff.1 hbodies
    rw [count_mark] at hdone
    have htest' : s.length + test.height ≤ top := by omega
    refine Follows.bind (htest _ List.mem_cons_self _ _ _ _ _ s fx hpt rfl htest') ?_
    intro r m hm
    obtain ⟨v, cost, hr, rfl⟩ := hm.value (hint _ List.mem_cons_self)
    rw [hr]
    cases v with
    | bytes w =>
      have hx : (ready (a + count (test.lower (p.enter (.test i) test)) + 1) (cost + 1)
          (.bytes w :: s) r.1).exec env ⟨.bnz, .target (target (.arm p.roles i))⟩ =
            .error (.typeMismatch .bnz (some .int)) := by
        have hj : jumpTarget env ⟨.bnz, .target (target (.arm p.roles i))⟩ = .ok _ := if_pos (hle _)
        show (jumpTarget env _ >>= _) = _
        rw [hj]
        rfl
      refine Follows.exec_ready hjump ?_
      rw [hx]
      exact .inl rfl
    | int n =>
      refine follows_bnz hjump (hle _) ?_
      show Follows env top Q _ (if n != 0 then body.eval env r.1 else evalArms env r.1 rest)
      by_cases hn : n != 0
      · rw [if_pos hn, if_pos hn, hmark]
        have hbody' : s.length + body.height ≤ top := by omega
        refine Follows.extend (hbody _ List.mem_cons_self _ _ _ _ _ s r.1 hpbody rfl hbody') ?_
        intro r' m hm
        have hg := hm.goesOn
        rw [if_neg (by simp [hg])] at hdone
        obtain ⟨cost, rfl⟩ := hm.machine
        refine follows_jump hdone.1 (hle _) (.done (hq _ List.mem_cons_self _ _ ?_))
        rw [hfin _ List.mem_cons_self hg]
        exact ⟨hg, hm.isSome, _, rfl⟩
      · rw [if_neg hn, if_neg hn]
        exact ih (fun arm h => htest arm (List.mem_cons_of_mem _ h))
          (fun arm h => hbody arm (List.mem_cons_of_mem _ h))
          (fun arm h => hint arm (List.mem_cons_of_mem _ h)) hprest hpbrest
          (fun arm h => hfin arm (List.mem_cons_of_mem _ h)) (by omega)
          (fun arm h => hq arm (List.mem_cons_of_mem _ h))

theorem simulates_cond (hle : ∀ l, target l ≤ env.program.size) {arms : List (Expr × Expr)}
    (htest : ∀ arm ∈ arms, Simulates env target arm.1)
    (hbody : ∀ arm ∈ arms, Simulates env target arm.2) (hf : Fits (.cond arms)) :
    Simulates env target (.cond arms) := by
  intro p a b cost top s fx hp hb ht
  obtain ⟨hcode, hmark⟩ := Placed.append_iff.1 hp
  obtain ⟨hpt, herr, hpb⟩ := Placed.append_iff.1 hcode
  have hfin : ∀ arm ∈ arms, arm.2.terminates = false → target (.done p.roles) = b := by
    intro arm harm hg
    have hterm : bodiesTerminate arms = false := (cond_of_goes_on hf harm hg).2
    rw [if_neg (by simp [hterm])] at hmark
    rw [hmark.1, hb, lower, if_neg (by simp [hterm])]
    simp
  refine follows_arms hle htest hbody hf.1 ?_ hpb hfin ht ?_
  · exact Placed.append_iff.2 ⟨hpt, herr, trivial⟩
  · intro arm harm r m hm
    obtain ⟨htype, hterm⟩ := cond_of_goes_on hf harm hm.goesOn
    exact hm.last htype hterm

/-! ## All trees -/

theorem simulates_of_built (hle : ∀ l, target l ≤ env.program.size) {e : Expr} (h : Built e) :
    Simulates env target e := by
  induction h with
  | int | bytes | named | global =>
    exact simulates_push (fun _ => rfl) (fun _ => rfl) (fun _ => rfl) rfl rfl rfl
  | txn source field => exact simulates_txn source field
  | unary _ ha iho => exact simulates_unary iho (admitted_iff_fits.1 ha)
  | binary _ _ ha ihl ihr => exact simulates_binary ihl ihr (admitted_iff_fits.1 ha)
  | globalGet key type => exact simulates_globalGet hle key type
  | localGet _ ha ih => exact simulates_localGet hle ih (admitted_iff_fits.1 ha)
  | globalPut _ ha ih => exact simulates_globalPut ih (admitted_iff_fits.1 ha)
  | localPut _ _ ha iha ihv => exact simulates_localPut iha ihv (admitted_iff_fits.1 ha)
  | log _ ha ih => exact simulates_log ih (admitted_iff_fits.1 ha)
  | verdict approve => exact simulates_verdict approve
  | seq _ ih => exact simulates_seq ih
  | cond _ _ ha iht ihb => exact simulates_cond hle iht ihb (admitted_iff_fits.1 ha)

end Expr

end ContractBench
