import ContractBench.Proofs.Code.Placed
import ContractBench.Proofs.Expr.Built
import ContractBench.Proofs.Machine.Follows
/-!
# Behind the code of a node

When the code of a node has run, the machine stands behind it: its value, if it has one, is on
top of what was on the stack before, and the effects are those of evaluation. The code of a read
leaves the value found, or the default of the type the tree declares:

    Placed code target a (lowerRead p key type get getEx) →
      Follows env top Q (ready a cost s₀ fx)
        (orFault found >>= fun v => .ok (fx, some (v.getD (.zero type))))       (follows_read)
-/

namespace ContractBench

namespace Expr

open Item Machine Stop

/-- What an evaluation gives: effects, and a value if the node leaves one. -/
abbrev Yield : Type := Effects × Option Value

/-- The machine stands behind a node, which leaves a value if its type says so. -/
structure Behind (e : Expr) (b : Nat) (s : Stack) (r : Yield) (m : Machine) : Prop where
  goesOn : e.terminates = false
  isSome : r.2.isSome ↔ e.type ≠ .statement
  machine : ∃ cost, m = ready b cost (r.2.toList ++ s) r.1

namespace Behind

variable {e e' : Expr} {a b cost : Nat} {s : Stack} {fx : Effects} {r : Yield} {m : Machine}

theorem ofValue {t : ValueType} (v : Value) (ht : e.type = .value t) (h : e.terminates = false) :
    Behind e b s (fx, some v) (ready b cost (v :: s) fx) :=
  ⟨h, by simp [ht], cost, rfl⟩

theorem ofStatement (ht : e.type = .statement) (h : e.terminates = false) :
    Behind e b s (fx, none) (ready b cost s fx) :=
  ⟨h, by simp [ht], cost, rfl⟩

/-- An operand leaves its value on top. -/
theorem value {t : ValueType} (h : Behind e b s r m) (ht : e.type = .value t) :
    ∃ v cost, r = (r.1, some v) ∧ m = ready b cost (v :: s) r.1 := by
  obtain ⟨-, hs, cost, hm⟩ := h
  obtain ⟨fx, v⟩ := r
  cases v with
  | none =>
    have hne : e.type ≠ .statement := by rw [ht]; exact fun h => nomatch h
    exact absurd (hs.2 hne) Bool.false_ne_true
  | some v => exact ⟨v, cost, rfl, hm⟩

/-- A statement leaves nothing. -/
theorem statement (h : Behind e b s r m) (ht : e.type = .statement) :
    ∃ cost, r = (r.1, none) ∧ m = ready b cost s r.1 := by
  obtain ⟨-, hs, cost, hm⟩ := h
  obtain ⟨fx, v⟩ := r
  cases v with
  | none => exact ⟨cost, rfl, hm⟩
  | some v => exact absurd ht (hs.1 rfl)

/-- Behind the last part of a node is behind the node. -/
theorem last (h : Behind e b s r m) (ht : e'.type = e.type) (hg : e'.terminates = false) :
    Behind e' b s r m :=
  ⟨hg, by rw [ht]; exact h.isSome, h.machine⟩

end Behind

/-! ## Single instructions -/

section Instructions

variable {env : Environment} {α : Type} {top a cost : Nat} {s : Stack} {fx : Effects}
  {Q : α → Machine → Prop} {r : Except Stop α} {p : NodePath}

/-- An instruction that pushes a value. -/
theorem follows_push {i : Instruction} {v : Value} (hi : env.program.instructions[a]? = some i)
    (hx : (ready (a + 1) (cost + 1) s fx).exec env i = (ready (a + 1) (cost + 1) s fx).push v)
    (ht : s.length < top) (h : Follows env top Q (ready (a + 1) (cost + 1) (v :: s) fx) r) :
    Follows env top Q (ready a cost s fx) r := by
  refine Follows.exec_ready hi ?_
  rw [hx]
  exact Leads.push ht h

/-- A jump that is taken if the top is not zero. -/
theorem follows_bnz {n : UInt64} {t : Nat}
    (hi : env.program.instructions[a]? = some ⟨.bnz, .target t⟩) (ht : t ≤ env.program.size)
    (h : Follows env top Q (ready (if n != 0 then t else a + 1) (cost + 1) s fx) r) :
    Follows env top Q (ready a cost (.int n :: s) fx) r := by
  refine Follows.exec_ready hi ?_
  rw [exec_bnz n ht]
  exact h

theorem follows_jump {t : Nat} (hi : env.program.instructions[a]? = some ⟨.jump, .target t⟩)
    (ht : t ≤ env.program.size) (h : Follows env top Q (ready t (cost + 1) s fx) r) :
    Follows env top Q (ready a cost s fx) r := by
  refine Follows.exec_ready hi ?_
  rw [exec_jump ht]
  exact h

theorem follows_pop {v : Value} (hi : env.program.instructions[a]? = some (.plain .pop))
    (h : Follows env top Q (ready (a + 1) (cost + 1) s fx) r) :
    Follows env top Q (ready a cost (v :: s) fx) r := by
  refine Follows.exec_ready hi ?_
  rw [exec_pop]
  exact h

/-- The verdict on top of the stack ends the run. -/
theorem follows_ret {n : UInt64} (hi : env.program.instructions[a]? = some (.plain .ret)) :
    Follows env top Q (ready a cost (.int n :: s) fx) (.error (.verdict (n != 0) fx)) :=
  Follows.exec_ready hi (.verdict rfl rfl rfl)

theorem follows_err (hi : env.program.instructions[a]? = some (.plain .err)) :
    Follows env top Q (ready a cost s fx) (.error (.fault .explicitErr)) :=
  Follows.exec_ready hi (.inl rfl)

end Instructions

/-! ## Reads -/

variable {env : Environment} {top a cost : Nat} {s s₀ : Stack} {fx : Effects}

/-- A look-up pushes what it finds and whether it found something. -/
theorem leads_lookup {α : Type} {Q : α → Machine → Prop} {r : Except Stop α} (found : Option Value)
    (ht : s.length + 1 < top)
    (h : Follows env top Q
      (ready a cost (.int (if found.isSome then 1 else 0) :: found.getD (.int 0) :: s) fx) r) :
    Leads env top Q (do return ready a cost (← s.pushLookup found) fx) r := by
  have hpush : (do return ready a cost (← s.pushLookup found) fx) =
      (ready a cost s fx).push (found.getD (.int 0)) >>= fun m =>
        m.push (.int (if found.isSome then 1 else 0)) := by
    cases found with
    | none =>
      cases hs : s.push (.int 0) <;> simp [Stack.pushLookup, Machine.push, ready, hs] <;> rfl
    | some v =>
      cases hs : s.push v <;> simp [Stack.pushLookup, Machine.push, ready, hs] <;> rfl
  rw [hpush]
  exact Leads.push_bind (by omega) (Leads.push ht h)

/-- Values a read has on the stack, above its operands. -/
def readHeight : ValueType → Nat
  | .int => 1
  | .bytes => 2

/-- The code of a read leaves the value found, or the default of its type. -/
theorem follows_read {target : Label → Nat} {p : NodePath} {key : Bytes} {type : ValueType}
    {get getEx : Opcode} {found : Except Fault (Option Value)} {Q : Yield → Machine → Prop}
    (hget : ∀ a cost, (ready a cost (.bytes key :: s₀) fx).exec env (.plain get) =
      found >>= fun v => (ready a cost s fx).push (v.getD (.int 0)))
    (hgetEx : ∀ a cost, (ready a cost (.bytes key :: .int 0 :: s₀) fx).exec env (.plain getEx) =
      found >>= fun v => do return ready a cost (← s.pushLookup v) fx)
    (hp : Placed env.program.instructions target a (lowerRead p key type get getEx))
    (hle : ∀ l, target l ≤ env.program.size) (hs : s.length ≤ s₀.length)
    (ht : s₀.length + readHeight type ≤ top)
    (hq : ∀ v cost, Q (fx, some v)
      (ready (a + count (lowerRead p key type get getEx)) cost (v :: s) fx)) :
    Follows env top Q (ready a cost s₀ fx)
      (orFault found >>= fun v => .ok (fx, some (v.getD (.zero type)))) := by
  cases type with
  | int =>
    have ht : s₀.length + 1 ≤ top := ht
    obtain ⟨hkey, hop, -⟩ := hp
    refine follows_push hkey rfl (by omega) ?_
    refine Follows.exec_ready hop ?_
    rw [hget]
    exact Leads.bind fun v _ => Leads.push (by omega) (.done (hq _ _))
  | bytes =>
    have ht : s₀.length + 2 ≤ top := ht
    obtain ⟨happ, hkey, hop, hjump, hpop, hempty, hmark, -⟩ := hp
    refine follows_push happ rfl (by omega) ?_
    refine follows_push hkey rfl (by simp; omega) ?_
    refine Follows.exec_ready hop ?_
    rw [hgetEx]
    refine Leads.bind fun v _ => leads_lookup v (by omega) ?_
    refine follows_bnz hjump (hle _) ?_
    cases v with
    | some v =>
      -- the jump goes behind the default
      rw [hmark]
      exact .done (hq _ _)
    | none => exact follows_pop hpop (follows_push hempty rfl (by omega) (.done (hq _ _)))

end Expr

end ContractBench
