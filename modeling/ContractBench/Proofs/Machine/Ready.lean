import ContractBench.Proofs.Machine.Operators
/-!
# Machines at an address

A machine that is ready at an address holds a stack and the effects of an evaluation. Each
instruction does to it what evaluation does at the same place: it takes operands from the stack,
works on them and on the effects, and pushes the result.

    (ready a cost (v :: s) fx).exec env (.plain (.unary op)) =
      op.apply v >>= fun w => (ready a cost s fx).push w                        (exec_unary)
-/

namespace ContractBench

namespace Machine

/-- A machine at an address, with a stack and the effects of an evaluation. -/
def ready (a cost : Nat) (s : Stack) (fx : Effects) : Machine :=
  ⟨a, cost, s, fx.logs, fx.logSize, fx.pending, none⟩

variable {env : Environment} {a cost : Nat} {s : Stack} {fx : Effects}

theorem push_ready (v : Value) :
    (ready a cost s fx).push v =
      if maxStackSize ≤ s.length then .error .stackOverflow else .ok (ready a cost (v :: s) fx) := by
  show (s.push v >>= _) = _
  rw [Stack.push]
  split <;> rfl

/-! ## What instructions do there -/

theorem exec_unary (op : UnaryOp) (v : Value) :
    (ready a cost (v :: s) fx).exec env (.plain (.unary op)) =
      op.apply v >>= fun w => (ready a cost s fx).push w :=
  op.exec_eq_apply env .absent rfl

theorem exec_binary (op : BinaryOp) (v w : Value) :
    (ready a cost (w :: v :: s) fx).exec env (.plain (.binary op)) =
      op.apply v w >>= fun u => (ready a cost s fx).push u := by
  show (do
    return { ready a cost (w :: v :: s) fx with stack := ← Stack.binary op (w :: v :: s) }) = _
  rw [Stack.binary_eq_apply]
  cases op.apply v w <;> rfl

theorem exec_pop (v : Value) :
    (ready a cost (v :: s) fx).exec env (.plain .pop) = .ok (ready a cost s fx) := rfl

theorem exec_log (v : Value) :
    (ready a cost (v :: s) fx).exec env (.plain .log) =
      fx.log v >>= fun fx' => .ok (ready a cost s fx') := by
  cases v with
  | int n => rfl
  | bytes b =>
    have hsize : ({ fx with logs := fx.logs ++ [b] } : Effects).logSize = fx.logSize + b.length := by
      simp [Effects.logSize]
    by_cases h : maxLogEntries ≤ fx.logs.length ∨ maxLogBytes < fx.logSize + b.length
    · have hlog : fx.log (.bytes b) = .error .logLimitExceeded := if_pos h
      rw [hlog]
      exact if_pos h
    · have hlog : fx.log (.bytes b) = .ok { fx with logs := fx.logs ++ [b] } := if_neg h
      rw [hlog]
      refine (if_neg h).trans ?_
      show Except.ok (⟨a, cost, s, fx.logs ++ [b], fx.logSize + b.length, fx.pending, none⟩ :
        Machine) = _
      rw [← hsize]
      rfl

theorem exec_globalGet (key : Bytes) :
    (ready a cost (.bytes key :: s) fx).exec env (.plain .appGlobalGet) =
      fx.getGlobal env key >>= fun found => (ready a cost s fx).push (found.getD (.int 0)) := rfl

theorem exec_globalGetEx (key : Bytes) :
    (ready a cost (.bytes key :: .int 0 :: s) fx).exec env (.plain .appGlobalGetEx) =
      fx.getGlobal env key >>= fun found => do
        return ready a cost (← s.pushLookup found) fx := rfl

theorem exec_globalPut (key : Bytes) (v : Value) :
    (ready a cost (v :: .bytes key :: s) fx).exec env (.plain .appGlobalPut) =
      fx.putGlobal env key v >>= fun fx' => .ok (ready a cost s fx') := by
  show (ready a cost (v :: .bytes key :: s) fx).globalPut env = _
  unfold globalPut Effects.putGlobal
  dsimp only [ready, Stack.pop, Stack.popBytes, bind, Except.bind, view, Effects.view]
  cases View.putGlobal ⟨env.state, fx.pending⟩ key v <;> rfl

theorem exec_localGet (key : Bytes) (v : Value) :
    (ready a cost (.bytes key :: v :: s) fx).exec env (.plain .appLocalGet) =
      fx.getLocal env v key >>= fun found => (ready a cost s fx).push (found.getD (.int 0)) := by
  show ((env.account v >>= _) >>= _) = (env.account v >>= _) >>= _
  cases env.account v <;> rfl

theorem exec_localGetEx (key : Bytes) (v : Value) :
    (ready a cost (.bytes key :: .int 0 :: v :: s) fx).exec env (.plain .appLocalGetEx) =
      fx.getLocal env v key >>= fun found => do
        return ready a cost (← s.pushLookup found) fx := by
  show ((env.account v >>= _) >>= _) = (env.account v >>= _) >>= _
  cases env.account v <;> rfl

theorem exec_localPut (key : Bytes) (v w : Value) :
    (ready a cost (w :: .bytes key :: v :: s) fx).exec env (.plain .appLocalPut) =
      fx.putLocal env v key w >>= fun fx' => .ok (ready a cost s fx') := by
  show (ready a cost (w :: .bytes key :: v :: s) fx).localPut env = _
  unfold localPut Effects.putLocal popAccount
  dsimp only [ready, Stack.pop, Stack.popBytes, bind, Except.bind, view, Effects.view]
  cases env.account v with
  | error e => rfl
  | ok x =>
    dsimp only [pure, Except.pure]
    cases env.mayHoldLocal x with
    | false => rfl
    | true => cases View.putLocal ⟨env.state, fx.pending⟩ x key w <;> rfl

theorem exec_bnz (n : UInt64) {t : Nat} (ht : t ≤ env.program.size) :
    (ready a cost (.int n :: s) fx).exec env ⟨.bnz, .target t⟩ =
      .ok (ready (if n != 0 then t else a) cost s fx) := by
  have hj : jumpTarget env ⟨.bnz, .target t⟩ = .ok t := if_pos ht
  show (jumpTarget env ⟨.bnz, .target t⟩ >>= _) = _
  rw [hj]
  rfl

theorem exec_jump {t : Nat} (ht : t ≤ env.program.size) :
    (ready a cost s fx).exec env ⟨.jump, .target t⟩ = .ok (ready t cost s fx) := by
  have hj : jumpTarget env ⟨.jump, .target t⟩ = .ok t := if_pos ht
  show (jumpTarget env ⟨.jump, .target t⟩ >>= _) = _
  rw [hj]
  rfl

end Machine

end ContractBench
