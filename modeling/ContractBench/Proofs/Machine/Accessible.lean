import ContractBench.Machine.Run
import ContractBench.Proofs.Machine.Step
/-!
# What a program sees of state

A program sees the global store, the schemas and the local stores of the accounts its transaction
gives it access to. Over two states that agree on these, each instruction does the same to a
machine, or fails with the same fault, and so the runs are the same:

    env.state.SameTo env.current.accessibleAccounts s → m.exec (env.over s) i = m.exec env i
                                                                                     (exec_over)
    env.state.SameTo env.current.accessibleAccounts s → runFor (env.over s) n m = runFor env n m
                                                                                   (runFor_over)
-/

namespace ContractBench

open Success

/-! ## Algorithm -/

/-- Two states look the same to whoever sees the local stores of some accounts only. -/
structure AppState.SameTo (accounts : List Address) (s s' : AppState) : Prop where
  globalSchema : s'.globalSchema = s.globalSchema
  localSchema : s'.localSchema = s.localSchema
  globals : s'.globals = s.globals
  /-- The accounts have equal local stores, or none. -/
  locals : ∀ a ∈ accounts, s'.locals.get? a = s.locals.get? a

/-- The same environment over another state. -/
def Environment.over (env : Environment) (s : AppState) : Environment := { env with state := s }

/-! ## Lemmas -/

/-! ### Views -/

namespace View

variable {accounts : List Address} {s s' : AppState} (h : s.SameTo accounts s') (d : Delta)
  (key : Bytes) (x : Value) {a : Address} (ha : a ∈ accounts)

include h

theorem getGlobal?_of_same : (View.mk s' d).getGlobal? key = (View.mk s d).getGlobal? key := by
  show (d.globals.get? key).or (s'.globals.get? key) = (d.globals.get? key).or (s.globals.get? key)
  rw [h.globals]

theorem map_putGlobal_of_same :
    ((View.mk s' d).putGlobal key x).map (·.pending) =
      ((View.mk s d).putGlobal key x).map (·.pending) := by
  have hcount : (View.mk s' d).globalCount x.type = (View.mk s d).globalCount x.type := by
    unfold globalCount
    dsimp only
    rw [h.globals]
  unfold putGlobal
  rw [getGlobal?_of_same h, hcount, h.globalSchema]
  cases checkPut key ((View.mk s d).getGlobal? key) x ((View.mk s d).globalCount x.type)
    (s.globalSchema.capacity x.type) <;> rfl

include ha

theorem localValue?_of_same : s'.localValue? a key = s.localValue? a key := by
  unfold AppState.localValue?
  rw [h.locals a ha]

theorem getLocal?_of_same : (View.mk s' d).getLocal? a key = (View.mk s d).getLocal? a key := by
  show (d.locals.get? ⟨a, key⟩).or (s'.localValue? a key) =
    (d.locals.get? ⟨a, key⟩).or (s.localValue? a key)
  rw [localValue?_of_same h key ha]

/-- The keys in use are counted in the store of one account. -/
theorem localCount_of_same (t : ValueType) :
    (View.mk s' d).localCount a t = (View.mk s d).localCount a t := by
  unfold localCount
  dsimp only
  rw [h.locals a ha]
  congr 2
  funext e
  rw [localValue?_of_same h e.1.key ha]

theorem map_putLocal_of_same :
    ((View.mk s' d).putLocal a key x).map (·.pending) =
      ((View.mk s d).putLocal a key x).map (·.pending) := by
  unfold putLocal
  rw [getLocal?_of_same h d key ha, localCount_of_same h d ha, h.localSchema]
  cases checkPut key ((View.mk s d).getLocal? a key) x ((View.mk s d).localCount a x.type)
    (s.localSchema.capacity x.type) <;> rfl

end View

/-! ### Instructions -/

namespace Machine

/-- What a put leaves of a machine depends on its writes, or its error, alone. -/
theorem written_eq_of_map (m : Machine) (stack : Stack) (r r' : Except StateError View) :
    r.map (·.pending) = r'.map (·.pending) →
      (match r with
        | .ok v => pure { m with stack := stack, pending := v.pending }
        | .error e => throw (.state e) : Except Fault Machine) =
      (match r' with
        | .ok v => pure { m with stack := stack, pending := v.pending }
        | .error e => throw (.state e)) := by
  intro h
  cases r with
  | ok v =>
    cases r' with
    | ok v' =>
      have hpending : v.pending = v'.pending := Except.ok.inj h
      dsimp only
      rw [hpending]
    | error e => cases h
  | error e =>
    cases r' with
    | ok v' => cases h
    | error e' =>
      cases h
      rfl

variable {env : Environment} {s : AppState}
  (h : env.state.SameTo env.current.accessibleAccounts s) (m : Machine)

include h

theorem mayHoldLocal_over {a : Address} (ha : a ∈ env.current.accessibleAccounts) :
    (env.over s).mayHoldLocal a = env.mayHoldLocal a := by
  have hopted : s.isOptedIn a = env.state.isOptedIn a := congrArg Option.isSome (h.locals a ha)
  show (_ || s.isOptedIn a) = (_ || env.state.isOptedIn a)
  rw [hopted]
  rfl

theorem getGlobal?_over (key : Bytes) :
    (m.view (env.over s)).getGlobal? key = (m.view env).getGlobal? key :=
  View.getGlobal?_of_same h m.pending key

theorem globalGet_over : m.globalGet (env.over s) = m.globalGet env := by
  unfold globalGet
  simp only [getGlobal?_over h]

theorem globalGetEx_over : m.globalGetEx (env.over s) = m.globalGetEx env := by
  unfold globalGetEx
  simp only [getGlobal?_over h]
  rfl

theorem globalPut_over : m.globalPut (env.over s) = m.globalPut env := by
  refine bind_congr fun ⟨value, stack⟩ => bind_congr fun ⟨key, stack⟩ => ?_
  exact written_eq_of_map m stack _ _ (View.map_putGlobal_of_same h m.pending key value)

theorem localGet_over : m.localGet (env.over s) = m.localGet env := by
  refine bind_congr fun ⟨key, stack⟩ => bind_congr_of_ok fun ⟨a, stack⟩ haccount => ?_
  have hget : (m.view (env.over s)).getLocal? a key = (m.view env).getLocal? a key :=
    View.getLocal?_of_same h m.pending key (mem_of_popAccount haccount)
  dsimp only
  rw [hget]

theorem localGetEx_over : m.localGetEx (env.over s) = m.localGetEx env := by
  refine bind_congr fun ⟨key, stack⟩ => bind_congr fun ⟨app, stack⟩ =>
    bind_congr_of_ok fun ⟨a, stack⟩ haccount => ?_
  have hget : (m.view (env.over s)).getLocal? a key = (m.view env).getLocal? a key :=
    View.getLocal?_of_same h m.pending key (mem_of_popAccount haccount)
  dsimp only
  rw [hget]
  rfl

theorem localPut_over : m.localPut (env.over s) = m.localPut env := by
  refine bind_congr fun ⟨value, stack⟩ => bind_congr fun ⟨key, stack⟩ =>
    bind_congr_of_ok fun ⟨a, stack⟩ haccount => ?_
  have ha := mem_of_popAccount haccount
  dsimp only
  rw [mayHoldLocal_over h ha]
  cases env.mayHoldLocal a with
  | false => rfl
  | true => exact written_eq_of_map m stack _ _ (View.map_putLocal_of_same h m.pending key value ha)

/-- One instruction does the same over states that look the same to the program. -/
theorem exec_over (i : Instruction) : m.exec (env.over s) i = m.exec env i := by
  unfold exec
  cases i.op with
  | appGlobalGet => exact globalGet_over h m
  | appGlobalGetEx => exact globalGetEx_over h m
  | appGlobalPut => exact globalPut_over h m
  | appLocalGet => exact localGet_over h m
  | appLocalGetEx => exact localGetEx_over h m
  | appLocalPut => exact localPut_over h m
  -- no other instruction looks at state
  | _ => rfl

/-- Runs over states that look the same to the program stay together. -/
theorem runFor_over (left : Nat) : runFor (env.over s) left m = runFor env left m := by
  induction left generalizing m with
  | zero => rfl
  | succ left ih =>
    rw [runFor, runFor, show m.next? (env.over s) = m.next? env from rfl]
    cases m.next? env with
    | none => rfl
    | some i =>
      dsimp only
      rw [exec_over h]
      cases m.advance.exec env i with
      | ok m' => exact ih m'
      | error e => rfl

end Machine

/-! ## A teller -/

/-- A program that counts in the local store of the sender, called by the zero account that opted
in. -/
def teller : Environment where
  program := ⟨2, [.int 0, .bytes (utf8 "n"), .int 0, .bytes (utf8 "n"), .plain .appLocalGet, .int 1,
    .plain (.binary .add), .plain .appLocalPut, .int 1, .plain .ret]⟩
  group := .single (.appCall .zero 1 .noOp)
  index := 0
  index_lt := by decide
  state := ({} : AppState).optIn .zero
  context := {}

/-- An account the teller's call gives no access to. -/
def stranger : Address := ⟨List.replicate 32 1, rfl⟩

/-- The state of the teller when the stranger opted in as well and has counted to 9. -/
def stateWithStranger : AppState :=
  (teller.state.optIn stranger).commit { locals := .ofList [(⟨stranger, utf8 "n"⟩, .int 9)] }

/-! ## Top theorem -/

/-- A run does not depend on what a program has no access to. Over any other state with the same
schemas, the same global store and the same local stores, or none, for the accounts its transaction
gives access to, it comes to the same verdict with the same logs and writes, or to the same fault,
and costs the same. -/
theorem Environment.run_ignores_inaccessible (env : Environment) (s : AppState)
    (h : env.state.SameTo env.current.accessibleAccounts s) : (env.over s).run = env.run := by
  unfold run
  rw [Machine.runFor_over h]
  rfl

/-- The teller counts to 1 whether the stranger counted to 9 or has no local store. -/
theorem run_ignores_inaccessible_teller : stateWithStranger ≠ teller.state ∧
    (teller.over stateWithStranger).run = teller.run ∧
    teller.run = (.ok ⟨true, 10, [], { locals := .ofList [(⟨.zero, utf8 "n"⟩, .int 1)] }⟩, 10) := by
  refine ⟨by decide, teller.run_ignores_inaccessible stateWithStranger ⟨rfl, rfl, rfl, ?_⟩, rfl⟩
  intro a ha
  cases List.mem_singleton.1 ha
  rfl

end ContractBench
