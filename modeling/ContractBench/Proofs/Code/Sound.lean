import ContractBench.Proofs.Code.Correct
import ContractBench.Proofs.Expr.Typed
/-!
# Compiled programs are type sound

Over a state that agrees with the types a tree declares for its keys, the program of the tree never
fails for a reason that types exclude, and what it writes leaves any such state as it was, one that
agrees:

    Built root → root.KeysAgree → env.state.Agrees root.keyUses →
      Typed root.keyUses (Yields root.keyUses root) (root.eval env {})        (typed_eval_of_built)
-/

namespace ContractBench

namespace Expr

/-! ## Lemmas -/

variable {root : Expr} {env : Environment}

theorem typed_eval_of_built (hb : Built root) (ha : root.KeysAgree)
    (hs : env.state.Agrees root.keyUses) :
    Typed root.keyUses (Yields root.keyUses root) (root.eval env {}) :=
  keepsTypes_of_built hs hb (declared_keyUses ha) {} Delta.agrees_empty

/-- What a tree that terminates comes to: a failure that types do not exclude, or a verdict whose
writes are of the declared types. -/
theorem checked_evaluate {types : KeyTypes} (ht : root.terminates = true)
    (h : Typed types (Yields types root) (root.eval env {})) :
    Checked (fun verdict : Verdict => verdict.delta.Agrees types) (root.evaluate env) := by
  unfold evaluate
  generalize root.eval env {} = r at h
  cases h with
  | ok hy => exact Bool.noConfusion (ht.symm.trans hy.goesOn)
  | fault he => exact .error he
  | @verdict b fx hd =>
    cases b with
    | true => exact .ok hd
    | false => exact .ok Delta.agrees_empty

/-- A run that comes to what its tree means fails or succeeds as the tree does. -/
theorem checked_run {types : KeyTypes} (hr : RunsAs root env)
    (h : Checked (fun verdict : Verdict => verdict.delta.Agrees types) (root.evaluate env)) :
    Checked (fun r : ExecutionResult => r.delta.Agrees types) env.run.1 := by
  rcases hr with ⟨he, -⟩ | ⟨he, -⟩ | ⟨he, -⟩
  · cases hrun : env.run.1 with
    | ok r =>
      rw [← he, hrun] at h
      cases h with
      | ok hd => exact .ok hd
    | error e =>
      rw [← he, hrun] at h
      cases h with
      | error hf => exact .error hf
  · rw [he]
    exact .error rfl
  · rw [he]
    exact .error rfl

/-! ## Top theorems -/

/-- Whatever compiles is type sound: in every environment whose state agrees with the declared
types, a run never fails with a fault that types exclude, and its writes keep every state that
agrees so. -/
theorem sound_of_compile {v : UInt8} {name : String} {l : Listing} (hb : Built root)
    (hc : root.compile v name = .ok l) :
    ∃ program, assemble l.text = .ok program ∧
      ∀ env : Environment, env.program = program → env.state.Agrees root.keyUses →
        (∀ e, env.run.1 = .error e → e.illTyped = false) ∧
          ∀ r, env.run.1 = .ok r →
            ∀ s : AppState, s.Agrees root.keyUses → (s.commit r.delta).Agrees root.keyUses := by
  obtain ⟨-, ha, ht, -, -⟩ := (compile_eq_ok_iff hb).1 hc
  obtain ⟨rfl, hasm⟩ := assemble_of_compile hb hc
  refine ⟨_, hasm, fun env hp hs => ?_⟩
  have htyped := typed_eval_of_built hb ha hs
  have h := checked_run (runsAs_linked hb ht hp) (checked_evaluate ht htyped)
  constructor
  · intro e he
    rw [he] at h
    cases h with
    | error hf => exact hf
  · intro r hr s hagrees
    rw [hr] at h
    cases h with
    | ok hd => exact AppState.agrees_commit hagrees hd

/-! ### A counter at work -/

/-- State in which the counter stands at a number. -/
def counterAt (n : UInt64) : AppState where
  globals := .ofList [([110], .int n)]

/-- A call of the counter over such a state. -/
def counting (n : UInt64) : Environment where
  program := (counter.listing 2 "approval").linked
  group := .single (.appCall .zero 1 .noOp)
  index := 0
  index_lt := Nat.zero_lt_one
  state := counterAt n
  context := {}

theorem agrees_counterAt (n : UInt64) : (counterAt n).Agrees counter.keyUses where
  globals := by
    have hadmits : KeyTypes.Admits counter.keyUses .global [110] (.int n) := by
      intro t ht
      cases t with
      | int => rfl
      | bytes => exact absurd ht (by decide)
    exact SortedMap.all_empty.insert hadmits
  locals := SortedMap.all_empty

/-- The counter goes from 5 to 6, which leaves an integer under its key. It cannot go on from the
greatest word, but that is no matter of types. -/
theorem sound_of_compile_counter :
    assemble (counter.listing 2 "approval").text = .ok (counting 5).program ∧
    (counting 5).run = (.ok ⟨true, 8, [], { globals := .ofList [([110], .int 6)] }⟩, 8) ∧
      ((counterAt 5).commit { globals := .ofList [([110], .int 6)] }).Agrees counter.keyUses ∧
    (counting 18446744073709551615).run.1 = .error .integerOverflow ∧
      Fault.illTyped .integerOverflow = false := by
  have hc : counter.compile 2 "approval" = .ok (counter.listing 2 "approval") := rfl
  obtain ⟨program, ha, h⟩ := sound_of_compile built_counter hc
  cases (assemble_of_compile built_counter hc).2.symm.trans ha
  have hruns : (counting 5).run = (.ok ⟨true, 8, [], { globals := .ofList [([110], .int 6)] }⟩, 8) :=
    rfl
  have hfails : (counting 18446744073709551615).run.1 = .error .integerOverflow := rfl
  refine ⟨ha, hruns, ?_, hfails, ?_⟩
  · exact (h (counting 5) rfl (agrees_counterAt 5)).2 _ (by rw [hruns]) _ (agrees_counterAt 5)
  · exact (h (counting 18446744073709551615) rfl (agrees_counterAt _)).1 _ hfails

end Expr

end ContractBench
