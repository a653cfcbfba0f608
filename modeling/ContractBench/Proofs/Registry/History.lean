import ContractBench.Registry
/-!
# Histories

A registry is worked on by operations, one after the other: creations, calls, changes to what the
ledger tells the next run, and questions. A history is the operations with their answers.

    history r (ops ++ ops') = history r ops ++ history (after r ops) ops'     (history_append)
-/

namespace ContractBench

namespace Registry

/-- What a registry can be asked to do. -/
inductive Operation where
  | create (program : CompiledProgram) (globalSchema localSchema : Schema) (group : Group)
      (index : Nat)
  | call (group : Group) (index : Nat)
  | setRound (round : UInt64)
  | setTimestamp (timestamp : UInt64)
  | setBudget (budget : UInt64)
  | getRound
  | get (appId : UInt64)
  | list
  | count

/-- What it answers. -/
inductive Response where
  | outcome (result : Except AppError CallOutcome)
  | done
  | round (round : UInt64)
  | app (found : Option Application)
  | ids (ids : List UInt64)
  | count (count : Nat)

/-- The answer to an operation, and the registry afterwards. -/
def Operation.apply (r : Registry) : Operation → Response × Registry
  | .create program globalSchema localSchema group index =>
    let (result, r) := r.create program globalSchema localSchema group index
    (.outcome result, r)
  | .call group index =>
    let (result, r) := r.call group index
    (.outcome result, r)
  | .setRound round => (.done, { r with round := round })
  | .setTimestamp timestamp => (.done, { r with latestTimestamp := timestamp })
  | .setBudget budget => (.done, { r with costBudget := budget })
  | .getRound => (.round r.round, r)
  | .get appId => (.app (r.apps.get? appId), r)
  | .list => (.ids r.apps.keys, r)
  | .count => (.count r.apps.size, r)

/-- Operations with their answers. -/
def history (r : Registry) : List Operation → List (Operation × Response)
  | [] => []
  | op :: rest => (op, (op.apply r).1) :: history (op.apply r).2 rest

/-- The registry behind all operations. -/
def after (r : Registry) (ops : List Operation) : Registry :=
  ops.foldl (fun r op => (op.apply r).2) r

/-! ## Lemmas -/

variable (r : Registry) (op : Operation) (ops ops' : List Operation)

@[simp] theorem history_nil : r.history [] = [] := rfl

@[simp] theorem history_cons :
    r.history (op :: ops) = (op, (op.apply r).1) :: (op.apply r).2.history ops := rfl

@[simp] theorem after_nil : r.after [] = r := rfl

@[simp] theorem after_cons : r.after (op :: ops) = (op.apply r).2.after ops := rfl

@[simp] theorem after_append : r.after (ops ++ ops') = (r.after ops).after ops' :=
  List.foldl_append

theorem history_append :
    r.history (ops ++ ops') = r.history ops ++ (r.after ops).history ops' := by
  induction ops generalizing r with
  | nil => rfl
  | cons op ops ih => rw [List.cons_append, history_cons, history_cons, after_cons, ih,
      List.cons_append]

end Registry

end ContractBench
