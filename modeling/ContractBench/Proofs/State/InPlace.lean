import ContractBench.Proofs.State.Commit
/-!
# The view against a store changed in place

A view collects its writes beside the state it reads; a plain copy of the state takes them at once.
The plain put needs no more than the store it goes to: it looks the key up and counts the keys that
are there. As long as the view has overwritten no key with the other type, the two agree on every
answer, and committing the view gives the copy:

    v.globalCount t = v.committed.globals.count t                       (globalCount_eq)
    (v.putGlobal k x).map committed = v.committed.putInGlobals k x      (map_committed_putGlobal)
    (v.putLocal a k x).map committed = v.committed.putInLocals a k x    (map_committed_putLocal)
-/

namespace ContractBench

open Std Success

/-! ## Algorithm -/

/-- A value put into a store: refused if the key holds a value of the other type, or if it is new
and the store holds as many keys of the type as it may. -/
def KeyValues.put (store : KeyValues) (schema : Schema) (key : Bytes) (value : Value) :
    Except StateError KeyValues :=
  match store.get? key with
  | some old =>
    if old.type = value.type then .ok (store.insert key value)
    else .error (.schemaViolation key old.type value.type)
  | none =>
    if store.count value.type < (schema.capacity value.type).toNat then
      .ok (store.insert key value)
    else .error (.schemaFull value.type (schema.capacity value.type))

namespace AppState

/-- A value put into the global store. -/
def putInGlobals (s : AppState) (key : Bytes) (value : Value) : Except StateError AppState := do
  return { s with globals := ← s.globals.put s.globalSchema key value }

/-- A value put into the local store of an account, which gets one if it has none. -/
def putInLocals (s : AppState) (account : Address) (key : Bytes) (value : Value) :
    Except StateError AppState := do
  let store ← (storeOf s.locals account).put s.localSchema key value
  return { s with locals := s.locals.insert account store }

end AppState

/-- A read or a write of one key. -/
inductive Access where
  | getGlobal (key : Bytes)
  | putGlobal (key : Bytes) (value : Value)
  | getLocal (account : Address) (key : Bytes)
  | putLocal (account : Address) (key : Bytes) (value : Value)

/-- What is answered: the value found, or whether the value was put. -/
inductive Answer where
  | found (value : Option Value)
  | put (result : Except StateError Unit)

namespace Access

variable {σ τ : Type}

/-- The answer to a put, and the state behind it; a put that fails leaves the state. -/
def answerPut (s : σ) : Except StateError σ → Answer × σ
  | .ok s' => (.put (.ok ()), s')
  | .error e => (.put (.error e), s)

/-- An access through a view. -/
def inView (v : View) : Access → Answer × View
  | .getGlobal key => (.found (v.getGlobal? key), v)
  | .putGlobal key value => answerPut v (v.putGlobal key value)
  | .getLocal account key => (.found (v.getLocal? account key), v)
  | .putLocal account key value => answerPut v (v.putLocal account key value)

/-- An access to a plain copy of the state. -/
def inPlace (s : AppState) : Access → Answer × AppState
  | .getGlobal key => (.found (s.globals.get? key), s)
  | .putGlobal key value => answerPut s (s.putInGlobals key value)
  | .getLocal account key => (.found (s.localValue? account key), s)
  | .putLocal account key value => answerPut s (s.putInLocals account key value)

/-- The answers to accesses one after the other, and the state behind them. -/
def run (step : σ → Access → Answer × σ) (s : σ) : List Access → List Answer × σ
  | [] => ([], s)
  | x :: rest => ((step s x).1 :: (run step (step s x).2 rest).1, (run step (step s x).2 rest).2)

end Access

namespace View

/-- What committing the view would leave. -/
def committed (v : View) : AppState := v.base.commit v.pending

/-- Every write over a committed key has the type of the value below. -/
structure KeepsTypes (v : View) : Prop where
  globals : ∀ key x old, v.pending.globals.get? key = some x →
    v.base.globals.get? key = some old → old.type = x.type
  locals : ∀ a key x old, v.pending.locals.get? ⟨a, key⟩ = some x →
    v.base.localValue? a key = some old → old.type = x.type

/-! ## Lemmas -/

variable {v v' : View}

theorem getGlobal?_eq (v : View) (key : Bytes) :
    v.getGlobal? key = v.committed.globals.get? key :=
  (AppState.get?_globals_commit v.base v.pending key).symm

theorem getLocal?_eq (v : View) (a : Address) (key : Bytes) :
    v.getLocal? a key = v.committed.localValue? a key :=
  (AppState.localValue?_commit v.base v.pending a key).symm

theorem keepsTypes_start (base : AppState) : (View.mk base {}).KeepsTypes :=
  ⟨fun _ _ _ h => (nomatch h), fun _ _ _ _ h => (nomatch h)⟩

/-! ### Room -/

/-- The room a view counts is the room in the committed store. -/
theorem globalCount_eq (h : v.KeepsTypes) (t : ValueType) :
    v.globalCount t = v.committed.globals.count t := by
  refine (KeyValues.count_insertAll v.pending.globals.increasing v.base.globals ?_ t).symm
  intro e he old hold
  exact h.globals e.1 e.2 old ((SortedMap.mem_entries_iff _ _ _).1 he) hold

theorem localCount_eq (h : v.KeepsTypes) (a : Address) (t : ValueType) :
    v.localCount a t = (storeOf v.committed.locals a).count t := by
  rw [committed, AppState.storeOf_commit, KeyValues.count_insertAll (v.pending.writesTo_increasing a)]
  · unfold localCount Delta.writesTo
    rw [List.countP_map, List.countP_filter]
    refine congrArg _ (List.countP_congr fun e _ => ?_)
    rw [AppState.localValue?_eq_get?]
    cases hget : (storeOf v.base.locals a).get? e.1.key <;>
      simp [SortedMap.contains_eq_isSome, hget, Bool.and_comm]
  · intro e he old hold
    rw [← AppState.localValue?_eq_get?] at hold
    exact h.locals a e.1 e.2 old (Delta.mem_writesTo.1 he) hold

/-! ### Puts -/

/-- The plain put checks what the put through a view checks. -/
theorem put_eq_checkPut (store : KeyValues) (schema : Schema) (key : Bytes) (x : Value) :
    store.put schema key x =
      (checkPut key (store.get? key) x (store.count x.type) (schema.capacity x.type)).map
        fun _ => store.insert key x := by
  unfold KeyValues.put checkPut
  cases store.get? key with
  | some old =>
    dsimp only
    split <;> rfl
  | none =>
    dsimp only
    by_cases h : store.count x.type < (schema.capacity x.type).toNat
    · rw [if_pos h, if_neg (Nat.not_le.2 h)]
      rfl
    · rw [if_neg h, if_pos (Nat.not_lt.1 h)]
      rfl

/-- Putting and committing commute, for global keys. -/
theorem map_committed_putGlobal (h : v.KeepsTypes) (key : Bytes) (x : Value) :
    (v.putGlobal key x).map committed = v.committed.putInGlobals key x := by
  unfold putGlobal AppState.putInGlobals
  rw [put_eq_checkPut, getGlobal?_eq, globalCount_eq h]
  show _ = (Except.map _ (checkPut key _ x _ (v.base.globalSchema.capacity x.type))) >>= _
  cases checkPut key (v.committed.globals.get? key) x (v.committed.globals.count x.type)
      (v.base.globalSchema.capacity x.type) with
  | error e => rfl
  | ok _ => exact congrArg Except.ok (AppState.commit_insertGlobal v.base v.pending key x)

/-- Putting and committing commute, for local keys. -/
theorem map_committed_putLocal (h : v.KeepsTypes) (a : Address) (key : Bytes) (x : Value) :
    (v.putLocal a key x).map committed = v.committed.putInLocals a key x := by
  unfold putLocal AppState.putInLocals
  rw [put_eq_checkPut, getLocal?_eq, AppState.localValue?_eq_get?, localCount_eq h]
  show _ = (Except.map _ (checkPut key _ x _ (v.base.localSchema.capacity x.type))) >>= _
  cases checkPut key ((storeOf v.committed.locals a).get? key) x
      ((storeOf v.committed.locals a).count x.type) (v.base.localSchema.capacity x.type) with
  | error e => rfl
  | ok _ => exact congrArg Except.ok (AppState.commit_insertLocal v.base v.pending ⟨a, key⟩ x)

/-- A put through a view succeeds over a value of its type only, so that if the pending value has
the type of the one below, so has the value put. -/
theorem type_of_checkPut {key : Bytes} {pending below : Option Value} {x old : Value} {used : Nat}
    {limit : UInt64} (h : checkPut key (pending.or below) x used limit = .ok ())
    (hp : ∀ y, pending = some y → old.type = y.type) (hold : below = some old) :
    old.type = x.type := by
  have hstored : ∀ y, pending.or below = some y → y.type = x.type := by
    intro y hy
    rw [hy] at h
    unfold checkPut at h
    dsimp only at h
    split at h
    · assumption
    · cases h
  cases pending with
  | none => exact hstored old hold
  | some y => exact (hp y rfl).trans (hstored y rfl)

theorem keepsTypes_putGlobal (hv : v.KeepsTypes) {key : Bytes} {x : Value}
    (h : v.putGlobal key x = .ok v') : v'.KeepsTypes := by
  obtain ⟨_, hcheck, -⟩ := bind_eq_ok.1 h
  obtain ⟨hbase, hlocals, hglobals⟩ := putGlobal_eq h
  constructor
  · intro key' x' old hget hold
    rw [hglobals] at hget
    rw [hbase] at hold
    by_cases hk : key' = key
    · subst hk
      rw [SortedMap.get?_insert_self] at hget
      cases hget
      exact type_of_checkPut hcheck (fun y hy => hv.globals key' y old hy hold) hold
    · rw [SortedMap.get?_insert_of_ne _ _ hk] at hget
      exact hv.globals key' x' old hget hold
  · rw [hlocals, hbase]
    exact hv.locals

theorem keepsTypes_putLocal (hv : v.KeepsTypes) {a : Address} {key : Bytes} {x : Value}
    (h : v.putLocal a key x = .ok v') : v'.KeepsTypes := by
  obtain ⟨_, hcheck, -⟩ := bind_eq_ok.1 h
  obtain ⟨hbase, hglobals, hlocals⟩ := putLocal_eq h
  constructor
  · rw [hglobals, hbase]
    exact hv.globals
  · intro a' key' x' old hget hold
    rw [hlocals] at hget
    rw [hbase] at hold
    by_cases hk : (⟨a', key'⟩ : LocalKey) = ⟨a, key⟩
    · cases hk
      rw [SortedMap.get?_insert_self] at hget
      cases hget
      exact type_of_checkPut hcheck (fun y hy => hv.locals a key y old hy hold) hold
    · rw [SortedMap.get?_insert_of_ne _ _ hk] at hget
      exact hv.locals a' key' x' old hget hold

end View

namespace Access

open View

variable {v : View}

/-! ### One access -/

theorem answerPut_map {σ τ : Type} (f : σ → τ) (s : σ) (r : Except StateError σ) :
    answerPut (f s) (r.map f) = ((answerPut s r).1, f (answerPut s r).2) := by
  cases r <;> rfl

/-- An access to the committed view is the access through the view, committed. -/
theorem inPlace_committed (h : v.KeepsTypes) (op : Access) :
    inPlace v.committed op = ((inView v op).1, (inView v op).2.committed) := by
  cases op with
  | getGlobal key => rw [inPlace, ← getGlobal?_eq, inView]
  | getLocal a key => rw [inPlace, ← getLocal?_eq, inView]
  | putGlobal key x => rw [inPlace, ← map_committed_putGlobal h, answerPut_map, inView]
  | putLocal a key x => rw [inPlace, ← map_committed_putLocal h, answerPut_map, inView]

/-- What holds of a state and of what a put makes of it holds behind the put. -/
theorem answerPut_keeps {σ : Type} {P : σ → Prop} {s : σ} {r : Except StateError σ} (hs : P s)
    (hr : ∀ s', r = .ok s' → P s') : P (answerPut s r).2 := by
  cases r with
  | ok s' => exact hr s' rfl
  | error e => exact hs

/-- An access through a view keeps the types below and does not touch what is there. -/
theorem keepsTypes_inView (h : v.KeepsTypes) (op : Access) :
    (inView v op).2.KeepsTypes ∧ (inView v op).2.base = v.base := by
  have hv : v.KeepsTypes ∧ v.base = v.base := ⟨h, rfl⟩
  cases op with
  | getGlobal | getLocal => exact hv
  | putGlobal key x =>
    exact answerPut_keeps (P := fun w => w.KeepsTypes ∧ w.base = v.base) hv fun v' hput =>
      ⟨keepsTypes_putGlobal h hput, (putGlobal_eq hput).1⟩
  | putLocal a key x =>
    exact answerPut_keeps (P := fun w => w.KeepsTypes ∧ w.base = v.base) hv fun v' hput =>
      ⟨keepsTypes_putLocal h hput, (putLocal_eq hput).1⟩

/-- A put that is refused changes nothing. -/
theorem answerPut_of_error {σ : Type} {s : σ} {r : Except StateError σ} {e : StateError}
    (h : (answerPut s r).1 = .put (.error e)) : (answerPut s r).2 = s := by
  cases r with
  | ok s' => cases h
  | error e' => rfl

theorem inView_of_error {op : Access} {e : StateError} (h : (inView v op).1 = .put (.error e)) :
    (inView v op).2 = v := by
  cases op with
  | getGlobal | getLocal => rfl
  | putGlobal | putLocal => exact answerPut_of_error h

theorem inPlace_of_error {s : AppState} {op : Access} {e : StateError}
    (h : (inPlace s op).1 = .put (.error e)) : (inPlace s op).2 = s := by
  cases op with
  | getGlobal | getLocal => rfl
  | putGlobal | putLocal => exact answerPut_of_error h

/-! ### Accesses one after the other -/

theorem run_cons {σ : Type} (step : σ → Access → Answer × σ) (s : σ) (op : Access)
    (ops : List Access) :
    run step s (op :: ops) =
      ((step s op).1 :: (run step (step s op).2 ops).1, (run step (step s op).2 ops).2) := rfl

theorem run_inPlace_committed (h : v.KeepsTypes) (ops : List Access) :
    run inPlace v.committed ops = ((run inView v ops).1, (run inView v ops).2.committed) ∧
      (run inView v ops).2.base = v.base := by
  induction ops generalizing v with
  | nil => exact ⟨rfl, rfl⟩
  | cons op rest ih =>
    obtain ⟨hkeeps, hbase⟩ := keepsTypes_inView h op
    obtain ⟨hrun, hrest⟩ := ih hkeeps
    rw [run_cons, run_cons, inPlace_committed h, hrun]
    exact ⟨rfl, hrest.trans hbase⟩

/-! ## Top theorem -/

/-- Whatever the committed state holds, a view laid over it and a plain copy of it give the same
answers to the same accesses. The state below stays, a refused put changes neither, and committing
what the view collected gives the copy. -/
theorem view_answers_as_copy (base : AppState) (ops : List Access) :
    (run inView ⟨base, {}⟩ ops).1 = (run inPlace base ops).1 ∧
    (run inView ⟨base, {}⟩ ops).2.base = base ∧
    base.commit (run inView ⟨base, {}⟩ ops).2.pending = (run inPlace base ops).2 ∧
    ∀ op e,
      ((inView (run inView ⟨base, {}⟩ ops).2 op).1 = .put (.error e) →
        (inView (run inView ⟨base, {}⟩ ops).2 op).2 = (run inView ⟨base, {}⟩ ops).2) ∧
      ((inPlace (run inPlace base ops).2 op).1 = .put (.error e) →
        (inPlace (run inPlace base ops).2 op).2 = (run inPlace base ops).2) := by
  obtain ⟨hrun, hbase⟩ := run_inPlace_committed (keepsTypes_start base) ops
  have hrun : run inPlace base ops =
      ((run inView ⟨base, {}⟩ ops).1, (run inView ⟨base, {}⟩ ops).2.committed) := hrun
  refine ⟨by rw [hrun], hbase, ?_, fun op e => ⟨inView_of_error, inPlace_of_error⟩⟩
  rw [hrun, committed, hbase]

end Access

end ContractBench
