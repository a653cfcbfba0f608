import ContractBench.Proofs.Registry.Ids
/-!
# What applications store

Puts are checked when they are made, against a view; the deltas they collect are committed without
any check. Still, whatever a registry is asked to do, stores stay within their schemas, and a key
stays, with a value of its type, as long as the store does:

    r.WithinSchemas → (r.after ops).WithinSchemas                             (withinSchemas_after)
    old.Called sender action approved new → old.globals.KeptBy new.globals   (Called.keptBy_globals)
-/

namespace ContractBench

/-! ## Algorithm -/

namespace Registry

/-- In no application a store holds more keys of a type than its schema says. -/
def WithinSchemas (r : Registry) : Prop :=
  ∀ appId app, r.apps.get? appId = some app → app.state.WithinSchemas

/-- Whether an operation takes the local store of an account in an application away: a call by the
account that clears state, or an approved one that closes out. -/
def Operation.removes (appId : UInt64) (a : Address) : Operation → Response → Bool
  | .call group index, .outcome (.ok outcome) =>
    match callAt group index with
    | .ok (sender, id, action) =>
      id == appId && sender == a &&
        (action == .clearState || action == .closeOut && outcome.approved)
    | .error _ => false
  | _, _ => false

end Registry

/-! ## Lemmas -/

namespace AppState

variable {s s' : AppState} {sender : Address} {action : OnComplete} {approved : Bool}

/-! ### Schemas -/

theorem withinSchemas_fresh (globalSchema localSchema : Schema) :
    (fresh globalSchema localSchema).WithinSchemas :=
  ⟨KeyValues.fits_empty _, fun _ _ h => by cases h⟩

/-- Calls keep stores within their schemas. -/
theorem Called.withinSchemas (h : s.Called sender action approved s') (hs : s.WithinSchemas) :
    s'.WithinSchemas := by
  cases h with
  | rejected => exact hs
  | noOp hd => exact hd.withinSchemas_commit hs
  | optIn hd => exact hd.withinSchemas_optIn_commit hs sender
  | closeOut hd => exact withinSchemas_closeOut (hd.withinSchemas_commit hs) sender
  | clearState hd => exact withinSchemas_closeOut (hd.withinSchemas_commit hs) sender

theorem Created.withinSchemas (h : s.Created sender action s') (hs : s.WithinSchemas) :
    s'.WithinSchemas := by
  cases h with
  | optIn hd => exact hd.withinSchemas_optIn_commit hs sender
  | other _ hd => exact hd.withinSchemas_commit hs

/-! ### Keys -/

/-- Calls keep global keys. -/
theorem Called.keptBy_globals (h : s.Called sender action approved s') :
    s.globals.KeptBy s'.globals := by
  cases h with
  | rejected => exact .refl _
  | optIn hd =>
    show s.globals.KeptBy ((s.optIn sender).globals.insertAll _)
    rw [s.globals_optIn sender]
    exact hd.keptBy_globals_commit
  | noOp hd | closeOut hd | clearState hd => exact hd.keptBy_globals_commit

/-- Calls keep the local keys of an account, other than those of a sender that leaves. -/
theorem Called.keptBy_storeOf (h : s.Called sender action approved s') {a : Address}
    (ha : ¬ (sender = a ∧ (action = .clearState ∨ action = .closeOut ∧ approved = true))) :
    (storeOf s.locals a).KeptBy (storeOf s'.locals a) := by
  -- a store of another account is not touched when the sender leaves
  have hclose : ∀ t : AppState, sender ≠ a →
      storeOf (t.closeOut sender).locals a = storeOf t.locals a := fun t hne => by
    rw [storeOf, AppState.closeOut, SortedMap.get?_erase_of_ne _ hne.symm, storeOf]
  cases h with
  | rejected => exact .refl _
  | noOp hd => exact hd.keptBy_storeOf_commit a
  | optIn hd =>
    rw [storeOf_commit, storeOf_optIn, ← storeOf_commit]
    exact hd.keptBy_storeOf_commit a
  | closeOut hd =>
    rw [hclose _ fun hs => ha ⟨hs, .inr ⟨rfl, rfl⟩⟩]
    exact hd.keptBy_storeOf_commit a
  | clearState hd =>
    rw [hclose _ fun hs => ha ⟨hs, .inl rfl⟩]
    exact hd.keptBy_storeOf_commit a

end AppState

namespace Registry

variable {r : Registry} {op : Operation} {ops : List Operation} {appId : UInt64}
  {app app' : Application}

/-! ### Schemas -/

theorem Origin.withinSchemas {response : Response} (h : Origin r appId app op response)
    (hr : r.WithinSchemas) : app.state.WithinSchemas := by
  cases h with
  | kept hold => exact hr appId app hold
  | called _ hold hcalled _ => exact hcalled.withinSchemas (hr appId _ hold)
  | created _ _ _ hcreated => exact hcreated.withinSchemas (AppState.withinSchemas_fresh _ _)

/-- Operations keep stores within their schemas. -/
theorem withinSchemas_after (h : r.WithinSchemas) (ops : List Operation) :
    (r.after ops).WithinSchemas := by
  induction ops generalizing r with
  | nil => exact h
  | cons op ops ih => exact ih fun _ _ hget => (origin_of_apply hget).withinSchemas h

/-! ### Keys -/

/-- An application that was not created on the way was there before. -/
theorem stored_of_after (h : (r.after ops).apps.get? appId = some app')
    (hid : appId ∉ r.createdIds ops) : ∃ app, r.apps.get? appId = some app := by
  induction ops generalizing r with
  | nil => exact ⟨app', h⟩
  | cons op ops ih =>
    rw [createdIds_cons, List.mem_append, not_or, Option.mem_toList] at hid
    obtain ⟨mid, hmid⟩ := ih h hid.2
    exact (origin_of_apply hmid).stored_or_created.resolve_right hid.1

/-- An application that an operation does not create keeps its keys. -/
theorem Origin.keptBy {response : Response} (h : Origin r appId app' op response)
    (hget : r.apps.get? appId = some app) (hid : op.created? response ≠ some appId) :
    app.state.globals.KeptBy app'.state.globals ∧
      ∀ a, op.removes appId a response = false →
        (storeOf app.state.locals a).KeptBy (storeOf app'.state.locals a) := by
  cases h with
  | kept hold =>
    cases hget.symm.trans hold
    exact ⟨.refl _, fun _ _ => .refl _⟩
  | called hcall hold hcalled _ =>
    cases hget.symm.trans hold
    refine ⟨hcalled.keptBy_globals, fun a ha => hcalled.keptBy_storeOf ?_⟩
    rintro ⟨rfl, hleaves⟩
    rw [Operation.removes, hcall] at ha
    rcases hleaves with rfl | ⟨rfl, happroved⟩
    · simp at ha
    · simp [happroved] at ha
  | created _ ha happ _ => exact absurd (by rw [Operation.created?, if_pos ha, happ]) hid

/-- An application that is not created on the way keeps its keys. -/
theorem keptBy_after (h : r.apps.get? appId = some app)
    (h' : (r.after ops).apps.get? appId = some app') (hid : appId ∉ r.createdIds ops) :
    app.state.globals.KeptBy app'.state.globals ∧
      ∀ a, (∀ e ∈ r.history ops, e.1.removes appId a e.2 = false) →
        (storeOf app.state.locals a).KeptBy (storeOf app'.state.locals a) := by
  induction ops generalizing r app with
  | nil =>
    cases h.symm.trans h'
    exact ⟨.refl _, fun _ _ => .refl _⟩
  | cons op ops ih =>
    rw [createdIds_cons, List.mem_append, not_or, Option.mem_toList] at hid
    rw [after_cons] at h'
    -- not created later, it must be there behind the first operation to be there at the end
    obtain ⟨mid, hmid⟩ := stored_of_after h' hid.2
    obtain ⟨hglobals, hlocals⟩ := (origin_of_apply hmid).keptBy h hid.1
    obtain ⟨hglobals', hlocals'⟩ := ih hmid h' hid.2
    refine ⟨hglobals.trans hglobals', fun a ha => ?_⟩
    rw [history_cons] at ha
    exact (hlocals a (ha _ List.mem_cons_self)).trans
      (hlocals' a fun e he => ha e (List.mem_cons_of_mem _ he))

/-! ## A tally -/

/-- Counts its runs in the global store, and notes them in the local store of the sender. -/
def tally : CompiledProgram where
  version := 2
  approval := "#pragma version 2
byte \"runs\"
byte \"runs\"
app_global_get
int 1
+
app_global_put
int 0
byte \"seen\"
int 1
app_local_put
int 1
return"
  clearState := "#pragma version 2
int 1
return"

/-- A registry where the zero account created the tally, with one place in each store, and opted
in. -/
def tallied : Registry :=
  ({} : Registry).after [.create tally ⟨1, 0⟩ ⟨1, 0⟩ (.single (.appCall .zero 0 .optIn)) 0]

/-- The tally run once more, in a later round. -/
def tallyAgain : List Operation := [.setRound 7, .call (.single (.appCall .zero 1 .noOp)) 0]

/-- What the tally counted and noted. -/
def tallyOf (r : Registry) : Option (List (Bytes × Value) × Option Value) :=
  (r.apps.get? 1).map fun app =>
    (app.state.globals.entries, app.state.localValue? .zero (utf8 "seen"))

theorem tallyOf_tallied :
    tallyOf tallied = some ([(utf8 "runs", .int 1)], some (.int 1)) ∧
      tallyOf (tallied.after tallyAgain) = some ([(utf8 "runs", .int 2)], some (.int 1)) ∧
      1 ∉ tallied.createdIds tallyAgain ∧
      ∀ e ∈ tallied.history tallyAgain, e.1.removes 1 .zero e.2 = false := by
  decide +kernel

/-! ## Top theorems -/

/-- Schemas bound what is stored, whatever a registry has been asked to do: in every application
the global store holds at most as many keys of each type as the global schema says, and the local
store of each account at most as many as the local schema. -/
theorem stores_fit_schemas (ops : List Operation) (appId : UInt64) (app : Application)
    (h : (({} : Registry).after ops).apps.get? appId = some app) :
    (∀ t, app.state.globals.count t ≤ (app.state.globalSchema.capacity t).toNat) ∧
      ∀ a store, app.state.locals.get? a = some store →
        ∀ t, store.count t ≤ (app.state.localSchema.capacity t).toNat := by
  have hempty : ({} : Registry).WithinSchemas := fun _ _ hget => by cases hget
  have hwithin := withinSchemas_after hempty ops appId app h
  exact ⟨hwithin.globals, hwithin.locals⟩

theorem stores_fit_schemas_tallied : ∃ app, tallied.apps.get? 1 = some app ∧
    app.state.globals.entries = [(utf8 "runs", .int 1)] ∧
    app.state.globals.count .int ≤ app.state.globalSchema.ints.toNat := by
  obtain ⟨app, happ, htally⟩ := Option.map_eq_some_iff.1 tallyOf_tallied.1
  exact ⟨app, happ, congrArg Prod.fst htally, (stores_fit_schemas _ 1 app happ).1 .int⟩

/-- Keys stay, and so do the types of their values. Between two states of an application, with any
operations on the registry in between that do not create another application under its id, every
global key is kept with a value of its type, and so is every local key of an account, if no
operation in between took the local store of the account away. -/
theorem keys_keep_types (h : r.apps.get? appId = some app)
    (h' : (r.after ops).apps.get? appId = some app') (hid : appId ∉ r.createdIds ops) :
    (∀ key v, app.state.globals.get? key = some v →
      ∃ v', app'.state.globals.get? key = some v' ∧ v'.type = v.type) ∧
    ∀ a, (∀ e ∈ r.history ops, e.1.removes appId a e.2 = false) →
      ∀ key v, app.state.localValue? a key = some v →
        ∃ v', app'.state.localValue? a key = some v' ∧ v'.type = v.type := by
  obtain ⟨hglobals, hlocals⟩ := keptBy_after h h' hid
  refine ⟨hglobals, fun a ha key v hv => ?_⟩
  rw [AppState.localValue?_eq_get?] at hv ⊢
  exact hlocals a ha key v hv

theorem keys_keep_types_tallied : ∃ app app', tallied.apps.get? 1 = some app ∧
    (tallied.after tallyAgain).apps.get? 1 = some app' ∧
    app.state.globals.entries = [(utf8 "runs", .int 1)] ∧
    (∃ v', app'.state.globals.get? (utf8 "runs") = some v' ∧ v'.type = .int) ∧
    ∃ v', app'.state.localValue? .zero (utf8 "seen") = some v' ∧ v'.type = .int := by
  obtain ⟨hbefore, hafter, hid, hstays⟩ := tallyOf_tallied
  obtain ⟨app, happ, htally⟩ := Option.map_eq_some_iff.1 hbefore
  obtain ⟨app', happ', -⟩ := Option.map_eq_some_iff.1 hafter
  obtain ⟨hglobals, hlocals⟩ := keys_keep_types happ happ' hid
  have hentries : app.state.globals.entries = [(utf8 "runs", .int 1)] := congrArg Prod.fst htally
  have hruns : app.state.globals.get? (utf8 "runs") = some (.int 1) := by
    rw [SortedMap.get?, hentries]
    rfl
  exact ⟨app, app', happ, happ', hentries, hglobals _ _ hruns,
    hlocals .zero hstays _ _ (congrArg Prod.snd htally)⟩

end Registry

end ContractBench
