import ContractBench.Proofs.Registry.Entry
import ContractBench.Proofs.Registry.Stores
/-!
# Applications do not see each other

A call reads the application it addresses and what the ledger tells its run, and changes nothing but
that application. So its answer, and what becomes of the application, are the same in any registry
that looks the same to the application, and calls of two applications can change places:

    SameTo appId r r' → (r'.call group index).1 = (r.call group index).1            (call_of_sameTo)
    id ≠ appId → SameTo id r (r.call group index).2                           (sameTo_call_of_ne)
-/

namespace ContractBench

namespace Registry

/-! ## Algorithm -/

/-- Two registries look the same to an application: they have the same entry for it, and tell its
runs the same about the ledger. -/
structure SameTo (appId : UInt64) (r r' : Registry) : Prop where
  entry : r'.apps.get? appId = r.apps.get? appId
  round : r'.round = r.round
  latestTimestamp : r'.latestTimestamp = r.latestTimestamp
  costBudget : r'.costBudget = r.costBudget

/-- Two registries differ in their applications alone. -/
structure SameLedger (r r' : Registry) : Prop where
  nextId : r'.nextId = r.nextId
  round : r'.round = r.round
  latestTimestamp : r'.latestTimestamp = r.latestTimestamp
  costBudget : r'.costBudget = r.costBudget

/-! ## Lemmas -/

variable {r r' : Registry} {group : Group} {index : Nat} {sender : Address} {action : OnComplete}
  {appId id : UInt64}

theorem SameLedger.symm (h : SameLedger r r') : SameLedger r' r :=
  ⟨h.nextId.symm, h.round.symm, h.latestTimestamp.symm, h.costBudget.symm⟩

theorem SameLedger.trans {r'' : Registry} (h : SameLedger r r') (h' : SameLedger r' r'') :
    SameLedger r r'' :=
  ⟨h'.nextId.trans h.nextId, h'.round.trans h.round, h'.latestTimestamp.trans h.latestTimestamp,
    h'.costBudget.trans h.costBudget⟩

/-- Registries with the same applications that differ in their applications alone are equal. -/
theorem SameLedger.eq_of_get? (h : SameLedger r r')
    (hget : ∀ id, r'.apps.get? id = r.apps.get? id) : r' = r := by
  have happs : r'.apps = r.apps := SortedMap.ext_get? hget
  obtain ⟨hnext, hround, htime, hbudget⟩ := h
  cases r
  cases r'
  cases happs
  cases hnext
  cases hround
  cases htime
  cases hbudget
  rfl

/-- A call leaves everything but the applications as it was. -/
theorem sameLedger_call (r : Registry) (group : Group) (index : Nat) :
    SameLedger r (r.call group index).2 := by
  cases hadm : r.admitCall group index with
  | error e =>
    rw [call_of_refused hadm]
    exact ⟨rfl, rfl, rfl, rfl⟩
  | ok admitted =>
    obtain ⟨sender, action, appId, app⟩ := admitted
    rw [call_of_admitted hadm]
    generalize app.behind sender action _ = entry
    cases entry <;> exact ⟨rfl, rfl, rfl, rfl⟩

/-- A call leaves every application but the one it addresses as it was. -/
theorem get?_call_of_ne (hcall : callAt group index = .ok (sender, appId, action))
    (hid : id ≠ appId) : (r.call group index).2.apps.get? id = r.apps.get? id := by
  cases hadm : r.admitCall group index with
  | error e => rw [call_of_refused hadm]
  | ok admitted =>
    obtain ⟨sender', action', appId', app⟩ := admitted
    cases hcall.symm.trans (admitCall_eq_ok hadm).1
    rw [call_of_admitted hadm, get?_setEntry, if_neg hid]

/-- To an application that it does not address, a call makes no difference. -/
theorem sameTo_call_of_ne (r : Registry) (hcall : callAt group index = .ok (sender, appId, action))
    (hid : id ≠ appId) : SameTo id r (r.call group index).2 := by
  have hledger := sameLedger_call r group index
  exact ⟨get?_call_of_ne hcall hid, hledger.round, hledger.latestTimestamp, hledger.costBudget⟩

/-- Whether a call is admitted depends on the entry of its application. -/
theorem admitCall_of_sameTo (hcall : callAt group index = .ok (sender, appId, action))
    (h : SameTo appId r r') : r'.admitCall group index = r.admitCall group index := by
  unfold admitCall
  rw [hcall]
  dsimp only [bind, Except.bind]
  rw [h.entry]

/-- A call goes the same way in registries that look the same to its application. -/
theorem call_of_sameTo (hcall : callAt group index = .ok (sender, appId, action))
    (h : SameTo appId r r') :
    (r'.call group index).1 = (r.call group index).1 ∧
      (r'.call group index).2.apps.get? appId = (r.call group index).2.apps.get? appId := by
  have hsame := admitCall_of_sameTo hcall h
  cases hadm : r.admitCall group index with
  | error e =>
    rw [call_of_refused hadm, call_of_refused (hsame.trans hadm)]
    exact ⟨rfl, h.entry⟩
  | ok admitted =>
    obtain ⟨sender', action', appId', app⟩ := admitted
    cases hcall.symm.trans (admitCall_eq_ok hadm).1
    have hrun :
        r'.callRun group index appId app action = r.callRun group index appId app action := by
      rw [callRun, callRun, context, context, h.round, h.latestTimestamp, h.costBudget]
    rw [call_of_admitted hadm, call_of_admitted (hsame.trans hadm), hrun, get?_setEntry,
      get?_setEntry, if_pos rfl, if_pos rfl]
    exact ⟨rfl, rfl⟩

/-! ## Top theorem -/

/-- Calls of different applications commute. Each is answered the same before the other and behind
it, and both leave the same registry, whichever comes first. A call changes or takes away no
application but the one it addresses. -/
theorem calls_commute (r : Registry) {group group' : Group} {index index' : Nat}
    {sender sender' : Address} {appId appId' : UInt64} {action action' : OnComplete}
    (hcall : callAt group index = .ok (sender, appId, action))
    (hcall' : callAt group' index' = .ok (sender', appId', action')) (hne : appId ≠ appId') :
    ((r.call group' index').2.call group index).1 = (r.call group index).1 ∧
    ((r.call group index).2.call group' index').1 = (r.call group' index').1 ∧
    ((r.call group index).2.call group' index').2 = ((r.call group' index').2.call group index).2 ∧
    (∀ id, id ≠ appId → (r.call group index).2.apps.get? id = r.apps.get? id) ∧
    ∀ id, id ≠ appId' → (r.call group' index').2.apps.get? id = r.apps.get? id := by
  obtain ⟨hanswer, hentry⟩ := call_of_sameTo hcall (sameTo_call_of_ne r hcall' hne)
  obtain ⟨hanswer', hentry'⟩ := call_of_sameTo hcall' (sameTo_call_of_ne r hcall hne.symm)
  have hledger : SameLedger ((r.call group' index').2.call group index).2
      ((r.call group index).2.call group' index').2 :=
    ((sameLedger_call r _ _).trans (sameLedger_call _ _ _)).symm.trans
      ((sameLedger_call r _ _).trans (sameLedger_call _ _ _))
  refine ⟨hanswer, hanswer', hledger.eq_of_get? fun id => ?_, fun id => get?_call_of_ne hcall,
    fun id => get?_call_of_ne hcall'⟩
  by_cases hid : id = appId
  · subst hid
    rw [get?_call_of_ne hcall' hne, hentry]
  · rw [get?_call_of_ne hcall hid]
    by_cases hid' : id = appId'
    · subst hid'
      rw [hentry']
    · rw [get?_call_of_ne hcall' hid', get?_call_of_ne hcall' hid', get?_call_of_ne hcall hid]

/-- A registry where the zero account created two tallies and opted in to both. -/
def talliedTwice : Registry :=
  tallied.after [.create tally ⟨1, 0⟩ ⟨1, 0⟩ (.single (.appCall .zero 0 .optIn)) 0]

/-- One tally can be deleted before the other is called or after. -/
theorem calls_commute_talliedTwice :
    let delete : Group := .single (.appCall .zero 1 .deleteApplication)
    let call : Group := .single (.appCall .zero 2 .noOp)
    ((talliedTwice.call delete 0).1.toOption = some ⟨1, true, [], none, 12⟩ ∧
      (talliedTwice.call call 0).1.toOption = some ⟨2, true, [], none, 12⟩) ∧
    ((talliedTwice.call call 0).2.call delete 0).1 = (talliedTwice.call delete 0).1 ∧
    ((talliedTwice.call delete 0).2.call call 0).1 = (talliedTwice.call call 0).1 ∧
    ((talliedTwice.call delete 0).2.call call 0).2 =
      ((talliedTwice.call call 0).2.call delete 0).2 := by
  intro delete call
  have hfirst : callAt delete 0 = .ok (.zero, 1, .deleteApplication) := rfl
  have hsecond : callAt call 0 = .ok (.zero, 2, .noOp) := rfl
  obtain ⟨hdelete, hcall, hbehind, -, -⟩ := talliedTwice.calls_commute hfirst hsecond (by decide)
  exact ⟨by decide +kernel, hdelete, hcall, hbehind⟩

end Registry

end ContractBench
