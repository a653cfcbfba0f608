import ContractBench.Proofs.Code.DeadCode
import ContractBench.Proofs.Code.Sound
import ContractBench.Registry
/-!
# Program pairs

The two programs of an application are compiled apart and share its state. A key that neither
program writes has no value; if the trees use every other key with one type, each program keeps the
types of both, so that neither ever finds a value of the other type. Only nodes that are lowered
count, since a pair compiles to the same listings without its dead items:

    p.compile = .ok compiled → assemblePair compiled = .ok (p.approvalCode, p.clearStateCode)
                                                                       (assemblePair_of_compile)
    p.compile = .ok compiled → p.live.compile = .ok compiled               (compile_live)
    p.PutsAgree → p.live.PutsAgreeWithin                               (putsAgreeWithin_live)
    p.PutsAgreeWithin → Declared p.keyUses p.approval ∧ Declared p.keyUses p.clearState
                                                                       (declared_of_putsAgree)
    Declared types root → state.Agrees types → Checked (·.delta.Agrees types) (a run over state)
                                                                       (checked_linked)
-/

namespace ContractBench

open Success

/-! ## Runs over declared types -/

namespace Expr

/-- A run of the code of a tree over state of the declared types fails for no reason that types
exclude, and writes values of the declared types. -/
theorem checked_linked {root : Expr} {types : KeyTypes} (hb : Built root)
    (ht : root.terminates = true) (hd : Declared types root) (v : UInt8) (name : String)
    {state : AppState} (hs : state.Agrees types) (group : Group) (index : Nat) (context : Context) :
    Checked (fun r : ExecutionResult => r.delta.Agrees types)
      (Registry.runProgram (root.listing v name).linked group index state context).1 := by
  unfold Registry.runProgram Environment.forMember
  by_cases h : index < group.members.length
  · rw [dif_pos h]
    dsimp only
    refine checked_run (runsAs_linked hb ht rfl) (checked_evaluate ht ?_)
    exact keepsTypes_of_built hs hb hd {} Delta.agrees_empty
  · rw [dif_neg h]
    exact .error rfl

end Expr

namespace Program

/-! ## Algorithm -/

/-- Both trees can be built. -/
structure Built (p : Program) : Prop where
  approval : p.approval.Built
  clearState : p.clearState.Built

/-- Every use of a key in the two trees. -/
def keyUses (p : Program) : KeyTypes := p.approval.keyUses ++ p.clearState.keyUses

/-- A key that one of the trees writes is used with one type by both. Nodes that are not lowered
do not count. -/
def PutsAgree (p : Program) : Prop :=
  ∀ k, p.approval.PutsLive k ∨ p.clearState.PutsLive k →
    ∀ t t', p.approval.UsesLive (k, t) → p.clearState.UsesLive (k, t') → t = t'

/-- A key that one of the trees writes is used with one type by both, where all nodes count. -/
def PutsAgreeWithin (p : Program) : Prop :=
  ∀ k, p.approval.Puts k ∨ p.clearState.Puts k →
    ∀ t t', (k, t) ∈ p.approval.keyUses → (k, t') ∈ p.clearState.keyUses → t = t'

/-- The pair without its dead items. -/
def live (p : Program) : Program := ⟨p.approval.live, p.clearState.live, p.version⟩

/-- The listings of the two trees, as text. -/
def listings (p : Program) : CompiledProgram :=
  ⟨p.version, (p.approval.listing p.version "approval").text,
    (p.clearState.listing p.version "clear_state").text⟩

def approvalCode (p : Program) : Executable := (p.approval.listing p.version "approval").linked

def clearStateCode (p : Program) : Executable :=
  (p.clearState.listing p.version "clear_state").linked

/-! ## Lemmas -/

variable {p : Program} {compiled : CompiledProgram}

/-- A pair that compiles consists of two trees that do. -/
theorem compile_eq_ok (h : p.compile = .ok compiled) :
    ∃ approval clearState, p.approval.compile p.version "approval" = .ok approval ∧
      p.clearState.compile p.version "clear_state" = .ok clearState ∧
      compiled = ⟨p.version, approval.text, clearState.text⟩ := by
  obtain ⟨approval, happroval, h⟩ := bind_eq_ok.1 h
  obtain ⟨clearState, hclear, h⟩ := bind_eq_ok.1 h
  cases h
  exact ⟨approval, clearState, happroval, hclear, rfl⟩

/-- A pair that compiles is never refused by the assembler. -/
theorem assemblePair_of_compile (hb : p.Built) (h : p.compile = .ok compiled) :
    Registry.assemblePair compiled = .ok (p.approvalCode, p.clearStateCode) := by
  obtain ⟨approval, clearState, happroval, hclear, rfl⟩ := compile_eq_ok h
  obtain ⟨rfl, hasm⟩ := Expr.assemble_of_compile hb.approval happroval
  obtain ⟨rfl, hasm'⟩ := Expr.assemble_of_compile hb.clearState hclear
  unfold Registry.assemblePair approvalCode clearStateCode
  dsimp only
  rw [hasm, hasm']
  dsimp only [Listing.linked, Expr.listing]
  rw [if_pos rfl]

/-- Each tree of a pair that compiles terminates, and its keys agree. -/
theorem trees_of_compile (hb : p.Built) (h : p.compile = .ok compiled) :
    (p.approval.KeysAgree ∧ p.approval.terminates = true) ∧
      p.clearState.KeysAgree ∧ p.clearState.terminates = true := by
  obtain ⟨approval, clearState, happroval, hclear, -⟩ := compile_eq_ok h
  obtain ⟨-, ha, ht, -⟩ := (Expr.compile_eq_ok_iff hb.approval).1 happroval
  obtain ⟨-, ha', ht', -⟩ := (Expr.compile_eq_ok_iff hb.clearState).1 hclear
  exact ⟨⟨ha, ht⟩, ha', ht'⟩

/-- A key that one of the trees writes has one type in both. -/
theorem consistentAt_keyUses (h : p.PutsAgreeWithin) (ha : p.approval.KeysAgree)
    (ha' : p.clearState.KeysAgree) {k : StateKey}
    (hk : p.approval.Puts k ∨ p.clearState.Puts k) : p.keyUses.ConsistentAt k := by
  intro t t' hu hu'
  rcases List.mem_append.1 hu with hu | hu <;> rcases List.mem_append.1 hu' with hu' | hu'
  · exact ha _ hu _ hu' rfl
  · exact h k hk t t' hu hu'
  · exact (h k hk t' t hu' hu).symm
  · exact ha' _ hu _ hu' rfl

/-- If the trees agree on what either writes, their uses together declare each of them. -/
theorem declared_of_putsAgree (hb : p.Built) (hc : p.compile = .ok compiled)
    (h : p.PutsAgreeWithin) :
    Expr.Declared p.keyUses p.approval ∧ Expr.Declared p.keyUses p.clearState := by
  obtain ⟨⟨ha, -⟩, ha', -⟩ := trees_of_compile hb hc
  constructor
  · exact ⟨fun _ hu => List.mem_append_left _ hu,
      fun _ hk => consistentAt_keyUses h ha ha' (.inl hk)⟩
  · exact ⟨fun _ hu => List.mem_append_right _ hu,
      fun _ hk => consistentAt_keyUses h ha ha' (.inr hk)⟩

/-! ### Without dead items -/

theorem built_live (hb : p.Built) : p.live.Built :=
  ⟨Expr.built_prune _ hb.approval [], Expr.built_prune _ hb.clearState []⟩

theorem compile_live (hb : p.Built) (h : p.compile = .ok compiled) :
    p.live.compile = .ok compiled := by
  obtain ⟨approval, clearState, happroval, hclear, rfl⟩ := compile_eq_ok h
  have happroval' := Expr.compile_of_pruned (fun _ => true) hb.approval happroval
  have hclear' := Expr.compile_of_pruned (fun _ => true) hb.clearState hclear
  refine bind_eq_ok.2 ⟨approval, happroval', ?_⟩
  exact bind_eq_ok.2 ⟨clearState, hclear', rfl⟩

/-- If the lowered nodes agree, there are no others that could disagree once the dead items are
gone. -/
theorem putsAgreeWithin_live (hb : p.Built) (h : p.PutsAgree) : p.live.PutsAgreeWithin := by
  intro k hk t t' hu hu'
  refine h k ?_ t t' (Expr.usesLive_of_live hb.approval hu)
    (Expr.usesLive_of_live hb.clearState hu')
  exact hk.imp Expr.putsLive_of_live Expr.putsLive_of_live

end Program

end ContractBench
