import ContractBench.Proofs.Artifact.Store
import ContractBench.Proofs.Assembly.Pragma
/-!
# The version of stored listings

What is read back as the version of two listings is the version the assembler finds in the approval
listing, where the first line of that listing begins as a pragma and has no comment. A version that
is read back is the declared one, or one that no assembler supports:

    assemble approval = .ok e → Source.PragmaFirst approval →
      outcome c.read s = (.ok ⟨e.version, approval, clearState⟩, s)                  (version_of_read)
    outcome c.read s = (.ok p, s') → isSupported p.version →
      Source.declared approval = .ok p.version                                       (version_of_read)

Other texts that are assembled are refused for the want of a version.
-/

namespace ContractBench.ArtifactConfig

open Session

variable {c : ArtifactConfig} {s : Session} {approval clearState : String}

/-! ## Top theorem -/

/-- The version of two stored listings is that of the assembler if the approval listing begins with
its pragma; if it does not, a listing that is assembled cannot be read back. A version that is read
back is declared, or refused by the assembler as it stands in the text. -/
theorem version_of_read (ha : s.tree.read (.ofString c.approvalPath) = .ok approval)
    (hc : s.tree.read (.ofString c.clearPath) = .ok clearState) :
    (∀ e, assemble approval = .ok e →
      (Source.PragmaFirst approval →
        outcome c.read s = (.ok ⟨e.version, approval, clearState⟩, s)) ∧
      (¬ Source.PragmaFirst approval → outcome c.read s = (.error .missingPragma, s))) ∧
    ∀ p s', outcome c.read s = (.ok p, s') →
      s' = s ∧ p = ⟨p.version, approval, clearState⟩ ∧
      (isSupported p.version = true → Source.declared approval = .ok p.version) ∧
      (isSupported p.version = false → ∃ text, Text.byte? text = some p.version ∧
        assemble approval = .error (.unsupportedVersion (String.ofList text))) := by
  rw [outcome_read_texts ha hc]
  constructor
  · intro e he
    have hdeclared := Source.declared_of_assemble he
    constructor
    · intro hf
      rw [Source.pragmaVersion?_of_first hdeclared hf]
    · intro hf
      rw [Source.pragmaVersion?_of_not_first hf]
  · intro p s' h
    cases hv : pragmaVersion? approval with
    | none =>
      rw [hv] at h
      cases h
    | some version =>
      rw [hv] at h
      cases h
      obtain ⟨text, htext, hdeclared⟩ := Source.declared_of_pragmaVersion? hv
      refine ⟨rfl, rfl, fun hs => ?_, fun hs => ⟨text, htext, ?_⟩⟩
      · rw [hdeclared, if_pos hs]
      · rw [hs] at hdeclared
        exact Source.assemble_of_declared_error hdeclared

/-! ### Listings in their places -/

/-- A session in which two listings are stored under the default names. -/
def storing (approval clearState : String) : Session where
  tree := (({} : FileTree).set ["approval.teal"] (.file approval)).set ["clear.teal"]
    (.file clearState)

/-- A listing that approves. -/
def approvingText : String := "#pragma version 6\nint 1\nreturn\n"

/-- The listing with a comment above its pragma. -/
def commentedText : String := "// approval\n" ++ approvingText

/-- A listing of a version that is not supported. -/
def futureText : String := "#pragma version 9\nint 1\nreturn\n"

/-- What the listing is assembled to. -/
def approvingProgram : Executable := ⟨6, [⟨.int, .uint 1⟩, ⟨.ret, .absent⟩]⟩

/-- A listing is assembled and cannot be read back; another is read back and cannot be assembled. -/
theorem readers_disagree :
    assemble commentedText = .ok approvingProgram ∧
    (outcome ({} : ArtifactConfig).read (storing commentedText approvingText)).1 =
      .error .missingPragma ∧
    (outcome ({} : ArtifactConfig).read (storing futureText approvingText)).1 =
      .ok ⟨9, futureText, approvingText⟩ ∧
    assemble futureText = .error (.unsupportedVersion "9") := by
  refine ⟨?_, ?_, ?_, ?_⟩ <;> decide +kernel

/-- Without the comment it is read back with the version it is assembled with. -/
theorem version_of_read_approving :
    let s := storing approvingText approvingText
    assemble approvingText = .ok approvingProgram ∧
      outcome ({} : ArtifactConfig).read s = (.ok ⟨6, approvingText, approvingText⟩, s) ∧
      Source.declared approvingText = .ok 6 := by
  intro s
  have ha : s.tree.read (.ofString ({} : ArtifactConfig).approvalPath) = .ok approvingText := by
    decide +kernel
  have hc : s.tree.read (.ofString ({} : ArtifactConfig).clearPath) = .ok approvingText := by
    decide +kernel
  have he : assemble approvingText = .ok approvingProgram := by decide +kernel
  have hfirst : Source.PragmaFirst approvingText :=
    ⟨"#pragma version 6".toList, by decide +kernel, by decide +kernel, by decide +kernel⟩
  obtain ⟨hassembled, hread⟩ := version_of_read ha hc
  have hp := (hassembled _ he).1 hfirst
  exact ⟨he, hp, (hread _ _ hp).2.2.1 rfl⟩

end ContractBench.ArtifactConfig
