import ContractBench.Artifact.Store
import ContractBench.Proofs.Assembly.Contents
import ContractBench.Proofs.Assembly.Errors
/-!
# The version a text declares

Two readers look for the version of a text. The assembler takes the first line that counts
(`Source.declared`) and knows the versions that are supported; a stored listing tells its version in
its first line as it stands. They read the same number where that line begins as a pragma and has no
comment (`Source.PragmaFirst`), and only there:

    assemble s = .ok e → declared s = .ok e.version                          (declared_of_assemble)
    declared s = .ok v → PragmaFirst s → pragmaVersion? s = some v       (pragmaVersion?_of_first)
    ¬ PragmaFirst s → pragmaVersion? s = none                         (pragmaVersion?_of_not_first)
    pragmaVersion? s = some v → ∃ text, byte? text = some v ∧
      declared s = if isSupported v then .ok v else .error (.unsupportedVersion ..)
                                                                       (declared_of_pragmaVersion?)
-/

namespace ContractBench

open Success

/-! ## Algorithm -/

namespace Source

/-- The version that the first line of a text that counts declares. -/
def declared (source : String) : Except AssemblyError UInt8 :=
  match contentLines source with
  | [] => .error .missingPragma
  | (_, first) :: _ => readPragma first

/-- The first line of a text, whether it counts or not, begins as a pragma and has no comment. -/
def PragmaFirst (source : String) : Prop :=
  ∃ line, (Text.lines source.toList).head? = some line ∧ "#pragma version".toList <+: line ∧
    dropComment false line = line

end Source

/-! ## Lemmas -/

namespace Source

open Text

variable {s : String} {v : UInt8}

/-! ### Declared versions -/

theorem declared_of_assemble {e : Executable} (h : assemble s = .ok e) :
    declared s = .ok e.version := by
  obtain ⟨l, hl, hlink⟩ := bind_eq_ok.1 h
  obtain ⟨_, -, ⟨⟩⟩ := bind_eq_ok.1 hlink
  obtain ⟨⟨first, rest, hc, hv, -⟩, -⟩ := Listing.ofText_eq_ok.1 hl
  unfold declared
  rw [hc]
  exact hv

/-- A text whose version cannot be read is not assembled, for that reason. -/
theorem assemble_of_declared_error {e : AssemblyError} (h : declared s = .error e) :
    assemble s = .error e := by
  refine bind_eq_error.2 (.inl ?_)
  cases hc : contentLines s with
  | nil =>
    simp only [declared, hc] at h
    simp only [Listing.ofText, hc]
    cases h
    rfl
  | cons first rest =>
    simp only [declared, hc] at h
    simp only [Listing.ofText, hc]
    exact bind_eq_error.2 (.inl h)

/-! ### The first line -/

/-- Only a first line that begins as a pragma is looked at. -/
theorem pragmaVersion?_of_line {r : List Char}
    (h : (Text.lines s.toList).head? = some ("#pragma version".toList ++ r)) :
    ArtifactConfig.pragmaVersion? s = byte? (trim r) := by
  simp only [ArtifactConfig.pragmaVersion?, h, bind, Option.bind_some, dropStart?_append]

/-- A version is found behind the words of a pragma only, and no comment stands there. -/
theorem exists_of_pragmaVersion? (h : ArtifactConfig.pragmaVersion? s = some v) :
    ∃ r, (Text.lines s.toList).head? = some ("#pragma version".toList ++ r) ∧
      byte? (trim r) = some v ∧ dropComment false r = r := by
  obtain ⟨line, hline, h⟩ := Option.bind_eq_some_iff.1 h
  obtain ⟨r, hr, hv⟩ := Option.bind_eq_some_iff.1 h
  obtain rfl := eq_append_of_dropStart? hr
  have hslash : '/' ∉ r := fun hm => slash_not_mem_of_byte? hv (mem_trim (by decide) hm)
  exact ⟨r, hline, hv, dropComment_of_no_slashes
    (fun hi => hslash (hi.subset List.mem_cons_self)) false⟩

/-- A pragma in the first line is found by the assembler too, without its comment. -/
theorem declared_of_line {r : List Char}
    (h : (Text.lines s.toList).head? = some ("#pragma version".toList ++ r)) :
    declared s =
      ((byte? (trim (dropComment false r))).filter isSupported).elim
        (.error (.unsupportedVersion (String.ofList (trim (dropComment false r))))) .ok := by
  obtain ⟨rest, hlines⟩ := List.head?_eq_some_iff.1 h
  obtain ⟨d, hd, htrim⟩ := exists_trim_append (w := "#pragma version".toList) (by decide)
    (by rintro c ⟨⟩; rfl) (by rintro c ⟨⟩; rfl) (dropComment false r)
  obtain ⟨d', hd', htrim'⟩ := exists_trim_append (w := "version".toList) (by decide)
    (by rintro c ⟨⟩; rfl) (by rintro c ⟨⟩; rfl) d
  have hcontent : content ("#pragma version".toList ++ r) = "#pragma version".toList ++ d := by
    unfold content
    rw [dropComment_append (forall_mem_of_all (by decide)), hd]
  have hcounts : contentLines s = (1, "#pragma version".toList ++ d) :: numbered 2 rest := by
    rw [contentLines, hlines, numbered, hcontent]
    rfl
  have hpragma : dropStart? "#pragma".toList ("#pragma version".toList ++ d) =
      some (' ' :: ("version".toList ++ d)) := dropStart?_append _ _
  have hversion : dropStart? "version".toList (trim (' ' :: ("version".toList ++ d))) = some d' := by
    rw [trim_cons (by decide), hd']
    exact dropStart?_append _ _
  unfold declared
  rw [hcounts]
  simp only [readPragma, hpragma, Option.bind_some, hversion, htrim', htrim]
  cases (byte? (trim (dropComment false r))).filter isSupported <;> rfl

/-! ### Both readers -/

/-- A pragma without a comment tells both readers the same. -/
theorem pragmaVersion?_of_first (h : declared s = .ok v) (hf : PragmaFirst s) :
    ArtifactConfig.pragmaVersion? s = some v := by
  obtain ⟨line, hline, ⟨r, rfl⟩, hcomment⟩ := hf
  have hr : dropComment false r = r := by
    rw [dropComment_append (forall_mem_of_all (by decide))] at hcomment
    exact List.append_cancel_left hcomment
  rw [declared_of_line hline, hr] at h
  rw [pragmaVersion?_of_line hline]
  cases hv : (byte? (trim r)).filter isSupported with
  | none =>
    rw [hv] at h
    cases h
  | some v' =>
    rw [hv] at h
    cases h
    exact (Option.filter_eq_some_iff.1 hv).1

/-- What a stored listing tells stands in its first line, and no comment does. -/
theorem pragmaFirst_of_pragmaVersion? (h : ArtifactConfig.pragmaVersion? s = some v) :
    PragmaFirst s := by
  obtain ⟨r, hline, -, hr⟩ := exists_of_pragmaVersion? h
  refine ⟨_, hline, List.prefix_append _ _, ?_⟩
  rw [dropComment_append (forall_mem_of_all (by decide)), hr]

theorem pragmaVersion?_of_not_first (h : ¬ PragmaFirst s) :
    ArtifactConfig.pragmaVersion? s = none :=
  Option.eq_none_iff_forall_ne_some.2 fun _ hv => h (pragmaFirst_of_pragmaVersion? hv)

/-- The version a stored listing tells is declared, or it is none that is supported. -/
theorem declared_of_pragmaVersion? (h : ArtifactConfig.pragmaVersion? s = some v) :
    ∃ text, byte? text = some v ∧
      declared s = if isSupported v then .ok v
        else .error (.unsupportedVersion (String.ofList text)) := by
  obtain ⟨r, hline, hv, hr⟩ := exists_of_pragmaVersion? h
  refine ⟨trim r, hv, ?_⟩
  rw [declared_of_line hline, hr, hv]
  by_cases hs : isSupported v = true
  · rw [Option.filter_some, if_pos hs, if_pos hs, Option.elim_some]
  · rw [Option.filter_some, if_neg hs, if_neg hs, Option.elim_none]

end Source

end ContractBench
