import ContractBench.Artifact.Store
import ContractBench.Proofs.Artifact.Storage
import ContractBench.Proofs.Assembly.Assemble
import ContractBench.Proofs.Code.Pair
import ContractBench.Proofs.File.Names
/-!
# The stored pair read back

A pair that compiles is read back as it was written, and cleaning removes both of its files
(`ArtifactConfig.RoundTrip`), if the paths lead to two places and the clear-state listing is not
first written where the approval listing is (`ArtifactConfig.Overwrites`). File names without
slashes overwrite each other only if one is the temporary name of the other:

    ¬ c.Overwrites s'.tree → c.RoundTrip p s'                             (roundTrip_of_write)
    c.approvalFile ≠ tempName c.clearFile → ¬ c.Overwrites t              (not_overwrites_of_names)

Writing does not look out for this: it succeeds, and the approval listing is lost.
-/

namespace ContractBench

/-! ## The version of a listing -/

namespace Listing

open Text

/-- The version a listing begins with is its own. -/
theorem pragmaVersion?_text (l : Listing) :
    ArtifactConfig.pragmaVersion? l.text = some l.version := by
  have hfirst : (Text.lines l.text.toList).head? = some (pragma l.version).toList := by
    have hp := (token_pragma l.version).toPlain
    rw [toList_text, List.flatMap_cons, List.append_assoc, List.singleton_append, Text.lines,
      linesFrom_append _ _ _ hp.noLineFeed, List.append_nil, dropReturn_reverse hp.noReturn,
      List.reverse_reverse]
    rfl
  have hstart : dropStart? "#pragma version".toList (pragma l.version).toList =
      some (' ' :: (toString l.version).toList) := by
    rw [toList_pragma]
    exact dropStart?_append "#pragma version".toList _
  unfold ArtifactConfig.pragmaVersion?
  simp only [hfirst, hstart, bind, Option.bind_some, trim_blank_cons (token_version l.version),
    byte?_toString]

end Listing

/-- A tree compiles to a listing of the version that was asked for. -/
theorem Expr.version_of_compile {root : Expr} {v : UInt8} {name : String} {l : Listing}
    (h : root.compile v name = .ok l) : l.version = v := by
  unfold compile at h
  split at h
  · cases h
  · obtain ⟨items, -, h⟩ := Success.bind_eq_ok.1 h
    obtain ⟨lines, -, h⟩ := Success.bind_eq_ok.1 h
    unfold Listing.ofLines at h
    split at h <;> cases h
    rfl

namespace ArtifactConfig

open Session Storage

/-! ## Algorithm -/

/-- The two paths lead to different places. -/
def Apart (c : ArtifactConfig) (t : FileTree) : Prop :=
  t.locate? (.ofString c.approvalPath) ≠ t.locate? (.ofString c.clearPath)

/-- The clear-state listing is written where the approval listing is. -/
def Overwrites (c : ArtifactConfig) (t : FileTree) : Prop :=
  t.locate? (tempPath c.clearPath) = t.locate? (.ofString c.approvalPath)

instance (c : ArtifactConfig) (t : FileTree) : Decidable (c.Apart t) :=
  inferInstanceAs (Decidable (_ ≠ _))

instance (c : ArtifactConfig) (t : FileTree) : Decidable (c.Overwrites t) :=
  inferInstanceAs (Decidable (_ = _))

/-- Both listings are where their paths lead. -/
structure Kept (c : ArtifactConfig) (t : FileTree) (approval clearState : String)
    (a a' : Location) : Prop where
  apart : a ≠ a'
  placed : t.locate? (.ofString c.approvalPath) = some a
  placed' : t.locate? (.ofString c.clearPath) = some a'
  noSlash : (FilePath.ofString c.approvalPath).slash = false
  noSlash' : (FilePath.ofString c.clearPath).slash = false
  holds : t.find? a = some (.file approval)
  holds' : t.find? a' = some (.file clearState)

/-- A pair is read back as it is, and cleaning leaves neither file. -/
structure RoundTrip (c : ArtifactConfig) (p : CompiledProgram) (s : Session) : Prop where
  approval : s.tree.read (.ofString c.approvalPath) = .ok p.approval
  clearState : s.tree.read (.ofString c.clearPath) = .ok p.clearState
  read : outcome c.read s = (.ok p, s)
  clean : ∃ s', outcome c.clean s = (.ok 2, s') ∧
    s'.tree.read (.ofString c.approvalPath) = .error .notFound ∧
    s'.tree.read (.ofString c.clearPath) = .error .notFound

/-! ## Lemmas -/

variable {c : ArtifactConfig} {p : CompiledProgram} {s s' : Session}

/-- The listings are stored one after the other. -/
theorem stored_of_write {paths : String × String} (h : outcome (c.write p) s = (.ok paths, s')) :
    paths = (c.approvalPath, c.clearPath) ∧
    ∃ t a b a' b', Stored c.approvalPath p.approval s.tree t a b ∧
      Stored c.clearPath p.clearState t s'.tree a' b' := by
  unfold write at h
  obtain ⟨⟨⟩, s₁, happroval, h⟩ := outcome_bind_eq_ok.1 h
  obtain ⟨⟨⟩, s₂, hclear, h⟩ := outcome_bind_eq_ok.1 h
  cases h
  obtain ⟨a, b, ha⟩ := stored_of_writeText happroval
  obtain ⟨a', b', hc⟩ := stored_of_writeText hclear
  exact ⟨rfl, s₁.tree, a, b, a', b', ha, hc⟩

/-- Where both files can be read, the approval listing decides. -/
theorem outcome_read_texts {approval clearState : String}
    (ha : s.tree.read (.ofString c.approvalPath) = .ok approval)
    (hc : s.tree.read (.ofString c.clearPath) = .ok clearState) :
    outcome c.read s =
      match pragmaVersion? approval with
      | some version => (.ok ⟨version, approval, clearState⟩, s)
      | none => (.error .missingPragma, s) := by
  unfold ArtifactConfig.read
  rw [outcome_bind, outcome_readText ha]
  dsimp only
  rw [outcome_bind, outcome_readText hc]
  cases pragmaVersion? approval <;> rfl

namespace Kept

variable {approval clearState : String} {a a' : Location}

theorem outcome_read (h : c.Kept s.tree approval clearState a a') {version : UInt8}
    (hv : pragmaVersion? approval = some version) :
    outcome c.read s = (.ok ⟨version, approval, clearState⟩, s) := by
  rw [outcome_read_texts (FileTree.read_file h.placed h.noSlash h.holds)
    (FileTree.read_file h.placed' h.noSlash' h.holds'), hv]

/-- Both files are removed, and then there are none. -/
theorem outcome_clean (h : c.Kept s.tree approval clearState a a') :
    ∃ s'', outcome c.clean s = (.ok 2, s'') ∧
      s''.tree.read (.ofString c.approvalPath) = .error .notFound ∧
      s''.tree.read (.ofString c.clearPath) = .error .notFound := by
  have hn := FileTree.ne_nil_of_locate? h.placed
  have hn' := FileTree.ne_nil_of_locate? h.placed'
  have hk : s.tree.Keeps (s.tree.without a) := .without (by simp [h.holds])
  have hc : (s.tree.without a).find? a' = some (.file clearState) := by
    rw [FileTree.find?_without _ h.apart.symm, h.holds']
  have hk' : (s.tree.without a).Keeps ((s.tree.without a).without a') := .without (by simp [hc])
  refine ⟨{ s with tree := (s.tree.without a).without a' }, ?_, ?_, ?_⟩
  · unfold clean
    rw [outcome_bind, outcome_removeIfExists h.placed h.noSlash h.holds]
    dsimp only
    have hclear : outcome (removeIfExists c.clearPath) { s with tree := s.tree.without a } =
        (.ok true, { s with tree := (s.tree.without a).without a' }) :=
      outcome_removeIfExists (hk.locate? h.placed') h.noSlash' hc
    rw [outcome_bind, hclear]
    rfl
  · refine FileTree.read_gone (hk'.locate? (hk.locate? h.placed)) ?_
    rw [FileTree.find?_without _ h.apart, FileTree.find?_without_self _ hn]
  · exact FileTree.read_gone (hk'.locate? (hk.locate? h.placed'))
      (FileTree.find?_without_self _ hn')

theorem roundTrip (h : c.Kept s.tree p.approval p.clearState a a')
    (hv : pragmaVersion? p.approval = some p.version) : c.RoundTrip p s where
  approval := FileTree.read_file h.placed h.noSlash h.holds
  clearState := FileTree.read_file h.placed' h.noSlash' h.holds'
  read := h.outcome_read hv
  clean := h.outcome_clean

end Kept

theorem kept_of_stored {t t₁ t' : FileTree} {a b a' b' : Location}
    (h : Stored c.approvalPath p.approval t t₁ a b) (h' : Stored c.clearPath p.clearState t₁ t' a' b')
    (hd : c.Apart t') (ho : ¬ c.Overwrites t') : c.Kept t' p.approval p.clearState a a' := by
  have hp := h'.keeps.locate? h.placed
  have hne : a ≠ a' := by
    rintro rfl
    exact hd (hp.trans h'.placed.symm)
  have hb : a ≠ b' := by
    rintro rfl
    exact ho (h'.besides.trans hp.symm)
  exact ⟨hne, hp, h'.placed, h.noSlash, h'.noSlash, h'.others a _ hne hb h.holds, h'.holds⟩

theorem gone_of_stored {t t₁ t' : FileTree} {a b a' b' : Location}
    (h : Stored c.approvalPath p.approval t t₁ a b) (h' : Stored c.clearPath p.clearState t₁ t' a' b')
    (hd : c.Apart t') (ho : c.Overwrites t') :
    t'.locate? (.ofString c.approvalPath) = some a ∧ t'.find? a = none := by
  have hp := h'.keeps.locate? h.placed
  have hb : b' = a := Option.some.inj (h'.besides.symm.trans (ho.trans hp))
  refine ⟨hp, hb ▸ h'.gone fun he => hd ?_⟩
  rw [hp, h'.placed, ← he, hb]

theorem roundTrip_of_write {program : Program} (hc : program.compile = .ok p)
    {paths : String × String} (hw : outcome (c.write p) s = (.ok paths, s'))
    (hd : c.Apart s'.tree) (ho : ¬ c.Overwrites s'.tree) : c.RoundTrip p s' := by
  obtain ⟨-, t, a, b, a', b', h, h'⟩ := stored_of_write hw
  obtain ⟨approval, clearState, happroval, -, rfl⟩ := Program.compile_eq_ok hc
  have hv := approval.pragmaVersion?_text
  rw [Expr.version_of_compile happroval] at hv
  exact (kept_of_stored h h' hd ho).roundTrip hv

/-! ### File names -/

/-- The path of a file name leads to a place of that name. -/
theorem getLast?_of_name {name : String} (h : FilePath.IsName name) {dir : String} {t : FileTree}
    {l : Location} (hl : t.locate? (.ofString (FilePath.join dir name)) = some l) :
    l.getLast? = some name := by
  obtain ⟨ps, hp⟩ := FilePath.exists_pieces_join dir h
  rw [← FileTree.getLast?_of_locate? hl, FilePath.getLast?_names h.nonempty hp]

theorem getLast?_of_tempPath {name : String} (h : FilePath.IsName name) {dir : String}
    {t : FileTree} {l : Location} (hl : t.locate? (tempPath (FilePath.join dir name)) = some l) :
    l.getLast? = some (tempName name) := by
  have hne : tempName name ≠ "" := by
    intro he
    have := congrArg String.toList he
    simp [tempName] at this
  rw [← FileTree.getLast?_of_locate? hl, tempPath, FilePath.fileName?_join dir h]
  exact FilePath.getLast?_names_withName _ hne

variable {t : FileTree} {l : Location}

theorem apart_of_names (hf : FilePath.IsName c.approvalFile) (hg : FilePath.IsName c.clearFile)
    (hl : t.locate? (.ofString c.approvalPath) = some l) (hne : c.approvalFile ≠ c.clearFile) :
    c.Apart t := by
  intro he
  have hname := getLast?_of_name hf hl
  rw [getLast?_of_name hg (he.symm.trans hl)] at hname
  exact hne (Option.some.inj hname).symm

theorem not_overwrites_of_names (hf : FilePath.IsName c.approvalFile)
    (hg : FilePath.IsName c.clearFile) (hl : t.locate? (.ofString c.approvalPath) = some l)
    (hne : c.approvalFile ≠ tempName c.clearFile) : ¬ c.Overwrites t := by
  intro ho
  have hname := getLast?_of_name hf hl
  rw [getLast?_of_tempPath hg (ho.trans hl)] at hname
  exact hne (Option.some.inj hname).symm

/-! ## Top theorems -/

/-- In every session, two file names of which the first is neither the second nor its temporary
name give back what was written to them. -/
theorem roundTrip_of_names {program : Program} (hc : program.compile = .ok p)
    {paths : String × String} (hw : outcome (c.write p) s = (.ok paths, s'))
    (hf : FilePath.IsName c.approvalFile) (hg : FilePath.IsName c.clearFile)
    (hne : c.approvalFile ≠ c.clearFile) (htemp : c.approvalFile ≠ tempName c.clearFile) :
    c.RoundTrip p s' := by
  obtain ⟨-, t, a, b, a', b', h, h'⟩ := stored_of_write hw
  have hl := h'.keeps.locate? h.placed
  exact roundTrip_of_write hc hw (apart_of_names hf hg hl hne)
    (not_overwrites_of_names hf hg hl htemp)

/-- A compiled pair that was written to two places is read back as it was and can be removed,
unless the clear-state listing was first written where the approval listing is: then there is no
approval listing any more, and nothing can be read. The clear-state listing is there either way. -/
theorem read_back_of_write {program : Program} (hc : program.compile = .ok p)
    {paths : String × String} (hw : outcome (c.write p) s = (.ok paths, s'))
    (hd : c.Apart s'.tree) :
    paths = (c.approvalPath, c.clearPath) ∧
    s'.tree.read (.ofString c.clearPath) = .ok p.clearState ∧
    (¬ c.Overwrites s'.tree → c.RoundTrip p s') ∧
    (c.Overwrites s'.tree →
      s'.tree.read (.ofString c.approvalPath) = .error .notFound ∧
      outcome c.read s' = (.error .io, s')) := by
  obtain ⟨hpaths, t, a, b, a', b', h, h'⟩ := stored_of_write hw
  refine ⟨hpaths, FileTree.read_file h'.placed h'.noSlash h'.holds, roundTrip_of_write hc hw hd,
    fun ho => ?_⟩
  obtain ⟨hp, hgone⟩ := gone_of_stored h h' hd ho
  refine ⟨FileTree.read_gone hp hgone, ?_⟩
  unfold ArtifactConfig.read
  rw [outcome_bind, outcome_readText_gone hp hgone]

/-! ### Two configurations -/

/-- A program that approves every call. -/
def approving : Program := Template.approve.program 6

/-- The clear-state listing of this configuration is written under the name of the other one. -/
def overwriting : ArtifactConfig where
  approvalFile := "clear.teal.tmp"

/-- Writing tells of two listings, and one of them is lost. -/
theorem overwriting_loses_approval :
    approving.compile = .ok approving.listings ∧
    (outcome (overwriting.write approving.listings) {}).1 =
      .ok ("./clear.teal.tmp", "./clear.teal") ∧
    overwriting.Apart (outcome (overwriting.write approving.listings) {}).2.tree ∧
    (outcome overwriting.read (outcome (overwriting.write approving.listings) {}).2).1 =
      .error .io := by
  refine ⟨rfl, ?_, ?_, ?_⟩ <;> decide +kernel

/-- Under the default names nothing is lost. -/
theorem read_back_of_write_default :
    let written := outcome (({} : ArtifactConfig).write approving.listings) {}
    written.1 = .ok ("./approval.teal", "./clear.teal") ∧
      outcome ({} : ArtifactConfig).read written.2 = (.ok approving.listings, written.2) ∧
      (outcome ({} : ArtifactConfig).clean written.2).1 = .ok 2 := by
  intro written
  have hcompile : approving.compile = .ok approving.listings := rfl
  have hok : written.1 = .ok ("./approval.teal", "./clear.teal") := by decide +kernel
  have hapart : ({} : ArtifactConfig).Apart written.2.tree := by decide +kernel
  have hfree : ¬ ({} : ArtifactConfig).Overwrites written.2.tree := by decide +kernel
  obtain ⟨-, -, hkept, -⟩ :=
    read_back_of_write hcompile (Prod.ext hok rfl) hapart
  obtain ⟨s'', hclean, -⟩ := (hkept hfree).clean
  exact ⟨hok, (hkept hfree).read, congrArg Prod.fst hclean⟩

end ArtifactConfig

end ContractBench
