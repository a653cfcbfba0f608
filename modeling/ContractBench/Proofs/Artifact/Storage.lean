import ContractBench.Artifact.Storage
import ContractBench.Proofs.File.Places
/-!
# Where a stored text goes

Making directories adds entries and changes none (`FileTree.Grows`). A text that is stored is first
written beside its place and then moved there: afterwards its place holds it, nothing is left
beside it, and all other entries are as they were (`Storage.Stored`):

    outcome (writeText path text) s = (.ok (), s') →
      ∃ place beside, Stored path text s.tree s'.tree place beside          (stored_of_writeText)

The file beside the place is an entry like others: what was there before is gone.
-/

namespace ContractBench

open Success

/-! ## Algorithm -/

/-- A tree with the entries of another. -/
structure FileTree.Grows (t t' : FileTree) : Prop where
  cwd : t'.cwd = t.cwd
  entries : ∀ l e, t.find? l = some e → t'.find? l = some e

namespace Session

/-- The result of storage work in a session, and the session afterwards. -/
def outcome {α : Type} (x : ExceptT StorageError (StateM Session) α) (s : Session) :
    Except StorageError α × Session :=
  x.run.run s

/-- A computation after which all entries are as before. -/
def Growing {α : Type} (x : StateM Session α) : Prop :=
  ∀ s : Session, s.tree.Grows (x.run s).2.tree

end Session

namespace Storage

/-- The path of a text while it is written. -/
def tempPath (path : String) : FilePath :=
  (FilePath.ofString path).withName (tempName ((FilePath.ofString path).fileName?.getD ""))

/-- What storing a text does to a tree, from the place of its path and the place beside it. -/
structure Stored (path text : String) (t t' : FileTree) (place beside : Location) : Prop where
  keeps : t.Keeps t'
  placed : t'.locate? (.ofString path) = some place
  besides : t'.locate? (tempPath path) = some beside
  noSlash : (FilePath.ofString path).slash = false
  holds : t'.find? place = some (.file text)
  gone : beside ≠ place → t'.find? beside = none
  others : ∀ l e, l ≠ place → l ≠ beside → t.find? l = some e → t'.find? l = some e

end Storage

/-! ## Lemmas -/

namespace FileTree.Grows

variable {t t' t'' : FileTree}

theorem refl (t : FileTree) : t.Grows t := ⟨rfl, fun _ _ h => h⟩

theorem trans (h : t.Grows t') (h' : t'.Grows t'') : t.Grows t'' :=
  ⟨h'.cwd.trans h.cwd, fun l e hl => h'.entries l e (h.entries l e hl)⟩

theorem keeps (h : t.Grows t') : t.Keeps t' :=
  ⟨h.cwd, fun l hl => h.entries l .dir hl⟩

/-- A new entry changes no other. -/
theorem set {l : Location} {e : FileEntry} (hl : t.find? l = none) : t.Grows (t.set l e) := by
  refine ⟨rfl, fun l' e' h => ?_⟩
  have hne : l' ≠ l := by
    rintro rfl
    rw [hl] at h
    cases h
  rw [find?_set t _ hne]
  exact h

end FileTree.Grows

/-! ### Directories -/

namespace Session

namespace Growing

variable {α β : Type}

theorem pure (a : α) : Growing (pure a) := fun s => .refl s.tree

theorem bind {x : StateM Session α} {f : α → StateM Session β} (hx : Growing x)
    (hf : ∀ a, Growing (f a)) : Growing (x >>= f) :=
  fun s => (hx s).trans (hf (x.run s).1 (x.run s).2)

theorem makeDir (p : FilePath) : Growing (FileSystem.makeDir p) := by
  intro s
  change s.tree.Grows (change (·.makeDir p) s).2.tree
  unfold change
  split
  · next t ht =>
    obtain ⟨l, -, hl, rfl⟩ := FileTree.makeDir_eq_ok ht
    exact .set hl
  · exact .refl s.tree

theorem isDir (p : FilePath) : Growing (FileSystem.isDir p) := fun s => .refl s.tree

theorem ensureDir (p : FilePath) : Growing (FileSystem.ensureDir p) := by
  refine (makeDir p).bind fun r => ?_
  cases r with
  | ok u => exact .pure _
  | error e =>
    refine (isDir p).bind fun b => ?_
    cases b <;> exact .pure _

theorem ensureAll (ps : List FilePath) : Growing (FileSystem.ensureAll ps) := by
  induction ps with
  | nil => exact .pure _
  | cons p rest ih =>
    refine (ensureDir p).bind fun r => ?_
    cases r with
    | ok u => exact ih
    | error e => exact .pure _

theorem makeDirs (p : FilePath) : Growing (FileSystem.makeDirs p) := by
  unfold FileSystem.makeDirs
  split
  · exact .pure _
  · refine (makeDir p).bind fun r => ?_
    match r with
    | .ok u => exact .pure _
    | .error .notFound => exact ensureAll _
    | .error .refused =>
      refine (isDir p).bind fun b => ?_
      cases b <;> exact .pure _

end Growing

/-! ### Storage work -/

variable {α β : Type} {s s' : Session}

theorem outcome_lift (x : StateM Session α) (s : Session) :
    outcome (liftM x) s = (.ok (x.run s).1, (x.run s).2) := rfl

theorem outcome_lift_eq_ok {x : StateM Session α} {a : α} :
    outcome (liftM x) s = (.ok a, s') ↔ x.run s = (a, s') := by
  rw [outcome_lift]
  rcases x.run s with ⟨b, s₁⟩
  constructor <;> intro h <;> cases h <;> rfl

theorem outcome_bind (x : ExceptT StorageError (StateM Session) α)
    (f : α → ExceptT StorageError (StateM Session) β) (s : Session) :
    outcome (x >>= f) s =
      match outcome x s with
      | (.ok a, s₁) => outcome (f a) s₁
      | (.error e, s₁) => (.error e, s₁) := by
  unfold outcome
  rw [Success.run_bind]
  rcases x.run.run s with ⟨_ | _, _⟩ <;> rfl

theorem outcome_bind_eq_ok {x : ExceptT StorageError (StateM Session) α}
    {f : α → ExceptT StorageError (StateM Session) β} {b : β} :
    outcome (x >>= f) s = (.ok b, s') ↔
      ∃ a s₁, outcome x s = (.ok a, s₁) ∧ outcome (f a) s₁ = (.ok b, s') := by
  rw [outcome_bind]
  rcases outcome x s with ⟨e | a, s₁⟩
  · constructor
    · intro h
      cases h
    · rintro ⟨a, s₂, h, -⟩
      cases h
  · constructor
    · exact fun h => ⟨a, s₁, rfl, h⟩
    · rintro ⟨a', s₂, h, h'⟩
      cases h
      exact h'

theorem outcome_attempt (op : StateM Session (Except FileError α)) (s : Session) :
    outcome (Storage.attempt op) s =
      match op.run s with
      | (.ok a, s₁) => (.ok a, s₁)
      | (.error _, s₁) => (.error .io, s₁) := by
  unfold Storage.attempt
  rw [outcome_bind, outcome_lift]
  rcases op.run s with ⟨_ | _, _⟩ <;> rfl

theorem outcome_attempt_eq_ok {op : StateM Session (Except FileError α)} {a : α} :
    outcome (Storage.attempt op) s = (.ok a, s') ↔ op.run s = (.ok a, s') := by
  rw [outcome_attempt]
  rcases op.run s with ⟨e | v, s₁⟩
  · constructor <;> intro h <;> cases h
  · constructor <;> intro h <;> cases h <;> rfl

theorem change_eq_ok_iff {op : FileTree → Except FileError FileTree} :
    (change op).run s = (.ok (), s') ↔ ∃ t, op s.tree = .ok t ∧ s' = { s with tree := t } := by
  change change op s = _ ↔ _
  unfold change
  cases op s.tree with
  | ok t =>
    constructor
    · intro h
      cases h
      exact ⟨t, rfl, rfl⟩
    · rintro ⟨_, h, rfl⟩
      cases h
      rfl
  | error e =>
    constructor
    · intro h
      cases h
    · rintro ⟨_, h, -⟩
      cases h

theorem run_read (p : FilePath) (s : Session) :
    StateT.run (FileSystem.read p : StateM Session _) s = (s.tree.read p, s) := rfl

theorem grows_of_makeParents {p : FilePath} (h : outcome (Storage.makeParents p) s = (.ok (), s')) :
    s.tree.Grows s'.tree := by
  unfold Storage.makeParents at h
  split at h
  · next parent _ =>
    rw [outcome_attempt_eq_ok] at h
    have hg := Growing.makeDirs parent s
    rw [h] at hg
    exact hg
  · cases h
    exact .refl s.tree

end Session

/-! ### Storing -/

namespace Storage

open Session

variable {path text : String} {s s' : Session}

/-- The text that was written beside the place is what is moved there. -/
theorem stored_of_move {t t₁ t₂ t' : FileTree} (hg : t.Grows t₁)
    (hw : t₁.write (tempPath path) text = .ok t₂)
    (hm : t₂.move (tempPath path) (.ofString path) = .ok t') :
    ∃ place beside, Stored path text t t' place beside := by
  obtain ⟨beside, hb, hbd, hbs, rfl⟩ := FileTree.write_eq_ok hw
  obtain ⟨l, text', place, hl, hp, hpd, hps, rfl⟩ := FileTree.move_eq_ok hm
  have hbn := FileTree.ne_nil_of_locate? hb
  have hwritten : t₁.Keeps (t₁.set beside (.file text)) := .set_file hbd
  have hbe := t₁.find?_set_self (.file text) hbn
  rw [FileTree.lookup_of_locate? (hwritten.locate? hb)] at hl
  simp only [hbe, hbs] at hl
  cases hl
  have hmoved : (t₁.set beside (.file text)).Keeps
      (((t₁.set beside (.file text)).without beside).set place (.file text)) := by
    refine (FileTree.Keeps.without (l := beside) (by simp [hbe])).trans (.set_file ?_)
    by_cases hpb : place = beside
    · rw [hpb, FileTree.find?_without_self _ hbn]
      nofun
    · rw [FileTree.find?_without _ hpb]
      exact hpd
  refine ⟨place, beside, ⟨(hg.keeps.trans hwritten).trans hmoved, hmoved.locate? hp,
    hmoved.locate? (hwritten.locate? hb), hps, ?_, fun hne => ?_, fun l e hlp hlb he => ?_⟩⟩
  · exact FileTree.find?_set_self _ _ (FileTree.ne_nil_of_locate? hp)
  · rw [FileTree.find?_set _ _ hne, FileTree.find?_without_self _ hbn]
  · rw [FileTree.find?_set _ _ hlp, FileTree.find?_without _ hlb, FileTree.find?_set _ _ hlb]
    exact hg.entries l e he

/-- Storing that succeeds leaves the text at the place of its path. -/
theorem stored_of_writeText (h : outcome (writeText path text) s = (.ok (), s')) :
    ∃ place beside, Stored path text s.tree s'.tree place beside := by
  unfold writeText at h
  obtain ⟨⟨⟩, s₁, hparents, h⟩ := outcome_bind_eq_ok.1 h
  have hg := grows_of_makeParents hparents
  split at h
  · cases h
  · next name hn =>
    obtain ⟨⟨⟩, s₂, hwrite, h⟩ := outcome_bind_eq_ok.1 h
    obtain ⟨t₂, hw, rfl⟩ := change_eq_ok_iff.1 (outcome_attempt_eq_ok.1 hwrite)
    obtain ⟨r, s₃, hmove, h⟩ := outcome_bind_eq_ok.1 h
    cases r with
    | ok u =>
      cases h
      obtain ⟨t', hm, rfl⟩ := change_eq_ok_iff.1 (outcome_lift_eq_ok.1 hmove)
      have htemp : tempPath path = (FilePath.ofString path).withName (tempName name) := by
        unfold tempPath
        rw [hn]
        rfl
      rw [← htemp] at hw hm
      exact stored_of_move hg hw hm
    | error e =>
      obtain ⟨u, s₄, -, h⟩ := outcome_bind_eq_ok.1 h
      cases h

/-! ### Reading and removing -/

/-- A file that is there is read. -/
theorem outcome_readText (h : s.tree.read (.ofString path) = .ok text) :
    outcome (readText path) s = (.ok text, s) :=
  outcome_attempt_eq_ok.2 (by rw [run_read, h])

/-- A file that is gone is an error. -/
theorem outcome_readText_gone {l : Location} (hp : s.tree.locate? (.ofString path) = some l)
    (hf : s.tree.find? l = none) : outcome (readText path) s = (.error .io, s) := by
  unfold readText
  rw [outcome_attempt, run_read, FileTree.read_gone hp hf]

/-- A file that is there is removed. -/
theorem outcome_removeIfExists {l : Location} (hp : s.tree.locate? (.ofString path) = some l)
    (hs : (FilePath.ofString path).slash = false) (hf : s.tree.find? l = some (.file text)) :
    outcome (removeIfExists path) s = (.ok true, { s with tree := s.tree.without l }) := by
  have hc : StateT.run (FileSystem.remove (.ofString path) : StateM Session _) s =
      (.ok (), { s with tree := s.tree.without l }) :=
    change_eq_ok_iff.2 ⟨_, FileTree.remove_file hp hs hf, rfl⟩
  unfold removeIfExists
  rw [outcome_bind, outcome_lift, hc]
  rfl

end Storage

end ContractBench
