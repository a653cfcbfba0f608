import ContractBench.File.Tree
/-!
# What a tree of files keeps

A tree that has all directories of another (`FileTree.Keeps`) has all its ways through directories,
and so its paths lead where they led. A file put where no directory stands, a file taken away and a
new directory all keep them:

    t.Keeps t' → t.descend dir names = .ok d → t'.descend dir names = .ok d     (Keeps.descend)
    t.Keeps t' → t.resolve p = .ok r → t'.resolve p = .ok r                     (Keeps.resolve)
-/

namespace ContractBench.FileTree

/-- A tree with the directories of another. -/
structure Keeps (t t' : FileTree) : Prop where
  cwd : t'.cwd = t.cwd
  dirs : ∀ l, t.find? l = some .dir → t'.find? l = some .dir

/-- The tree without what is at a location. -/
def without (t : FileTree) (l : Location) : FileTree := { t with entries := t.entries.erase l }

/-! ## Entries -/

theorem find?_set (t : FileTree) {l l' : Location} (e : FileEntry) (h : l' ≠ l) :
    (t.set l e).find? l' = t.find? l' := by
  unfold find? set
  rw [SortedMap.get?_insert_of_ne _ _ h]

theorem find?_set_self (t : FileTree) {l : Location} (e : FileEntry) (h : l ≠ []) :
    (t.set l e).find? l = some e := by
  unfold find? set
  simp [h]

theorem find?_without (t : FileTree) {l l' : Location} (h : l' ≠ l) :
    (t.without l).find? l' = t.find? l' := by
  unfold find? without
  rw [SortedMap.get?_erase_of_ne _ h]

theorem find?_without_self (t : FileTree) {l : Location} (h : l ≠ []) :
    (t.without l).find? l = none := by
  unfold find? without
  simp [h]

/-! ## Ways through directories -/

namespace Keeps

variable {t t' t'' : FileTree}

theorem trans (h : t.Keeps t') (h' : t'.Keeps t'') : t.Keeps t'' :=
  ⟨h'.cwd.trans h.cwd, fun l hl => h'.dirs l (h.dirs l hl)⟩

/-- A file in the place of no directory leaves the directories. -/
theorem set_file {l : Location} {text : String} (hl : t.find? l ≠ some .dir) :
    t.Keeps (t.set l (.file text)) := by
  refine ⟨rfl, fun l' h => ?_⟩
  have hne : l' ≠ l := by
    rintro rfl
    exact hl h
  rw [find?_set t _ hne]
  exact h

theorem without {l : Location} (hl : t.find? l ≠ some .dir) : t.Keeps (t.without l) := by
  refine ⟨rfl, fun l' h => ?_⟩
  have hne : l' ≠ l := by
    rintro rfl
    exact hl h
  rw [find?_without t hne]
  exact h

theorem child (h : t.Keeps t') {dir l : Location} {name : String}
    (hc : t.child dir name = .ok (l, .dir)) : t'.child dir name = .ok (l, .dir) := by
  unfold FileTree.child at hc ⊢
  by_cases h1 : (name == ".") = true
  · simpa [h1] using hc
  · by_cases h2 : (name == "..") = true
    · simpa [h1, h2] using hc
    · by_cases h3 : maxNameBytes < name.utf8ByteSize
      · simp [h1, h2, h3] at hc
      · simp only [h1, h2, h3, Bool.false_eq_true, if_false] at hc ⊢
        cases he : t.find? (dir ++ [name]) with
        | none => simp [he] at hc
        | some e =>
          simp only [he, Except.ok.injEq, Prod.mk.injEq] at hc
          obtain ⟨rfl, rfl⟩ := hc
          rw [h.dirs _ he]

theorem descend (h : t.Keeps t') {dir d : Location} {names : List String}
    (hd : t.descend dir names = .ok d) : t'.descend dir names = .ok d := by
  induction names generalizing dir with
  | nil => exact hd
  | cons name rest ih =>
    unfold FileTree.descend at hd ⊢
    cases hc : t.child dir name with
    | error e => simp [hc] at hd
    | ok r =>
      obtain ⟨l, e⟩ := r
      cases e with
      | file s => simp [hc] at hd
      | dir =>
        rw [hc] at hd
        rw [h.child hc]
        exact ih hd

theorem resolve (h : t.Keeps t') {p : FilePath} {r : Location × Option String}
    (hr : t.resolve p = .ok r) : t'.resolve p = .ok r := by
  unfold FileTree.resolve at hr ⊢
  cases hc : checkAskable p with
  | error e => simp [hc, bind, Except.bind] at hr
  | ok u =>
    simp only [hc, bind, Except.bind] at hr ⊢
    cases hn : p.names.getLast? with
    | none => simpa only [hn] using hr
    | some last =>
      simp only [hn] at hr ⊢
      rw [h.cwd]
      cases hd : t.descend (if p.absolute = true then [] else t.cwd) p.names.dropLast with
      | error e => simp [hd] at hr
      | ok d =>
        rw [hd] at hr
        rw [h.descend hd]
        exact hr

end Keeps

end ContractBench.FileTree
