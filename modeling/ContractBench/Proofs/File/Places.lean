import ContractBench.File.Tree.Lemmas
import ContractBench.Success
/-!
# The place of a path

The place of a path is the directory it leads to and its last name, if that is a proper name
(`FileTree.locate?`). What an operation does to a path depends on the entry at its place only, and
a tree that keeps the directories keeps the places:

    t.locate? p = some l → t.place p = .ok (l, t.find? l)                  (place_of_locate?)
    t.Keeps t' → t.locate? p = some l → t'.locate? p = some l              (Keeps.locate?)
-/

namespace ContractBench.FileTree

open Success

variable {t t' : FileTree} {p : FilePath} {l : Location}

/-! ## Algorithm -/

/-- The place of a path, taken or free; none if its last name is no proper one. -/
def locate? (t : FileTree) (p : FilePath) : Option Location :=
  match t.resolve p with
  | .ok (dir, some name) =>
    if FilePath.isDots name || maxNameBytes < name.utf8ByteSize then none else some (dir ++ [name])
  | _ => none

/-! ## Lemmas -/

/-- A proper name stands for what is below a directory. -/
theorem child_of_name {name : String} (hd : FilePath.isDots name = false)
    (hs : name.utf8ByteSize ≤ maxNameBytes) (t : FileTree) (dir : Location) :
    t.child dir name =
      match t.find? (dir ++ [name]) with
      | some e => .ok (dir ++ [name], e)
      | none => .error .notFound := by
  rw [FilePath.isDots, Bool.or_eq_false_iff] at hd
  have hlen : ¬ maxNameBytes < name.utf8ByteSize := Nat.not_lt.2 hs
  cases hf : t.find? (dir ++ [name]) with
  | none => simp only [child, hd.1, hd.2, hlen, hf, Bool.false_eq_true, if_false]
  | some e => simp only [child, hd.1, hd.2, hlen, hf, Bool.false_eq_true, if_false]

theorem resolve_of_locate? (h : t.locate? p = some l) :
    ∃ dir name, t.resolve p = .ok (dir, some name) ∧ FilePath.isDots name = false ∧
      name.utf8ByteSize ≤ maxNameBytes ∧ l = dir ++ [name] := by
  unfold locate? at h
  split at h
  · next dir name hr =>
    split at h
    · cases h
    · next hn =>
      cases h
      simp only [Bool.or_eq_true, decide_eq_true_eq, not_or, Bool.not_eq_true, Nat.not_lt] at hn
      exact ⟨dir, name, hr, hn.1, hn.2, rfl⟩
  · cases h

theorem ne_nil_of_locate? (h : t.locate? p = some l) : l ≠ [] := by
  obtain ⟨dir, name, -, -, -, rfl⟩ := resolve_of_locate? h
  simp

theorem Keeps.locate? (hk : t.Keeps t') (h : t.locate? p = some l) : t'.locate? p = some l := by
  unfold FileTree.locate? at h ⊢
  split at h
  · next dir name hr =>
    rw [hk.resolve hr]
    exact h
  · cases h

theorem place_of_locate? (h : t.locate? p = some l) : t.place p = .ok (l, t.find? l) := by
  obtain ⟨dir, name, hr, hd, hs, rfl⟩ := resolve_of_locate? h
  have hc := child_of_name hd hs t dir
  unfold place
  rw [hr]
  cases he : t.find? (dir ++ [name]) with
  | none =>
    rw [he] at hc
    simp only [bind, Except.bind, hd, Bool.false_eq_true, if_false, hc]
    rfl
  | some e =>
    rw [he] at hc
    simp only [bind, Except.bind, hd, Bool.false_eq_true, if_false, hc]
    rfl

theorem locate?_of_place {e : Option FileEntry} (hp : t.place p = .ok (l, e)) :
    t.locate? p = some l ∧ t.find? l = e := by
  obtain ⟨⟨dir, last⟩, hr, h⟩ := bind_eq_ok.1 hp
  cases last with
  | none => cases h
  | some name =>
    by_cases hd : FilePath.isDots name = true
    · simp only [hd, if_true] at h
      cases h
    by_cases hs : maxNameBytes < name.utf8ByteSize
    · have h1 : (name == ".") = false := by simp_all [FilePath.isDots]
      have h2 : (name == "..") = false := by simp_all [FilePath.isDots]
      simp only [hd, child, h1, h2, hs, Bool.false_eq_true, if_true, if_false] at h
      cases h
    have hl : t.locate? p = some (dir ++ [name]) := by
      unfold locate?
      rw [hr]
      simp [hd, hs]
    rw [place_of_locate? hl] at hp
    cases hp
    exact ⟨hl, rfl⟩

/-! ### Reading -/

theorem lookup_of_locate? (h : t.locate? p = some l) :
    t.lookup p =
      match t.find? l with
      | none => .error .notFound
      | some .dir => .ok (l, .dir)
      | some (.file text) => if p.slash then .error .refused else .ok (l, .file text) := by
  obtain ⟨dir, name, hr, hd, hs, rfl⟩ := resolve_of_locate? h
  have hc := child_of_name hd hs t dir
  unfold lookup
  rw [hr]
  cases he : t.find? (dir ++ [name]) with
  | none =>
    rw [he] at hc
    simp only [bind, Except.bind, hc]
  | some e =>
    rw [he] at hc
    simp only [bind, Except.bind, hc]
    cases e <;> rfl

theorem read_file {text : String} (h : t.locate? p = some l) (hs : p.slash = false)
    (hf : t.find? l = some (.file text)) : t.read p = .ok text := by
  have hl := lookup_of_locate? h
  simp only [hf, hs] at hl
  unfold read
  rw [hl]
  rfl

theorem read_gone (h : t.locate? p = some l) (hf : t.find? l = none) :
    t.read p = .error .notFound := by
  have hl := lookup_of_locate? h
  simp only [hf] at hl
  unfold read
  rw [hl]
  rfl

/-! ### Changes -/

theorem makeDir_eq_ok (h : t.makeDir p = .ok t') :
    ∃ l, l ≠ [] ∧ t.find? l = none ∧ t' = t.set l .dir := by
  obtain ⟨⟨l, e⟩, hp, h⟩ := bind_eq_ok.1 h
  obtain ⟨hl, he⟩ := locate?_of_place hp
  cases e with
  | none =>
    cases h
    exact ⟨l, ne_nil_of_locate? hl, he, rfl⟩
  | some e => cases h

theorem write_eq_ok {text : String} (h : t.write p text = .ok t') :
    ∃ l, t.locate? p = some l ∧ t.find? l ≠ some .dir ∧ p.slash = false ∧
      t' = t.set l (.file text) := by
  obtain ⟨⟨l, e⟩, hp, h⟩ := bind_eq_ok.1 h
  obtain ⟨hl, he⟩ := locate?_of_place hp
  have hne : e ≠ some .dir := by
    rintro rfl
    cases h
  have hfile : (if p.slash then .error .refused else .ok (t.set l (.file text))) =
      (.ok t' : Except FileError FileTree) := by
    rcases e with _ | (_ | _)
    · exact h
    · exact h
    · cases h
  split at hfile
  · cases hfile
  · next hs =>
    cases hfile
    exact ⟨l, hl, he ▸ hne, by simpa using hs, rfl⟩

theorem move_eq_ok {source target : FilePath} (h : t.move source target = .ok t') :
    ∃ l text l', t.lookup source = .ok (l, .file text) ∧ t.locate? target = some l' ∧
      t.find? l' ≠ some .dir ∧ target.slash = false ∧
      t' = (t.without l).set l' (.file text) := by
  obtain ⟨⟨l, e⟩, hs, h⟩ := bind_eq_ok.1 h
  obtain ⟨⟨l', e'⟩, hp, h⟩ := bind_eq_ok.1 h
  obtain ⟨hl, he⟩ := locate?_of_place hp
  cases e with
  | dir => cases h
  | file text =>
    have hne : e' ≠ some .dir := by
      rintro rfl
      cases h
    have hmove : (if target.slash then .error .refused
        else .ok ((t.without l).set l' (.file text))) = (.ok t' : Except FileError FileTree) := by
      rcases e' with _ | (_ | _)
      · exact h
      · exact h
      · cases h
    split at hmove
    · cases hmove
    · next hslash =>
      cases hmove
      exact ⟨l, text, l', hs, hl, he ▸ hne, by simpa using hslash, rfl⟩

theorem remove_file {text : String} (h : t.locate? p = some l) (hs : p.slash = false)
    (hf : t.find? l = some (.file text)) : t.remove p = .ok (t.without l) := by
  have hp := place_of_locate? h
  rw [hf] at hp
  unfold remove
  rw [hp]
  simp only [bind, Except.bind, hs]
  rfl

end ContractBench.FileTree
