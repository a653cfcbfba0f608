import ContractBench.Proofs.File.Places
/-!
# File names below a directory

A file name behind a directory, whatever that is called, is the last piece of the path, so it is
the name the path ends with, read by itself or followed through a tree:

    (ofString (join dir name)).pieces = pieces ++ [name]                   (exists_pieces_join)
    (ofString (join dir name)).fileName? = some name                       (fileName?_join)
    t.locate? p = some l → p.names.getLast? = l.getLast?                   (getLast?_of_locate?)
-/

namespace ContractBench

namespace FilePath

/-- A name that can stand for a file in every directory. -/
structure IsName (name : String) : Prop where
  nonempty : name ≠ ""
  noSlash : '/' ∉ name.toList
  noDots : isDots name = false

variable {name : String}

/-! ## Pieces -/

theorem split_ne_nil (cs : List Char) : split cs ≠ [] := by
  cases cs with
  | nil => nofun
  | cons c cs =>
    unfold split
    split
    · nofun
    · split <;> nofun

theorem split_slash (cs : List Char) : split ('/' :: cs) = [] :: split cs := by
  obtain ⟨p, ps, hp⟩ := List.exists_cons_of_ne_nil (split_ne_nil cs)
  rw [split, hp]
  rfl

theorem split_char {c : Char} {cs p : List Char} {ps : List (List Char)} (hc : c ≠ '/')
    (hp : split cs = p :: ps) : split (c :: cs) = (c :: p) :: ps := by
  rw [split, hp]
  exact if_neg hc

/-- A slash cuts a text in two. -/
theorem split_append (cs ds : List Char) : split (cs ++ '/' :: ds) = split cs ++ split ds := by
  induction cs with
  | nil => exact split_slash ds
  | cons c cs ih =>
    by_cases hc : c = '/'
    · rw [hc, List.cons_append, split_slash, split_slash, ih, List.cons_append]
    · obtain ⟨p, ps, hp⟩ := List.exists_cons_of_ne_nil (split_ne_nil cs)
      rw [hp, List.cons_append] at ih
      rw [List.cons_append, split_char hc ih, split_char hc hp, List.cons_append]

theorem split_of_noSlash {cs : List Char} (h : '/' ∉ cs) : split cs = [cs] := by
  induction cs with
  | nil => rfl
  | cons c cs ih =>
    rw [List.mem_cons, not_or] at h
    exact split_char (Ne.symm h.1) (ih h.2)

theorem exists_pieces_of_toList {s : String} {cs : List Char} (h : '/' ∉ name.toList)
    (hs : s.toList = cs ++ '/' :: name.toList) : ∃ ps, (ofString s).pieces = ps ++ [name] := by
  have hsplit : ∀ ds, (split (ds ++ '/' :: name.toList)).map String.ofList =
      (split ds).map String.ofList ++ [name] := by
    intro ds
    rw [split_append, split_of_noSlash h, List.map_append, List.map_singleton, String.ofList_toList]
  unfold ofString
  rw [hs]
  cases cs with
  | nil =>
    refine ⟨[], ?_⟩
    change (split name.toList).map String.ofList = [name]
    rw [split_of_noSlash h, List.map_singleton, String.ofList_toList]
  | cons c cs =>
    split
    · next ds hds =>
      cases hds
      exact ⟨_, hsplit cs⟩
    · exact ⟨_, hsplit (c :: cs)⟩

theorem exists_pieces_join (dir : String) (h : IsName name) :
    ∃ ps, (ofString (join dir name)).pieces = ps ++ [name] := by
  have hhead : (name.toList.head? == some '/') = false := by
    rw [beq_eq_false_iff_ne]
    exact fun hh => h.noSlash (List.mem_of_mem_head? hh)
  unfold join
  rw [hhead, if_neg Bool.false_ne_true]
  split
  · next hdir =>
    rcases (Bool.or_eq_true _ _).mp hdir with he | hl
    · refine ⟨[], ?_⟩
      rw [String.isEmpty_iff.1 he, String.empty_append]
      unfold ofString
      split
      · next ds hds => exact absurd (hds ▸ List.mem_cons_self) h.noSlash
      · rw [split_of_noSlash h.noSlash, List.map_singleton, String.ofList_toList]
        rfl
    · obtain ⟨ds, hds⟩ := List.getLast?_eq_some_iff.1 (eq_of_beq hl)
      refine exists_pieces_of_toList h.noSlash (?_ : _ = ds ++ '/' :: name.toList)
      rw [String.toList_append, hds, List.append_assoc]
      rfl
  · refine exists_pieces_of_toList h.noSlash (?_ : _ = dir.toList ++ '/' :: name.toList)
    rw [String.toList_append, String.toList_append, List.append_assoc]
    rfl

/-! ## Last names -/

theorem getLast?_names {p : FilePath} {ps : List String} (h : name ≠ "")
    (hp : p.pieces = ps ++ [name]) : p.names.getLast? = some name := by
  have hname : [name].filter (· != "") = [name] := by simp [h]
  rw [names, hp, List.filter_append, hname, List.getLast?_concat]

theorem getLast?_names_withName (p : FilePath) (h : name ≠ "") :
    (p.withName name).names.getLast? = some name :=
  getLast?_names h rfl

theorem fileName?_join (dir : String) (h : IsName name) :
    (ofString (join dir name)).fileName? = some name := by
  obtain ⟨ps, hp⟩ := exists_pieces_join dir h
  have hdot : name ≠ "." := by
    rintro rfl
    exact absurd h.noDots (by decide)
  unfold fileName? components marks
  rw [hp, List.zipIdx_append, List.filter_append, List.map_append]
  simp [h.nonempty, hdot, h.noDots]

end FilePath

/-! ## Places -/

/-- The place of a path ends with its last name. -/
theorem FileTree.getLast?_of_locate? {t : FileTree} {p : FilePath} {l : Location}
    (h : t.locate? p = some l) : p.names.getLast? = l.getLast? := by
  obtain ⟨dir, name, hr, -, -, rfl⟩ := resolve_of_locate? h
  rw [List.getLast?_concat]
  obtain ⟨u, -, hr⟩ := Success.bind_eq_ok.1 hr
  dsimp only at hr
  split at hr
  · split at hr <;> cases hr
  · next last hl =>
    obtain ⟨d, -, hr⟩ := Success.bind_eq_ok.1 hr
    cases hr
    exact hl

end ContractBench
