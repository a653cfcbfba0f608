import ContractBench.Proofs.Assembly.Source
import Mathlib.Algebra.Group.Nat.Even
import Mathlib.Data.List.Basic
import Mathlib.Data.List.Induction
import Mathlib.Data.List.TakeWhile
/-!
# What counts of a text

Line by line a text comes down to its contents (`Source.contents`): what is left of each line without
its comment and outer white space, where something is left. Cut at a line feed, a text has the contents
of both parts, and white space at its ends adds nothing, nor does a comment behind closed quotes:

    contents (a ++ '\n' :: b) = contents a ++ contents b                  (contents_append_feed)
    (∀ c ∈ ws, isBlank c) → contents (ws ++ cs) = contents cs            (contents_blanks_append)
    (∀ c ∈ ws, isBlank c) → contents (cs ++ ws) = contents cs            (contents_append_blanks)
    Even ((dropComment false l).count '"') →
      contents (l ++ ' ' :: '/' :: '/' :: cs) = contents l                     (contents_comment)
-/

namespace ContractBench

namespace Text

/-! ## White space at the ends -/

theorem trim_cons {c : Char} (hc : isBlank c = true) (cs : List Char) : trim (c :: cs) = trim cs := by
  rw [trim, List.dropWhile_cons_of_pos hc, trim]

theorem trim_concat {c : Char} (hc : isBlank c = true) (cs : List Char) :
    trim (cs ++ [c]) = trim cs := by
  unfold trim
  rw [List.dropWhile_append]
  split
  · next hall =>
    rw [List.isEmpty_iff] at hall
    rw [hall, List.dropWhile_cons_of_pos hc]
    rfl
  · rw [List.reverse_append, List.reverse_singleton, List.singleton_append,
      List.dropWhile_cons_of_pos hc]

/-- Behind text without outer white space, trimming takes from the end only. -/
theorem exists_trim_append {w : List Char} (hne : w ≠ [])
    (hhead : ∀ c, w.head? = some c → isBlank c = false)
    (hlast : ∀ c, w.getLast? = some c → isBlank c = false) (r : List Char) :
    ∃ s, trim (w ++ r) = w ++ s ∧ trim s = trim r := by
  induction r using List.reverseRecOn with
  | nil => exact ⟨[], by rw [List.append_nil, trim_of_ends hhead hlast], rfl⟩
  | append_singleton r c ih =>
    by_cases hc : isBlank c = true
    · obtain ⟨s, hs, ht⟩ := ih
      exact ⟨s, by rw [← List.append_assoc, trim_concat hc, hs], by rw [trim_concat hc, ht]⟩
    · refine ⟨r ++ [c], trim_of_ends (fun d hd => hhead d ?_) (fun d hd => ?_), rfl⟩
      · rwa [List.head?_append_of_ne_nil _ hne] at hd
      · rw [← List.append_assoc, List.getLast?_concat] at hd
        cases hd
        exact Bool.not_eq_true _ ▸ hc

theorem mem_dropWhile_isBlank {c : Char} (hc : isBlank c = false) {cs : List Char} (h : c ∈ cs) :
    c ∈ cs.dropWhile isBlank := by
  rw [← List.takeWhile_append_dropWhile (p := isBlank) (l := cs), List.mem_append] at h
  rcases h with h | h
  · rw [List.mem_takeWhile_imp h] at hc
    cases hc
  · exact h

theorem mem_trim {c : Char} (hc : isBlank c = false) {cs : List Char} (h : c ∈ cs) :
    c ∈ trim cs := by
  unfold trim
  exact List.mem_reverse.2 (mem_dropWhile_isBlank hc
    (List.mem_reverse.2 (mem_dropWhile_isBlank hc h)))

end Text

namespace Source

open Text

/-! ## Algorithm -/

/-- What is left of lines without comments and outer white space, where something is left. -/
def contentsOf (lines : List (List Char)) : List (List Char) :=
  (lines.map content).filter fun cs => !cs.isEmpty

/-- What counts of the lines of a text. -/
def contents (text : List Char) : List (List Char) := contentsOf (Text.lines text)

/-- Whether a quote is open behind some text. -/
def quotedBehind (quoted : Bool) (cs : List Char) : Bool :=
  cs.foldl (fun q c => if c = '"' then !q else q) quoted

/-! ## Lemmas -/

/-! ### Comments -/

/-- Quotes come in pairs where none is open. -/
theorem quotedBehind_eq (quoted : Bool) (cs : List Char) :
    quotedBehind quoted cs = if Even (cs.count '"') then quoted else !quoted := by
  induction cs generalizing quoted with
  | nil => rfl
  | cons c cs ih =>
    have hstep : quotedBehind quoted (c :: cs) =
        quotedBehind (if c = '"' then !quoted else quoted) cs := rfl
    rw [hstep, ih]
    by_cases hc : c = '"'
    · subst hc
      rw [List.count_cons_self, if_pos rfl]
      by_cases he : Even (cs.count '"') <;> simp [he, Nat.even_add_one]
    · rw [List.count_cons_of_ne hc, if_neg hc]

/-- Text behind a line does not touch what the line had in front of a comment. If the line had none,
the text counts as it does behind the quotes of the line. -/
theorem dropComment_behind {rest : List Char} (h : rest.head? ≠ some '/') (quoted : Bool)
    (l : List Char) :
    dropComment quoted (l ++ rest) = dropComment quoted l ∨
      dropComment quoted l = l ∧
        dropComment quoted (l ++ rest) = l ++ dropComment (quotedBehind quoted l) rest := by
  induction l generalizing quoted with
  | nil => exact .inr ⟨rfl, rfl⟩
  | cons c cs ih =>
    -- a slash at the end of the line starts no comment with what follows
    have hhead : ((cs ++ rest).head? == some '/') = (cs.head? == some '/') := by
      cases cs with
      | nil => simpa using h
      | cons d ds => rfl
    rw [List.cons_append, dropComment, dropComment, hhead]
    split
    · exact .inl rfl
    · rcases ih (if c = '"' then !quoted else quoted) with he | ⟨hl, he⟩
      · exact .inl (congrArg _ he)
      · exact .inr ⟨congrArg _ hl, congrArg _ he⟩

/-! ### Lines -/

theorem ne_of_isBlank {c d : Char} (hc : isBlank c = true) (hd : isBlank d = false) : c ≠ d := by
  rintro rfl
  rw [hd] at hc
  cases hc

theorem content_cons {c : Char} (hc : isBlank c = true) (l : List Char) :
    content (c :: l) = content l := by
  have hplain : ∀ d ∈ [c], d ≠ '/' ∧ d ≠ '"' :=
    List.forall_mem_singleton.2 ⟨ne_of_isBlank hc (by decide), ne_of_isBlank hc (by decide)⟩
  unfold content
  rw [← List.singleton_append, dropComment_append hplain]
  exact trim_cons hc _

theorem content_concat {c : Char} (hc : isBlank c = true) (l : List Char) :
    content (l ++ [c]) = content l := by
  have hslash : [c].head? ≠ some '/' := by
    simpa using ne_of_isBlank hc (by decide : isBlank '/' = false)
  unfold content
  rcases dropComment_behind hslash false l with he | ⟨hl, he⟩
  · rw [he]
  · rw [he, hl]
    have hend : ∀ quoted, dropComment quoted [c] = [c] := by simp [dropComment]
    rw [hend, trim_concat hc]

/-- A comment behind closed quotes adds nothing. -/
theorem content_comment {l : List Char} (h : Even ((dropComment false l).count '"'))
    (cs : List Char) : content (l ++ ' ' :: '/' :: '/' :: cs) = content l := by
  have hslash : (' ' :: '/' :: '/' :: cs).head? ≠ some '/' := by simp
  unfold content
  rcases dropComment_behind hslash false l with he | ⟨hl, he⟩
  · rw [he]
  · rw [hl] at h
    have hcut : dropComment false (' ' :: '/' :: '/' :: cs) = [' '] := by simp [dropComment]
    rw [he, hl, quotedBehind_eq, if_pos h, hcut, trim_concat (by decide)]

/-! ### Texts -/

theorem contentsOf_cons (l : List Char) (ls : List (List Char)) :
    contentsOf (l :: ls) = contentsOf [l] ++ contentsOf ls :=
  (congrArg (List.filter _) (List.map_cons)).trans (List.filter_append [content l] _)

theorem contentsOf_congr {l l' : List Char} (h : content l = content l') :
    contentsOf [l] = contentsOf [l'] := by
  unfold contentsOf
  rw [List.map_singleton, List.map_singleton, h]

/-- The lines that count are numbered as they come. -/
theorem map_snd_numbered (n : Nat) (ls : List (List Char)) :
    (numbered n ls).map Prod.snd = contentsOf ls := by
  induction ls generalizing n with
  | nil => rfl
  | cons l ls ih =>
    unfold numbered contentsOf
    rw [List.map_cons, List.filter_cons]
    cases (content l).isEmpty with
    | true => exact ih (n + 1)
    | false => exact congrArg (content l :: ·) (ih (n + 1))

/-- A line counts as well with the carriage return of its end. -/
theorem contentsOf_dropReturn (piece : List Char) :
    contentsOf [(dropReturn piece).reverse] = contentsOf [piece.reverse] := by
  unfold dropReturn
  split
  · next cs =>
    rw [List.reverse_cons]
    exact contentsOf_congr (content_concat (by decide) _).symm
  · rfl

theorem contentsOf_linesFrom_nil (piece : List Char) :
    contentsOf (linesFrom piece []) = contentsOf [piece.reverse] := by
  cases piece <;> rfl

/-- A line feed cuts a text in two. -/
theorem contentsOf_linesFrom_append (piece a b : List Char) :
    contentsOf (linesFrom piece (a ++ '\n' :: b)) =
      contentsOf (linesFrom piece a) ++ contents b := by
  induction a generalizing piece with
  | nil =>
    have hcut : linesFrom piece ('\n' :: b) = (dropReturn piece).reverse :: lines b :=
      linesFrom_append piece [] b List.not_mem_nil
    rw [List.nil_append, hcut, contentsOf_cons, contentsOf_dropReturn, contentsOf_linesFrom_nil]
    rfl
  | cons c a ih =>
    rw [List.cons_append, linesFrom, linesFrom]
    split
    · rw [contentsOf_cons, ih, ← List.append_assoc, ← contentsOf_cons]
    · exact ih _

theorem contents_append_feed (a b : List Char) :
    contents (a ++ '\n' :: b) = contents a ++ contents b := contentsOf_linesFrom_append [] a b

/-- A text without line feeds counts as one line. -/
theorem contents_line {l : List Char} (h : '\n' ∉ l) : contents l = contentsOf [l] := by
  have hlines : ∀ piece, linesFrom piece l = linesFrom (l.reverse ++ piece) [] := by
    induction l with
    | nil => exact fun _ => rfl
    | cons c l ih =>
      rw [List.mem_cons, not_or] at h
      intro piece
      have hgo : linesFrom piece (c :: l) = linesFrom (c :: piece) l := if_neg (Ne.symm h.1)
      rw [hgo, ih h.2, List.reverse_cons, List.append_assoc]
      rfl
  rw [contents, lines, hlines, contentsOf_linesFrom_nil, List.append_nil, List.reverse_reverse]

/-! ### White space around texts -/

theorem contents_cons {c : Char} (hc : isBlank c = true) (cs : List Char) :
    contents (c :: cs) = contents cs := by
  by_cases hfeed : c = '\n'
  · subst hfeed
    exact contents_append_feed [] cs
  · have hline : ∀ l, '\n' ∉ l → contents (c :: l) = contents l := by
      intro l hl
      have hcl : '\n' ∉ c :: l := fun hm => (List.mem_cons.1 hm).elim (hfeed ·.symm) hl
      rw [contents_line hcl, contents_line hl, contentsOf_congr (content_cons hc l)]
    by_cases hmem : '\n' ∈ cs
    · obtain ⟨l, rest, rfl, hl⟩ := List.eq_append_cons_of_mem hmem
      rw [← List.cons_append, contents_append_feed, contents_append_feed, hline l hl]
    · exact hline cs hmem

theorem contentsOf_linesFrom_concat {c : Char} (hc : isBlank c = true) (piece cs : List Char) :
    contentsOf (linesFrom piece (cs ++ [c])) = contentsOf (linesFrom piece cs) := by
  induction cs generalizing piece with
  | nil =>
    rw [List.nil_append, contentsOf_linesFrom_nil, linesFrom]
    split
    · exact (contentsOf_cons _ _).trans ((List.append_nil _).trans (contentsOf_dropReturn piece))
    · rw [contentsOf_linesFrom_nil, List.reverse_cons]
      exact contentsOf_congr (content_concat hc _)
  | cons d cs ih =>
    rw [List.cons_append, linesFrom, linesFrom]
    split
    · rw [contentsOf_cons, ih, ← contentsOf_cons]
    · exact ih _

/-- White space in front of a text, line feeds in it or not, adds nothing. -/
theorem contents_blanks_append {ws : List Char} (h : ∀ c ∈ ws, isBlank c = true) (cs : List Char) :
    contents (ws ++ cs) = contents cs := by
  induction ws with
  | nil => rfl
  | cons c ws ih =>
    rw [List.forall_mem_cons] at h
    rw [List.cons_append, contents_cons h.1, ih h.2]

/-- White space behind a text adds nothing. -/
theorem contents_append_blanks {ws : List Char} (h : ∀ c ∈ ws, isBlank c = true) (cs : List Char) :
    contents (cs ++ ws) = contents cs := by
  induction ws generalizing cs with
  | nil => rw [List.append_nil]
  | cons c ws ih =>
    rw [List.forall_mem_cons] at h
    rw [List.append_cons, ih h.2]
    exact contentsOf_linesFrom_concat h.1 [] cs

theorem contents_blanks {ws : List Char} (h : ∀ c ∈ ws, isBlank c = true) : contents ws = [] := by
  have hws := contents_blanks_append h []
  rwa [List.append_nil] at hws

/-- A comment behind closed quotes of a line adds nothing. -/
theorem contents_comment {l cs : List Char} (hl : '\n' ∉ l)
    (h : Even ((dropComment false l).count '"')) (hcs : '\n' ∉ cs) :
    contents (l ++ ' ' :: '/' :: '/' :: cs) = contents l := by
  have hall : '\n' ∉ l ++ ' ' :: '/' :: '/' :: cs := by simp [hl, hcs]
  rw [contents_line hall, contents_line hl, contentsOf_congr (content_comment h cs)]

end Source

end ContractBench
