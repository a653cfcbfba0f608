import ContractBench.Assembly.Source
/-!
# Lines that count as they stand

A line without outer white space and without a comment counts as it stands (`Source.Plain`), and a
text made of such lines has them as its lines:

    Text.lines (xs.flatMap (· ++ ['\n'])) = xs                            (lines_flatMap)
    numbered n (x :: xs) = (n, x) :: numbered (n + 1) xs                  (numbered_cons)
-/

namespace ContractBench

namespace Text

/-- What holds of every character of a text is tested one character at a time. -/
theorem forall_mem_of_all {P : Char → Prop} [DecidablePred P] {cs : List Char}
    (h : cs.all (fun c => decide (P c)) = true) : ∀ c ∈ cs, P c :=
  fun c hc => of_decide_eq_true (List.all_eq_true.1 h c hc)

/-! ## White space -/

theorem dropWhile_isBlank_of_head? {cs : List Char}
    (h : ∀ c, cs.head? = some c → isBlank c = false) : cs.dropWhile isBlank = cs := by
  cases cs with
  | nil => rfl
  | cons c cs => simp [h c rfl]

/-- Text that neither starts nor ends with white space loses nothing. -/
theorem trim_of_ends {cs : List Char} (hhead : ∀ c, cs.head? = some c → isBlank c = false)
    (hlast : ∀ c, cs.getLast? = some c → isBlank c = false) : trim cs = cs := by
  have hrev : cs.reverse.dropWhile isBlank = cs.reverse := by
    refine dropWhile_isBlank_of_head? fun c hc => hlast c ?_
    rw [← hc, List.head?_reverse]
  unfold trim
  rw [dropWhile_isBlank_of_head? hhead, hrev, List.reverse_reverse]

theorem splitBlank?_of_none {cs : List Char} (h : ∀ c ∈ cs, isBlank c = false) :
    splitBlank? cs = none := by
  induction cs with
  | nil => rfl
  | cons c cs ih =>
    rw [List.forall_mem_cons] at h
    simp [splitBlank?, h.1, ih h.2]

/-- Text is split behind what has no white space. -/
theorem splitBlank?_append {cs : List Char} (h : ∀ c ∈ cs, isBlank c = false) (rest : List Char) :
    splitBlank? (cs ++ ' ' :: rest) = some (cs, rest) := by
  induction cs with
  | nil => rfl
  | cons c cs ih =>
    rw [List.forall_mem_cons] at h
    simp [splitBlank?, h.1, ih h.2]

/-! ## Lines -/

theorem dropReturn_reverse {l : List Char} (h : l.getLast? ≠ some '\r') :
    dropReturn l.reverse = l.reverse := by
  rw [← List.head?_reverse] at h
  cases hr : l.reverse with
  | nil => rfl
  | cons c cs =>
    rw [hr] at h
    unfold dropReturn
    split
    · next he =>
      cases he
      simp at h
    · rfl

/-- Lines, each with a line feed behind it, are the lines of the text they make. -/
theorem lines_flatMap {xs : List (List Char)}
    (h : ∀ x ∈ xs, '\n' ∉ x ∧ x.getLast? ≠ some '\r') :
    lines (xs.flatMap (· ++ ['\n'])) = xs := by
  induction xs with
  | nil => rfl
  | cons x xs ih =>
    rw [List.forall_mem_cons] at h
    rw [List.flatMap_cons, List.append_assoc, List.singleton_append, lines,
      linesFrom_append _ _ _ h.1.1, ih h.2, List.append_nil, dropReturn_reverse h.1.2,
      List.reverse_reverse]

end Text

namespace Source

open Text

/-! ## Comments -/

/-- Text without slashes and quotes is kept whatever follows it. -/
theorem dropComment_append {cs : List Char} (h : ∀ c ∈ cs, c ≠ '/' ∧ c ≠ '"') (quoted : Bool)
    (rest : List Char) : dropComment quoted (cs ++ rest) = cs ++ dropComment quoted rest := by
  induction cs with
  | nil => rfl
  | cons c cs ih =>
    rw [List.forall_mem_cons] at h
    simp [dropComment, h.1.1, h.1.2, ih h.2]

/-- Text without two slashes in a row is kept, in quotes or not. -/
theorem dropComment_of_no_slashes {cs : List Char} (h : ¬ ['/', '/'] <:+: cs) (quoted : Bool) :
    dropComment quoted cs = cs := by
  induction cs generalizing quoted with
  | nil => rfl
  | cons c cs ih =>
    have hne : ¬ (c = '/' ∧ cs.head? = some '/') := by
      rintro ⟨rfl, hs⟩
      obtain ⟨rest, rfl⟩ := List.head?_eq_some_iff.1 hs
      exact h ⟨[], rest, rfl⟩
    have hrest := ih fun hi => h (List.infix_cons hi)
    rw [dropComment, if_neg, hrest]
    simp only [Bool.and_eq_true, beq_iff_eq, not_and]
    exact fun hc hs => hne ⟨hc.2, hs⟩

/-- Quoted text is kept. -/
theorem dropComment_quoted {cs : List Char} (h : '"' ∉ cs) :
    dropComment true (cs ++ ['"']) = cs ++ ['"'] := by
  induction cs with
  | nil => rfl
  | cons c cs ih =>
    rw [List.mem_cons, not_or] at h
    simp [dropComment, Ne.symm h.1, ih h.2]

/-! ## Plain lines -/

/-- A line that counts as it stands. -/
structure Plain (cs : List Char) : Prop where
  nonempty : cs ≠ []
  noLineFeed : '\n' ∉ cs
  noComment : dropComment false cs = cs
  head : ∀ c, cs.head? = some c → isBlank c = false
  last : ∀ c, cs.getLast? = some c → isBlank c = false

namespace Plain

variable {cs : List Char}

theorem content_eq (h : Plain cs) : content cs = cs := by
  rw [content, h.noComment, trim_of_ends h.head h.last]

theorem noReturn (h : Plain cs) : cs.getLast? ≠ some '\r' := fun hc => by
  have := h.last '\r' hc
  revert this
  decide

/-- A line without white space and without two slashes in a row. -/
theorem of_no_blanks (hne : cs ≠ []) (hb : ∀ c ∈ cs, isBlank c = false)
    (hs : ¬ ['/', '/'] <:+: cs) : Plain cs where
  nonempty := hne
  noLineFeed := fun hn => by
    have := hb '\n' hn
    revert this
    decide
  noComment := dropComment_of_no_slashes hs false
  head := fun c hc => hb c (List.mem_of_head? hc)
  last := fun c hc => hb c (List.mem_of_getLast? hc)

end Plain

theorem numbered_cons {cs : List Char} (h : Plain cs) (n : Nat) (rest : List (List Char)) :
    numbered n (cs :: rest) = (n, cs) :: numbered (n + 1) rest := by
  rw [numbered, h.content_eq, if_neg (by simp [h.nonempty])]

end Source

end ContractBench
