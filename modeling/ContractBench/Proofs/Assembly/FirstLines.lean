import ContractBench.Assembly.Source
/-!
# The first lines of a text

A text can be cut behind any of its lines (`Text.firstLines`), and the lines that count are numbered
piece by piece, so what counts of the first lines does not depend on the others:

    lines (firstLines k cs) = (lines cs).take k                           (lines_firstLines)
    numbered n (xs ++ ys) = numbered n xs ++ numbered (n + xs.length) ys   (numbered_append)
    numbered n ls = before ++ (m, cs) :: after → ∃ xs l ys, ls = xs ++ l :: ys ∧
      m = n + xs.length ∧ numbered n xs = before ∧ …                      (exists_of_numbered_eq)
-/

namespace ContractBench

namespace Text

/-! ## Cutting a text -/

/-- The first lines of a text, up to and with the line feed that ends the last of them. -/
def firstLines (k : Nat) (cs : List Char) : List Char :=
  match k, cs with
  | 0, _ => []
  | _ + 1, [] => []
  | k + 1, c :: cs => c :: if c = '\n' then firstLines k cs else firstLines (k + 1) cs
termination_by structural cs

@[simp] theorem firstLines_zero (cs : List Char) : firstLines 0 cs = [] := by
  cases cs <;> rfl

theorem linesFrom_firstLines (piece : List Char) (k : Nat) (cs : List Char) :
    linesFrom piece (firstLines (k + 1) cs) = (linesFrom piece cs).take (k + 1) := by
  induction cs generalizing piece k with
  | nil =>
    rw [firstLines, linesFrom]
    cases piece <;> simp
  | cons c cs ih =>
    rw [firstLines, linesFrom, linesFrom]
    by_cases hc : c = '\n'
    · rw [if_pos hc, if_pos hc, if_pos hc, List.take_succ_cons]
      cases k with
      | zero => rw [firstLines_zero, linesFrom, List.take_zero]; rfl
      | succ k => rw [ih]
    · rw [if_neg hc, if_neg hc, if_neg hc, ih]

/-- A text cut behind one of its lines has the lines up to there. -/
theorem lines_firstLines (k : Nat) (cs : List Char) :
    lines (firstLines k cs) = (lines cs).take k := by
  cases k with
  | zero => rw [firstLines_zero, lines_nil, List.take_zero]
  | succ k => exact linesFrom_firstLines [] k cs

end Text

namespace Source

/-! ## Numbered lines -/

theorem numbered_append (n : Nat) (xs ys : List (List Char)) :
    numbered n (xs ++ ys) = numbered n xs ++ numbered (n + xs.length) ys := by
  induction xs generalizing n with
  | nil => rfl
  | cons l xs ih =>
    have hlen : n + 1 + xs.length = n + (l :: xs).length := by rw [List.length_cons]; omega
    rw [List.cons_append, numbered, numbered, ih, hlen]
    split
    · rfl
    · rfl

/-- A line that counts stands behind the lines that its number counts. -/
theorem exists_of_numbered_eq {n m : Nat} {ls : List (List Char)} {cs : List Char}
    {before after : List (Nat × List Char)} (h : numbered n ls = before ++ (m, cs) :: after) :
    ∃ xs l ys, ls = xs ++ l :: ys ∧ m = n + xs.length ∧ numbered n xs = before ∧
      ∀ ys', numbered m (l :: ys') = (m, cs) :: numbered (m + 1) ys' := by
  induction ls generalizing n before with
  | nil => simp [numbered] at h
  | cons l ls ih =>
    rw [numbered] at h
    split at h
    · next hempty =>
      obtain ⟨xs, l', ys, rfl, rfl, hb, hl'⟩ := ih h
      refine ⟨l :: xs, l', ys, rfl, ?_, ?_, hl'⟩
      · rw [List.length_cons]
        omega
      · rw [numbered, if_pos hempty, hb]
    · next hcounts =>
      cases before with
      | nil =>
        obtain ⟨hx, -⟩ := List.cons.inj h
        cases hx
        exact ⟨[], l, ls, rfl, rfl, rfl, fun ys' => by rw [numbered, if_neg hcounts]⟩
      | cons x before =>
        obtain ⟨rfl, hrest⟩ := List.cons.inj h
        obtain ⟨xs, l', ys, rfl, rfl, hb, hl'⟩ := ih hrest
        refine ⟨l :: xs, l', ys, rfl, ?_, ?_, hl'⟩
        · rw [List.length_cons]
          omega
        · rw [numbered, if_neg hcounts, hb]

end Source

end ContractBench
