/-!
# Lines

A line ends in a line feed, or in a carriage return and a line feed. The last line may lack its
end; then it counts if it holds a character, and a carriage return in it belongs to it.
-/

namespace ContractBench.Text

/-- A line read in reverse, without the carriage return of its end. -/
def dropReturn : List Char → List Char
  | '\r' :: cs => cs
  | cs => cs

/-- The lines of a text behind the characters of an unfinished line, latest first. -/
def linesFrom (piece : List Char) : List Char → List (List Char)
  | [] => if piece.isEmpty then [] else [piece.reverse]
  | c :: cs =>
    if c = '\n' then (dropReturn piece).reverse :: linesFrom [] cs
    else linesFrom (c :: piece) cs

def lines (cs : List Char) : List (List Char) := linesFrom [] cs

theorem lines_nil : lines [] = [] := rfl

/-- A line without line feeds is cut off whole. -/
theorem linesFrom_append (piece l rest : List Char) (h : '\n' ∉ l) :
    linesFrom piece (l ++ '\n' :: rest) =
      (dropReturn (l.reverse ++ piece)).reverse :: lines rest := by
  induction l generalizing piece with
  | nil => simp [linesFrom, lines]
  | cons c l ih =>
    have hc : c ≠ '\n' := fun e => h (by simp [e])
    have hl : '\n' ∉ l := fun m => h (List.mem_cons_of_mem _ m)
    simp [linesFrom, hc, ih _ hl]

end ContractBench.Text
