/-!
# White space

The characters of Unicode's White_Space property, and text without white space at its ends.
-/

namespace ContractBench.Text

/-- The first and last code points of each range of White_Space. -/
def blankRanges : List (Nat × Nat) :=
  [(0x09, 0x0d), (0x20, 0x20), (0x85, 0x85), (0xa0, 0xa0), (0x1680, 0x1680), (0x2000, 0x200a),
   (0x2028, 0x2029), (0x202f, 0x202f), (0x205f, 0x205f), (0x3000, 0x3000)]

def isBlank (c : Char) : Bool :=
  blankRanges.any fun r => r.1 ≤ c.toNat && c.toNat ≤ r.2

/-- The text without the white space at its ends. -/
def trim (cs : List Char) : List Char :=
  ((cs.dropWhile isBlank).reverse.dropWhile isBlank).reverse

/-- Both sides of the first white space character; nothing if there is none. -/
def splitBlank? : List Char → Option (List Char × List Char)
  | [] => none
  | c :: cs =>
    if isBlank c then some ([], cs)
    else (splitBlank? cs).map fun (a, b) => (c :: a, b)

/-- The text behind a beginning; nothing if it begins otherwise. -/
def dropStart? : (start cs : List Char) → Option (List Char)
  | [], cs => some cs
  | _ :: _, [] => none
  | p :: ps, c :: cs => if p = c then dropStart? ps cs else none

@[simp] theorem trim_nil : trim [] = [] := rfl

theorem dropWhile_isBlank_of_none {cs : List Char} (h : ∀ c ∈ cs, isBlank c = false) :
    cs.dropWhile isBlank = cs := by
  cases cs with
  | nil => rfl
  | cons c cs => simp [h c]

theorem dropStart?_append (p cs : List Char) : dropStart? p (p ++ cs) = some cs := by
  induction p with
  | nil => rfl
  | cons c p ih => simp [dropStart?, ih]

theorem eq_append_of_dropStart? {p cs r : List Char} (h : dropStart? p cs = some r) :
    cs = p ++ r := by
  induction p generalizing cs with
  | nil => simpa [dropStart?] using h
  | cons c p ih =>
    cases cs with
    | nil => simp [dropStart?] at h
    | cons d ds =>
      by_cases hc : c = d
      · subst hc
        simp only [dropStart?, if_true] at h
        rw [ih h]; rfl
      · simp [dropStart?, hc] at h

end ContractBench.Text
