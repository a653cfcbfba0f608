import ContractBench.Text.Blank
import ContractBench.Text.Lines
/-!
# Source lines

What counts in a source text: its lines without comments and outer white space, each with its
number in the text. A comment starts at two slashes outside double quotes; a line that holds
nothing else does not count.
-/

namespace ContractBench.Source

/-- A line up to its comment. -/
def dropComment (quoted : Bool) : List Char → List Char
  | [] => []
  | c :: cs =>
    if !quoted && c == '/' && cs.head? == some '/' then []
    else c :: dropComment (if c = '"' then !quoted else quoted) cs

/-- What counts of one line. -/
def content (line : List Char) : List Char := Text.trim (dropComment false line)

/-- The lines that count, from the line with number `n` on. -/
def numbered (n : Nat) : List (List Char) → List (Nat × List Char)
  | [] => []
  | line :: rest =>
    if (content line).isEmpty then numbered (n + 1) rest
    else (n, content line) :: numbered (n + 1) rest

/-- The lines of a text that count, numbered from 1. -/
def contentLines (source : String) : List (Nat × List Char) :=
  numbered 1 (Text.lines source.toList)

end ContractBench.Source
