import ContractBench.Text.Unprintable
/-!
# Escaped text

Text between double quotes. Double quotes, backslashes and characters that are not shown as they
are stand as escapes, so the text has no line of its own and ends at the first bare quote.
-/

namespace ContractBench.Text

/-- A character as it stands between quotes. -/
def escapeChar (c : Char) : List Char :=
  match c with
  | '\x00' => ['\\', '0']
  | '\t' => ['\\', 't']
  | '\n' => ['\\', 'n']
  | '\r' => ['\\', 'r']
  | '\x22' | '\\' => ['\\', c]
  | _ =>
    if isUnprintable c then '\\' :: 'u' :: '\x7b' :: Nat.toDigits 16 c.toNat ++ ['\x7d'] else [c]

/-- The text between quotes, with escapes. -/
def quoted (s : String) : String :=
  String.ofList ('\x22' :: s.toList.flatMap escapeChar ++ ['\x22'])

example : quoted "a b" = "\"a b\"" := by decide +kernel
example : quoted "it's\n" = "\"it's\\n\"" := by decide +kernel

end ContractBench.Text
