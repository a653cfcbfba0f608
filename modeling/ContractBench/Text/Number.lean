import ContractBench.Bytes
/-!
# Numbers in text

An unsigned number is an optional plus sign and at least one digit; leading zeros are allowed and
a value at or above the bound is refused.
-/

namespace ContractBench.Text

/-- The value of a digit in a base up to 16, letters of either case. -/
def digitValue? (base : Nat) (c : Char) : Option Nat :=
  (Hex.value? c).filter (· < base)

/-- The value of a row of digits that continues a number. -/
def digitsFrom (base acc : Nat) : List Char → Option Nat
  | [] => some acc
  | c :: cs => do digitsFrom base (acc * base + (← digitValue? base c)) cs

/-- The value of at least one digit. -/
def digits? (base : Nat) (cs : List Char) : Option Nat :=
  if cs.isEmpty then none else digitsFrom base 0 cs

/-- A number below the bound, with or without a plus sign. -/
def unsigned? (base bound : Nat) (cs : List Char) : Option Nat :=
  (digits? base (match cs with | '+' :: rest => rest | _ => cs)).filter (· < bound)

/-- A decimal number of one byte. -/
def byte? (cs : List Char) : Option UInt8 := (unsigned? 10 UInt8.size cs).map UInt8.ofNat

/-- A decimal number of one word. -/
def word? (cs : List Char) : Option UInt64 := (unsigned? 10 UInt64.size cs).map UInt64.ofNat

/-- A hex number of one word. -/
def hexWord? (cs : List Char) : Option UInt64 := (unsigned? 16 UInt64.size cs).map UInt64.ofNat

/-- The number with zeros in front up to a width. -/
def padded (width n : Nat) : String :=
  let s := toString n
  String.ofList (List.replicate (width - s.length) '0') ++ s

end ContractBench.Text
