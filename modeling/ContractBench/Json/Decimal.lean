/-!
# The range of numbers

A written number is a significand of at most 64 bits and a power of ten. Digits that do not fit
the significand are dropped; in front of the point each of them still raises the power.

A number is in range if the product of its two parts is a double: both are rounded to 53 binary
digits, and the product must stay below half a step above the greatest double.
-/

namespace ContractBench.Json

structure Decimal where
  significand : Nat
  /-- The power of ten. -/
  exponent : Int
deriving DecidableEq, Inhabited

namespace Decimal

/-! ## Reading digits -/

/-- A significand with one digit more, if it still fits. -/
def extended? (significand : Nat) (digit : Char) : Option Nat :=
  let n := significand * 10 + (digit.toNat - '0'.toNat)
  if n < UInt64.size then some n else none

/-- Digits in front of the point, behind a significand. -/
def ofWhole (significand : Nat) : List Char → Decimal
  | [] => ⟨significand, 0⟩
  | d :: ds =>
    match extended? significand d with
    | some n => ofWhole n ds
    | none => ⟨significand, ds.length + 1⟩

/-- Digits behind the point, up to the first that does not fit. -/
def withFraction (x : Decimal) : List Char → Decimal
  | [] => x
  | d :: ds =>
    match extended? x.significand d with
    | some n => withFraction ⟨n, x.exponent - 1⟩ ds
    | none => x

/-- The number with these digits in front of the point and behind it and this power of ten. -/
def ofDigits (whole fraction : List Char) (exponent : Int) : Decimal :=
  let x := withFraction (ofWhole 0 whole) fraction
  { x with exponent := x.exponent + exponent }

/-! ## Range -/

/-- The distance of numbers of 53 binary digits around a number. -/
def step (n : Nat) : Nat := Nat.pow 2 (n.log2 + 1 - 53)

/-- The nearest number of 53 binary digits; of two, the one whose last digit is even. -/
def rounded (n : Nat) : Nat :=
  let q := n / step n
  let r := 2 * (n % step n)
  if step n < r ∨ (r = step n ∧ q % 2 = 1) then q * step n + step n else q * step n

/-- The least number that is rounded beyond all doubles. -/
def doubleBound : Nat := Nat.pow 2 1024 - Nat.pow 2 970

/-- The greatest power of ten that is a double. -/
def maxExponent : Nat := 308

/-- Whether the number has a double. A negative power brings any significand into range. -/
def inRange (x : Decimal) : Bool :=
  match x.exponent with
  | .negSucc _ => true
  | .ofNat e =>
    x.significand == 0 ||
      (e ≤ maxExponent && rounded x.significand * rounded (Nat.pow 10 e) < doubleBound)

example : ofDigits ['1', '2'] ['5', '0'] 3 = ⟨1250, 1⟩ := by decide
example : (ofDigits ['1'] [] 308).inRange = true := by decide +kernel
example : (ofDigits ['2'] [] 308).inRange = false := by decide +kernel

end Decimal

end ContractBench.Json
