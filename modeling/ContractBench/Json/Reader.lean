import ContractBench.Json.Decimal
import ContractBench.Json.Value
import ContractBench.Text.Number
/-!
# Reading JSON text

A text is one value with white space around it. Numbers have no leading zeros and strings hold no
control characters. What has the form of a value may still be unreadable: a string where an escaped
surrogate is not half of a pair, an object with such a key, a number out of range, and a list or an
object in too many others.
-/

namespace ContractBench.Json.Reader

/-! ## White space and literals -/

def isSpace (c : Char) : Bool := c == ' ' || c == '\t' || c == '\n' || c == '\r'

def skip (cs : List Char) : List Char := cs.dropWhile isSpace

/-! ## Numbers -/

/-- The digits at the front, at least one. -/
def digits1 (cs : List Char) : Option (List Char × List Char) :=
  let ds := cs.takeWhile Char.isDigit
  if ds.isEmpty then none else some (ds, cs.dropWhile Char.isDigit)

/-- Digits without a leading zero, or a zero alone. -/
def integer (cs : List Char) : Option (List Char × List Char) := do
  let (ds, rest) ← digits1 cs
  if ds.head? = some '0' ∧ ds ≠ ['0'] then none else return (ds, rest)

/-- The digits behind a point, if there is a point. -/
def fraction : List Char → Option (List Char × List Char)
  | '.' :: cs => digits1 cs
  | cs => some ([], cs)

/-- An exponent, if there is one. -/
def exponent : List Char → Option (Option Int × List Char)
  | c :: cs =>
    if c = 'e' ∨ c = 'E' then do
      let (sign, cs) : Int × List Char := match cs with
        | '+' :: r => (1, r)
        | '-' :: r => (-1, r)
        | r => (1, r)
      let (ds, rest) ← digits1 cs
      return (some (sign * (← Text.digits? 10 ds)), rest)
    else some (none, c :: cs)
  | [] => some (none, [])

def number (cs : List Char) : Option (Json × List Char) := do
  let (signed, unsigned) := match cs with
    | '-' :: r => (true, r)
    | r => (false, r)
  let (ds, rest) ← integer unsigned
  let (frac, rest) ← fraction rest
  let (exp, rest) ← exponent rest
  if !(Decimal.ofDigits ds frac (exp.getD 0)).inRange then return (.unreadable, rest)
  else if signed || !frac.isEmpty || exp.isSome then
    return (.number (String.ofList (cs.take (cs.length - rest.length))), rest)
  else return (.nat (← Text.digits? 10 ds), rest)

/-! ## Strings -/

/-- The code unit written by four hex digits. -/
def unit (a b c d : Char) : Option Nat := Text.digits? 16 [a, b, c, d]

def isHigh (n : Nat) : Bool := 0xd800 ≤ n && n < 0xdc00

def isLow (n : Nat) : Bool := 0xdc00 ≤ n && n < 0xe000

/-- The character an escape of one letter stands for. -/
def escaped : Char → Option Char
  | '"' => some '"'
  | '\\' => some '\\'
  | '/' => some '/'
  | 'b' => some (Char.ofNat 8)
  | 'f' => some (Char.ofNat 12)
  | 'n' => some '\n'
  | 'r' => some '\r'
  | 't' => some '\t'
  | _ => none

/-- What a string is written of: characters, and code units of four hex digits. -/
inductive Piece where
  | char (c : Char)
  | unit (n : Nat)
deriving DecidableEq

/-- A string behind its opening quote: its pieces and what follows the closing quote. -/
def pieces : List Char → Option (List Piece × List Char)
  | [] => none
  | '"' :: rest => some ([], rest)
  | '\\' :: 'u' :: a :: b :: c :: d :: rest => do
    let n ← unit a b c d
    let (ps, rest) ← pieces rest
    return (.unit n :: ps, rest)
  | '\\' :: c :: rest => do
    let x ← escaped c
    let (ps, rest) ← pieces rest
    return (.char x :: ps, rest)
  | c :: rest =>
    if c.toNat < 0x20 then none
    else do
      let (ps, rest) ← pieces rest
      return (.char c :: ps, rest)

/-- The characters of pieces; a surrogate must be half of a pair. -/
def characters? : List Piece → Option (List Char)
  | [] => some []
  | .char c :: rest => (characters? rest).map (c :: ·)
  | .unit n :: .unit m :: rest =>
    if isHigh n then
      if isLow m then
        (characters? rest).map (Char.ofNat (0x10000 + (n - 0xd800) * 0x400 + (m - 0xdc00)) :: ·)
      else none
    else if isLow n then none
    else (characters? (.unit m :: rest)).map (Char.ofNat n :: ·)
  | .unit n :: rest =>
    if isHigh n || isLow n then none else (characters? rest).map (Char.ofNat n :: ·)

/-- A string behind its opening quote; without a text if it is unreadable. -/
def text (cs : List Char) : Option (Option String × List Char) := do
  let (ps, rest) ← pieces cs
  return ((characters? ps).map String.ofList, rest)

/-! ## Values -/

/-- How many lists and objects may be one inside the other. -/
def maxNesting : Nat := 127

/-- A list or an object inside as many others as the level says. -/
def nested (level : Nat) (j : Json) : Json := if level < maxNesting then j else .unreadable

/-- An object, if all its keys are readable. -/
def object (fields : List (Option String × Json)) : Json :=
  match fields.mapM fun (key, j) => key.map (·, j) with
  | some fields => .obj fields
  | none => .unreadable

mutual

/-- A value at the front of a text, inside as many lists and objects as the level says. -/
def value (fuel level : Nat) (cs : List Char) : Option (Json × List Char) :=
  match fuel with
  | 0 => none
  | fuel + 1 =>
    match skip cs with
    | 'n' :: 'u' :: 'l' :: 'l' :: rest => some (.null, rest)
    | 't' :: 'r' :: 'u' :: 'e' :: rest => some (.bool true, rest)
    | 'f' :: 'a' :: 'l' :: 's' :: 'e' :: rest => some (.bool false, rest)
    | '"' :: rest => do
      let (s, rest) ← text rest
      return ((s.map Json.str).getD .unreadable, rest)
    | '[' :: rest =>
      match skip rest with
      | ']' :: rest => some (nested level (.arr []), rest)
      | rest => do
        let (items, rest) ← items fuel (level + 1) rest
        return (nested level (.arr items), rest)
    | '\x7b' :: rest =>
      match skip rest with
      | '\x7d' :: rest => some (nested level (.obj []), rest)
      | rest => do
        let (fields, rest) ← fields fuel (level + 1) rest
        return (nested level (object fields), rest)
    | rest => number rest

/-- Values with commas between them, up to the closing bracket. -/
def items (fuel level : Nat) (cs : List Char) : Option (List Json × List Char) :=
  match fuel with
  | 0 => none
  | fuel + 1 => do
    let (j, rest) ← value fuel level cs
    match skip rest with
    | ',' :: rest =>
      let (more, rest) ← items fuel level rest
      return (j :: more, rest)
    | ']' :: rest => return ([j], rest)
    | _ => none

/-- Fields with commas between them, up to the closing brace. -/
def fields (fuel level : Nat) (cs : List Char) :
    Option (List (Option String × Json) × List Char) :=
  match fuel with
  | 0 => none
  | fuel + 1 =>
    match skip cs with
    | '"' :: rest => do
      let (key, rest) ← text rest
      match skip rest with
      | ':' :: rest =>
        let (j, rest) ← value fuel level rest
        match skip rest with
        | ',' :: rest =>
          let (more, rest) ← fields fuel level rest
          return ((key, j) :: more, rest)
        | '\x7d' :: rest => return ([(key, j)], rest)
        | _ => none
      | _ => none
    | _ => none

end

end Reader

/-- The value a text spells. A list or an object takes two steps and two brackets, each further
element a step and a comma, so the length of the text bounds the steps. -/
def ofText? (source : String) : Option Json :=
  let cs := source.toList
  match Reader.value (cs.length + 1) 0 cs with
  | some (j, rest) => if (Reader.skip rest).isEmpty then some j else none
  | none => none

end Json

end ContractBench
