/-!
# JSON values

The numbers that documents of this library use are non-negative integers; any other number is kept
as it was written. An object lists its fields in the order of the document, repetitions included.

A text may have the form of a value and stand for none: half a surrogate pair in a string, a number
out of range, lists and objects nested too deeply. Such a value is unreadable. It may stand where
values are ignored; no decoder accepts it.
-/

namespace ContractBench

inductive Json where
  | null
  | bool (b : Bool)
  | nat (n : Nat)
  /-- A number with a sign, a fraction or an exponent. -/
  | number (text : String)
  | str (s : String)
  | arr (items : List Json)
  | obj (fields : List (String × Json))
  | unreadable
deriving Inhabited

namespace Json

/-! ## Readable values -/

mutual

/-- Whether nothing in a value is unreadable. -/
def isReadable : Json → Bool
  | .arr items => areReadable items
  | .obj fields => haveReadable fields
  | .unreadable => false
  | .null | .bool _ | .nat _ | .number _ | .str _ => true

def areReadable : List Json → Bool
  | [] => true
  | j :: rest => j.isReadable && areReadable rest

def haveReadable : List (String × Json) → Bool
  | [] => true
  | (_, j) :: rest => j.isReadable && haveReadable rest

end

/-! ## Atoms -/

def nat? (bound : Nat) : Json → Option Nat
  | .nat n => if n < bound then some n else none
  | _ => none

def word? (j : Json) : Option UInt64 := (j.nat? UInt64.size).map UInt64.ofNat

def byte? (j : Json) : Option UInt8 := (j.nat? UInt8.size).map UInt8.ofNat

def string? : Json → Option String
  | .str s => some s
  | _ => none

def bool? : Json → Option Bool
  | .bool b => some b
  | _ => none

def list? {α : Type} (decode : Json → Option α) : Json → Option (List α)
  | .arr items => items.mapM decode
  | _ => none

/-- The name of a choice without data: the name alone, or an object that gives it nothing. -/
def choice? : Json → Option String
  | .str s => some s
  | .obj [(s, .null)] => some s
  | _ => none

/-- The name of a choice where an object without fields is nothing, too. -/
def choiceOrEmpty? : Json → Option String
  | .obj [(s, .obj [])] => some s
  | j => j.choice?

def word (n : UInt64) : Json := .nat n.toNat

def list {α : Type} (encode : α → Json) (items : List α) : Json := .arr (items.map encode)

/-! ## Records -/

/-- What a record says under each of its keys. -/
abbrev Fields := String → Option Json

/-- The fields of an object with some known keys. Other keys are ignored, but a known key may not
be repeated. -/
def fields? (keys : List String) : Json → Option Fields
  | .obj fields =>
    if keys.all fun k => fields.countP (·.1 == k) ≤ 1 then some fun k => fields.lookup k
    else none
  | _ => none

/-- The fields of a record, which may also be written as a list of values in the order of its
keys; the last ones may be left out. -/
def record? (keys : List String) : Json → Option Fields
  | .arr items =>
    if items.length ≤ keys.length then some fun k => (keys.zip items).lookup k else none
  | j => j.fields? keys

namespace Fields

def required {α : Type} (f : Fields) (key : String) (decode : Json → Option α) : Option α :=
  (f key).bind decode

/-- A field that stands for a default if it is missing. -/
def withDefault {α : Type} (f : Fields) (key : String) (decode : Json → Option α) (default : α) :
    Option α :=
  match f key with
  | none => some default
  | some j => decode j

/-- A field that may be missing or null. -/
def optional {α : Type} (f : Fields) (key : String) (decode : Json → Option α) :
    Option (Option α) :=
  match f key with
  | none | some .null => some none
  | some j => (decode j).map some

end Fields

end Json

end ContractBench
