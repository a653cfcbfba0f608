import ContractBench.SortedMap
import ContractBench.Address
import ContractBench.State.Value
/-!
# Committed state

An application has one global store and one local store for each account that opted in. A schema
bounds how many keys of each type a store may hold. What a run wrote is a `Delta`, which
`AppState.commit` applies.
-/

namespace ContractBench

open Std

/-! ## Stores and schemas -/

/-- A store: values by key. -/
abbrev KeyValues := SortedMap Bytes Value

/-- How many keys hold a value of the type. -/
def KeyValues.count (s : KeyValues) (type : ValueType) : Nat :=
  s.entries.countP fun e => e.2.type == type

/-- How many keys of each type a store may hold. -/
structure Schema where
  ints : UInt64 := 16
  bytes : UInt64 := 16
deriving DecidableEq, Inhabited

def Schema.capacity (s : Schema) : ValueType → UInt64
  | .int => s.ints
  | .bytes => s.bytes

/-! ## Keys of local stores -/

/-- A key in the local store of an account; ordered by account, then key. -/
structure LocalKey where
  account : Address
  key : Bytes
deriving DecidableEq

namespace LocalKey

instance : Ord LocalKey := ⟨compareLex (compareOn account) (compareOn key)⟩

instance : TransOrd LocalKey :=
  inferInstanceAs (TransCmp (compareLex (compareOn account) (compareOn key)))

instance : LawfulEqOrd LocalKey where
  toReflCmp := inferInstanceAs (ReflCmp (compareLex (compareOn account) (compareOn key)))
  eq_of_compare {a b} h := by
    obtain ⟨h1, h2⟩ := compareLex_eq_eq.1 h
    have e1 : a.account = b.account := LawfulEqOrd.eq_of_compare h1
    have e2 : a.key = b.key := LawfulEqOrd.eq_of_compare h2
    cases a; cases b; cases e1; cases e2; rfl

end LocalKey

/-! ## Application state -/

/-- Writes of one run, not yet committed. -/
structure Delta where
  globals : SortedMap Bytes Value := ∅
  locals : SortedMap LocalKey Value := ∅
deriving DecidableEq, Inhabited

def Delta.size (d : Delta) : Nat := d.globals.size + d.locals.size

def Delta.isEmpty (d : Delta) : Bool := d.globals.isEmpty && d.locals.isEmpty

/-- The committed state of one application. -/
structure AppState where
  globalSchema : Schema := {}
  localSchema : Schema := {}
  globals : KeyValues := ∅
  locals : SortedMap Address KeyValues := ∅
deriving DecidableEq, Inhabited

namespace AppState

def isOptedIn (s : AppState) (account : Address) : Bool := s.locals.contains account

/-- The value of a local key; nothing without a local store. -/
def localValue? (s : AppState) (account : Address) (key : Bytes) : Option Value :=
  (s.locals.get? account).bind (·.get? key)

/-- An empty local store for an account that has none. -/
def optIn (s : AppState) (account : Address) : AppState :=
  if s.isOptedIn account then s
  else { s with locals := s.locals.insert account ∅ }

/-- The local store of an account dropped. -/
def closeOut (s : AppState) (account : Address) : AppState :=
  { s with locals := s.locals.erase account }

/-- One local value written; an account without a local store gets one. -/
def putLocal (locals : SortedMap Address KeyValues) (k : LocalKey) (v : Value) :
    SortedMap Address KeyValues :=
  locals.insert k.account (((locals.get? k.account).getD ∅).insert k.key v)

/-- Every write of a delta applied. -/
def commit (s : AppState) (d : Delta) : AppState :=
  { s with
    globals := s.globals.insertAll d.globals.entries
    locals := d.locals.entries.foldl (fun m e => putLocal m e.1 e.2) s.locals }

end AppState

end ContractBench
