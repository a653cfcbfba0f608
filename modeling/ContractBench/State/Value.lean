import ContractBench.Text.Readable
/-!
# Values

Programs work on two types of value, 64-bit words and byte strings, on the stack and in state.
-/

namespace ContractBench

inductive ValueType where
  | int
  | bytes
deriving DecidableEq, Inhabited

def ValueType.name : ValueType → String
  | .int => "uint64"
  | .bytes => "bytes"

inductive Value where
  | int (n : UInt64)
  | bytes (b : Bytes)
deriving DecidableEq, Inhabited

namespace Value

def type : Value → ValueType
  | .int _ => .int
  | .bytes _ => .bytes

/-- What an absent key reads as: 0 or no bytes. -/
def zero : ValueType → Value
  | .int => .int 0
  | .bytes => .bytes []

def ofBool (b : Bool) : Value := .int (if b then 1 else 0)

/-- A word in decimal, bytes for readers. -/
def text : Value → String
  | .int n => toString n
  | .bytes b => b.readable

@[simp] theorem type_zero (k : ValueType) : (zero k).type = k := by
  cases k <;> rfl

end Value

end ContractBench
