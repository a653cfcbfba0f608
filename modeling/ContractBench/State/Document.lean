import ContractBench.Json.Value
import ContractBench.State.Store
/-!
# Values and schemas as JSON
-/

namespace ContractBench

namespace ValueType

/-- The word for a type in documents. -/
def tag : ValueType → String
  | .int => "int"
  | .bytes => "bytes"

def ofTag? (s : String) : Option ValueType := [ValueType.int, .bytes].find? (·.tag == s)

def ofJson? (j : Json) : Option ValueType := do ofTag? (← j.choice?)

def toJson (t : ValueType) : Json := .str t.tag

end ValueType

namespace Value

/-- A value is an object with its type as the only key; bytes are a list of numbers. -/
def ofJson? : Json → Option Value
  | .obj [("int", j)] => j.word?.map .int
  | .obj [("bytes", j)] => (j.list? Json.byte?).map .bytes
  | _ => none

def toJson : Value → Json
  | .int n => .obj [("int", .word n)]
  | .bytes b => .obj [("bytes", .list (fun x => .nat x.toNat) b)]

end Value

namespace Schema

def ofJson? (j : Json) : Option Schema := do
  let f ← j.record? ["ints", "bytes"]
  return ⟨← f.required "ints" Json.word?, ← f.required "bytes" Json.word?⟩

def toJson (s : Schema) : Json := .obj [("ints", .word s.ints), ("bytes", .word s.bytes)]

end Schema

end ContractBench
