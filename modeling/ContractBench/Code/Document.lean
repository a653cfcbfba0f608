import ContractBench.Code.Compile
import ContractBench.Json.Value
/-!
# Compiled programs as JSON
-/

namespace ContractBench.CompiledProgram

def ofJson? (j : Json) : Option CompiledProgram := do
  let f ← j.record? ["version", "approval", "clear_state"]
  return ⟨← f.required "version" Json.byte?, ← f.required "approval" Json.string?,
    ← f.required "clear_state" Json.string?⟩

def toJson (p : CompiledProgram) : Json :=
  .obj [("version", .nat p.version.toNat), ("approval", .str p.approval),
    ("clear_state", .str p.clearState)]

end ContractBench.CompiledProgram
