import ContractBench.Code.Depth
import ContractBench.Code.Lowering
import ContractBench.Code.Naming
import ContractBench.Expr.Keys
import ContractBench.Sha256
/-!
# Compilation

A tree compiles to a listing if its version is supported, its types and keys agree, it terminates,
and its version knows all instructions it needs. An application has two programs, compiled for one
version; what is deployed is the pair of listing texts.
-/

namespace ContractBench

namespace Expr

/-- The code of a tree that passed the checks; labels are not yet named. -/
def code (name : String) (root : Expr) : Except CompileError (List Item) := do
  let path := NodePath.root name
  let _ ← root.checkTypes path []
  if !root.terminates then throw (.unreachableTerminal (root.fallThrough path).text)
  let _ ← root.checkDepth path {}
  return root.lower path

/-- The listing of a tree; its root goes by a name in errors. -/
def compile (version : UInt8) (name : String) (root : Expr) : Except CompileError Listing := do
  if !isSupported version then throw (.invalidVersion version)
  Listing.ofLines version (← Item.lines (← root.code name))

end Expr

/-- The two trees of an application. -/
structure Program where
  approval : Expr
  clearState : Expr
  version : UInt8

/-- The two listings of an application, as text. -/
structure CompiledProgram where
  version : UInt8
  approval : String
  clearState : String
deriving DecidableEq, Inhabited

def Program.compile (p : Program) : Except CompileError CompiledProgram := do
  let approval ← p.approval.compile p.version "approval"
  let clearState ← p.clearState.compile p.version "clear_state"
  return ⟨p.version, approval.text, clearState.text⟩

namespace CompiledProgram

/-- The hex digest of the approval listing. -/
def approvalHash (p : CompiledProgram) : String := Hex.encode (sha256 (utf8 p.approval)).bytes

/-- The hex digest of the clear-state listing. -/
def clearStateHash (p : CompiledProgram) : String :=
  Hex.encode (sha256 (utf8 p.clearState)).bytes

end CompiledProgram

end ContractBench
