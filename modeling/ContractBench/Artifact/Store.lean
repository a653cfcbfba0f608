import ContractBench.Artifact.Config
import ContractBench.Text.Lines
/-!
# The stored pair of listings

The approval listing comes first in every operation: it is written, read and removed before the
clear-state listing, and a failure stops the operation where it is.
-/

namespace ContractBench.ArtifactConfig

open Storage

variable {m : Type → Type} [Monad m] [FileSystem m]

/-- Both listings removed; how many there were. -/
def clean (c : ArtifactConfig) : ExceptT StorageError m Nat := do
  let approval ← removeIfExists c.approvalPath
  let clear ← removeIfExists c.clearPath
  return approval.toNat + clear.toNat

/-- Both listings written; their paths. -/
def write (c : ArtifactConfig) (p : CompiledProgram) :
    ExceptT StorageError m (String × String) := do
  writeText c.approvalPath p.approval
  writeText c.clearPath p.clearState
  return (c.approvalPath, c.clearPath)

/-- The version a listing begins with. -/
def pragmaVersion? (listing : String) : Option UInt8 := do
  let line ← (Text.lines listing.toList).head?
  Text.byte? (Text.trim (← Text.dropStart? "#pragma version".toList line))

/-- Both listings read; the approval listing tells their version. -/
def read (c : ArtifactConfig) : ExceptT StorageError m CompiledProgram := do
  let approval ← readText c.approvalPath
  let clearState ← readText c.clearPath
  match pragmaVersion? approval with
  | some version => return ⟨version, approval, clearState⟩
  | none => throw .missingPragma

/-- Whether both listings are there. -/
def exists? (c : ArtifactConfig) : m Bool := do
  if ← FileSystem.exists? (FilePath.ofString c.approvalPath) then
    FileSystem.exists? (FilePath.ofString c.clearPath)
  else return false

end ContractBench.ArtifactConfig
