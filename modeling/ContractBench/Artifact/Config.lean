import ContractBench.Artifact.Storage
import ContractBench.Template
/-!
# Settings of a build

Where the two listings of an application are kept, and for which version they are compiled. Every
setting has a default.
-/

namespace ContractBench

structure ArtifactConfig where
  outDir : String := "."
  approvalFile : String := "approval.teal"
  clearFile : String := "clear.teal"
  version : UInt8 := Template.defaultVersion
deriving DecidableEq, Inhabited

namespace ArtifactConfig

def approvalPath (c : ArtifactConfig) : String := FilePath.join c.outDir c.approvalFile

def clearPath (c : ArtifactConfig) : String := FilePath.join c.outDir c.clearFile

def ofJson? (j : Json) : Option ArtifactConfig := do
  let f ← j.record? ["out_dir", "approval_file", "clear_file", "version"]
  let d : ArtifactConfig := {}
  return {
    outDir := ← f.withDefault "out_dir" Json.string? d.outDir
    approvalFile := ← f.withDefault "approval_file" Json.string? d.approvalFile
    clearFile := ← f.withDefault "clear_file" Json.string? d.clearFile
    version := ← f.withDefault "version" Json.byte? d.version }

def toJson (c : ArtifactConfig) : Json :=
  .obj [("out_dir", .str c.outDir), ("approval_file", .str c.approvalFile),
    ("clear_file", .str c.clearFile), ("version", .nat c.version.toNat)]

/-- The settings a file holds. -/
def load {m : Type → Type} [Monad m] [FileSystem m] (path : String) :
    ExceptT StorageError m ArtifactConfig :=
  Storage.readDocument ofJson? path

end ArtifactConfig

end ContractBench
