import ContractBench.File.System
import ContractBench.Json.Reader
import ContractBench.Text.Escaped
/-!
# Stored texts

A text is written beside its place first and then moved there, so a file holds either its old text
or its new one. A failed move takes the text beside it away again.
-/

namespace ContractBench

inductive StorageError where
  /-- A failure of the file system. -/
  | io
  /-- A document that cannot be read as what it should be. -/
  | malformed
  /-- A path that names no file. -/
  | notAFile (path : String)
  /-- A stored listing that does not begin with its version. -/
  | missingPragma
deriving DecidableEq, Inhabited

def StorageError.message : StorageError → String
  | .io => "IO error"
  | .malformed => "Serialization error"
  | .notAFile path => "Invalid data: Not a file path: " ++ Text.quoted path
  | .missingPragma => "Invalid data: Missing version pragma"

namespace Storage

variable {m : Type → Type} [Monad m] [FileSystem m]

/-- A file operation whose failure ends the work. -/
def attempt {α : Type} (op : m (Except FileError α)) : ExceptT StorageError m α := do
  match ← op with
  | .ok v => return v
  | .error _ => throw .io

/-- The name a text has while it is written. -/
def tempName (name : String) : String := name ++ ".tmp"

/-- The directories a path goes through. -/
def makeParents (p : FilePath) : ExceptT StorageError m Unit := do
  match p.parent? with
  | some parent => attempt (FileSystem.makeDirs parent)
  | none => return ()

/-- A text written to a path in directories that are made where they are missing. -/
def writeText (path text : String) : ExceptT StorageError m Unit := do
  let p := FilePath.ofString path
  makeParents p
  match p.fileName? with
  | none => throw (.notAFile path)
  | some name =>
    let temp := p.withName (tempName name)
    attempt (FileSystem.write temp text)
    match ← FileSystem.move (m := m) temp p with
    | .ok () => return ()
    | .error _ =>
      let _ ← FileSystem.remove (m := m) temp
      throw .io

/-- A file removed; whether there was one. -/
def removeIfExists (path : String) : ExceptT StorageError m Bool := do
  match ← FileSystem.remove (m := m) (FilePath.ofString path) with
  | .ok () => return true
  | .error .notFound => return false
  | .error .refused => throw .io

def readText (path : String) : ExceptT StorageError m String :=
  attempt (FileSystem.read (FilePath.ofString path))

/-- A document of a file, read as a JSON text that a decoder accepts. -/
def readDocument {α : Type} (decode : Json → Option α) (path : String) :
    ExceptT StorageError m α := do
  match (Json.ofText? (← readText path)).bind decode with
  | some v => return v
  | none => throw .malformed

end Storage

end ContractBench
