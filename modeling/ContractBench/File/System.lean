import ContractBench.File.Path
/-!
# File systems

What a program needs of a file system: single operations that succeed or fail. Only the absence of
a file is told apart from other failures.
-/

namespace ContractBench

inductive FileError where
  | notFound
  | refused
deriving DecidableEq, Inhabited

class FileSystem (m : Type → Type) where
  /-- A new directory in an existing one. -/
  makeDir : FilePath → m (Except FileError Unit)
  isDir : FilePath → m Bool
  exists? : FilePath → m Bool
  /-- A file with a text, new or overwritten. -/
  write : FilePath → String → m (Except FileError Unit)
  /-- A file moved to another path; a file there is replaced. -/
  move : FilePath → FilePath → m (Except FileError Unit)
  remove : FilePath → m (Except FileError Unit)
  read : FilePath → m (Except FileError String)

/-- Where a program prints. -/
class Terminal (m : Type → Type) where
  print : String → m Unit

namespace FileSystem

variable {m : Type → Type} [Monad m] [FileSystem m]

/-- A directory, unless there is one. -/
def ensureDir (p : FilePath) : m (Except FileError Unit) := do
  match ← makeDir p with
  | .ok () => return .ok ()
  | .error e => if ← isDir p then return .ok () else return .error e

/-- Directories for all of a list of paths, up to the first failure. -/
def ensureAll : List FilePath → m (Except FileError Unit)
  | [] => return .ok ()
  | p :: rest => do
    match ← ensureDir p with
    | .ok () => ensureAll rest
    | .error e => return .error e

/-- A directory with all directories above it; nothing is made for a path that is refused, and the
path without text needs nothing. -/
def makeDirs (p : FilePath) : m (Except FileError Unit) := do
  if p.isEmpty then return .ok ()
  match ← makeDir p with
  | .ok () => return .ok ()
  | .error .notFound => ensureAll (p.ancestors.dropLast ++ [p])
  | .error .refused => if ← isDir p then return .ok () else return .error .refused

end FileSystem

end ContractBench
