import ContractBench.Command.Run
import Std.Time.DateTime.Timestamp
/-!
# The program

The commands on the files, the terminal and the clock of the system.
-/

open ContractBench

namespace ContractBench

/-- A file operation of the system, with its failure told apart as far as it matters. A path with a
NUL character is refused before the system sees it. -/
def systemFile {α : Type} (p : FilePath) (op : IO α) : IO (Except FileError α) := do
  if p.text.toList.contains (Char.ofNat 0) then return .error .refused
  try
    return .ok (← op)
  catch e =>
    match e with
    | .noFileOrDirectory .. => return .error .notFound
    | _ => return .error .refused

/-- Whether a question about a path is answered with yes. -/
def systemAsk (p : FilePath) (ask : IO Bool) : IO Bool := do
  match ← systemFile p ask with
  | .ok b => return b
  | .error _ => return false

/-- What the system knows of a path. -/
def systemStat (p : FilePath) : IO IO.FS.Metadata := do
  let here ← IO.currentDir
  { here with toString := p.text }.metadata

instance : FileSystem IO where
  makeDir p := systemFile p (IO.FS.createDir p.text)
  isDir p := systemAsk p do return (← systemStat p).type == .dir
  exists? p := systemAsk p do let _ ← systemStat p; return true
  write p text := systemFile p (IO.FS.writeFile p.text text)
  move source target := systemFile target (IO.FS.rename source.text target.text)
  remove p := systemFile p (IO.FS.removeFile p.text)
  read p := systemFile p (IO.FS.readFile p.text)

instance : Terminal IO where
  print text := do (← IO.getStdout).putStr text

/-- Seconds since the start of 1970, or 0 before it. -/
def systemSeconds : IO UInt64 := do
  return UInt64.ofNat (← Std.Time.Timestamp.now).toSecondsSinceUnixEpoch.val.toNat

end ContractBench

def main (args : List String) : IO UInt32 := do
  let program := (← IO.appPath).fileName.getD "contractbench"
  let (code, message) ← Command.runWords program (← systemSeconds) args
  IO.eprint message
  return UInt32.ofNat code
