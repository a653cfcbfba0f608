import ContractBench.Artifact.Store
import ContractBench.Command.Basic
import ContractBench.Command.Report
/-!
# Running commands

A command reads its settings first. What it has to tell is printed as it comes to it, so the output
of a command that fails ends where it failed.
-/

namespace ContractBench

/-- Why a command failed. -/
inductive CommandError where
  | storage (error : StorageError)
  | compile (error : CompileError)
  | app (error : AppError)
deriving DecidableEq

def CommandError.message : CommandError → String
  | .storage e => e.message
  | .compile e => e.message
  | .app e => e.message

namespace Command

variable {m : Type → Type} [Monad m] [FileSystem m] [Terminal m]

/-- Work of a command in a program with files and a terminal. -/
abbrev Work (m : Type → Type) := ExceptT CommandError m

def print (text : String) : Work m Unit := do Terminal.print (m := m) text

def stored {α : Type} (x : ExceptT StorageError m α) : Work m α := do
  match ← x.run with
  | .ok v => return v
  | .error e => throw (.storage e)

def compileTemplate (t : Template) (version : UInt8) : Work m CompiledProgram := do
  match (t.program version).compile with
  | .ok p => return p
  | .error e => throw (.compile e)

/-! ## Commands -/

/-- Old listings removed, a template compiled and its listings written. -/
def build (config : ArtifactConfig) (t : Template) : Work m Unit := do
  print (Report.building t config.version)
  print (Report.removed (← stored config.clean))
  let p ← compileTemplate t config.version
  print (Report.compiled p)
  let (approvalPath, clearPath) ← stored (config.write p)
  print (Report.built p approvalPath clearPath)

def showListings (t : Template) (version : UInt8) : Work m Unit := do
  print (Report.listings t (← compileTemplate t version))

/-- A scenario run against an application made from a template; `now` is the time of the ledger if
the scenario does not say. -/
def simulate (now : UInt64) (t : Template) (scenario : String) (version : UInt8) :
    Work m Unit := do
  let s ← stored (Storage.readDocument Scenario.ofJson? scenario)
  let p ← compileTemplate t version
  print (Report.simulating t scenario)
  match s.simulate t p now with
  | .ok result => print (Report.simulation result)
  | .error e => throw (.app e)

/-- The settings of a command: those of its file, or the defaults. -/
def settings (c : Command) : Work m ArtifactConfig :=
  match c.config with
  | some path => stored (ArtifactConfig.load path)
  | none => return {}

def run (now : UInt64) (c : Command) : Work m Unit := do
  let config ← c.settings
  match c.job with
  | .build t outDir version =>
    build { config with
      outDir := outDir.getD config.outDir, version := version.getD config.version } t
  | .show t version => showListings t (version.getD config.version)
  | .templates => print Report.templates
  | .simulate t scenario version => simulate now t scenario (version.getD config.version)

/-! ## The whole program -/

def programVersion : String := "0.1.0"

/-- How the program is used. -/
def usage (program : String) : String :=
  "Usage: " ++ program ++ " [--config FILE] COMMAND [OPTIONS]\n\nCommands:\n" ++
  String.join ([Verb.build, .show, .templates, .simulate].map fun v =>
    "  " ++ Report.padded 10 v.name ++ " " ++ v.summary ++ "\n")

/-- A command line run by a program that goes by a name: the exit code and a message for the user.
The code is 0 for success, 1 for a command that failed and 2 for words that make no command. -/
def runWords (program : String) (now : UInt64) (words : List String) : m (Nat × String) := do
  match ofWords words with
  | .error .help =>
    Terminal.print (usage program)
    return (0, "")
  | .error .version =>
    Terminal.print (program ++ " " ++ programVersion ++ "\n")
    return (0, "")
  | .error .misuse => return (2, usage program)
  | .ok c =>
    match ← (c.run now).run with
    | .ok () => return (0, "")
    | .error e => return (1, "Error: " ++ e.message ++ "\n")

end Command

end ContractBench
