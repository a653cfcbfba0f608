import ContractBench.Artifact.Config
import ContractBench.Scenario
import ContractBench.Text.Lines
/-!
# Reports

What the commands print, as text.
-/

namespace ContractBench.Report

/-- Text with a line feed behind it. -/
def line (text : String) : String := text ++ "\n"

/-! ## Building -/

/-- How many lines a text has. -/
def lineCount (text : String) : Nat := (Text.lines text.toList).length

/-- The first 16 digits of a digest. -/
def shortHash (hex : String) : String := String.ofList (hex.toList.take 16) ++ "..."

def building (template : Template) (version : UInt8) : String :=
  line ("🔨 Building '" ++ template.name ++ "' (version " ++ toString version ++ ")...")

def removed (count : Nat) : String :=
  line ("   ├─ Removed " ++ toString count ++ " stale artifact(s)")

def compiled (p : CompiledProgram) : String :=
  line ("   ├─ Compiled " ++ toString (lineCount p.approval) ++ " + " ++
    toString (lineCount p.clearState) ++ " lines")

def built (p : CompiledProgram) (approvalPath clearPath : String) : String :=
  line "\n✅ Build complete!" ++
  line ("   ├─ Approval: " ++ approvalPath ++ " (" ++ shortHash p.approvalHash ++ ")") ++
  line ("   └─ Clear:    " ++ clearPath ++ " (" ++ shortHash p.clearStateHash ++ ")")

/-! ## Templates -/

def listings (template : Template) (p : CompiledProgram) : String :=
  line ("📜 " ++ template.name ++ " approval program:") ++ p.approval ++
  line ("\n📜 " ++ template.name ++ " clear-state program:") ++ p.clearState

/-- A text with blanks behind it up to a width. -/
def padded (width : Nat) (text : String) : String :=
  text ++ String.ofList (List.replicate (width - text.length) ' ')

def schema (s : Schema) : String := toString s.ints ++ "i/" ++ toString s.bytes ++ "b"

def template (branch : String) (t : Template) : String :=
  line ("   " ++ branch ++ " " ++ padded 8 t.name ++ " " ++ t.description ++
    " (global " ++ schema t.schemas.1 ++ ", local " ++ schema t.schemas.2 ++ ")")

/-- One line for each template; the last one closes the tree. -/
def templateLines : List Template → String
  | [] => ""
  | [t] => template "└─" t
  | t :: rest => template "├─" t ++ templateLines rest

def templates : String := line "📋 Templates:" ++ templateLines Template.all

/-! ## Simulations -/

def simulating (template : Template) (scenario : String) : String :=
  line ("🧪 Simulating '" ++ template.name ++ "' with " ++ Text.quoted scenario ++ "...")

def outcome (label : String) (c : CallOutcome) : String :=
  line ("\n   " ++ label ++ " (app " ++ toString c.appId ++ "): " ++
    (if c.approved then "✅ approved" else "❌ rejected")) ++
  line ("   ├─ Cost: " ++ toString c.cost) ++
  String.join (c.logs.map fun entry => line ("   ├─ Log: " ++ entry.readable)) ++
  line ("   └─ " ++ match c.fault with
    | some e => "Error: " ++ e.message
    | none => "Logs: " ++ toString c.logs.length)

def call (c : CallRecord) : String :=
  (match c.result with
    | .ok result => outcome c.label result
    | .error e => line ("\n   ⚠️  " ++ c.label ++ ": " ++ e.message)) ++
  (match c.groupId with
    | some id => line ("   Group: " ++ shortHash (Hex.encode id.bytes))
    | none => "")

def entries (s : KeyValues) : String :=
  String.join (s.entries.map fun e => line ("   └─ " ++ e.1.readable ++ " = " ++ e.2.text))

def application (a : Application) : String :=
  line ("\n📦 Application " ++ toString a.id ++ " state:") ++
  line ("   Creator: " ++ a.creator.short) ++
  line "   Global:" ++
  (if a.state.globals.isEmpty then line "   └─ (empty)" else entries a.state.globals) ++
  String.join (a.state.locals.entries.map fun e =>
    line ("   Local (" ++ e.1.short ++ "):") ++ entries e.2)

/-- The creation, and if it was approved the calls and what is left of the application. -/
def simulation (s : Simulation) : String :=
  outcome "creation" s.creation ++
  match s.appId? with
  | none => line "\n❌ Creation rejected; no calls were run"
  | some id =>
    String.join (s.calls.map call) ++
    match s.registry.apps.get? id with
    | some a => application a
    | none => ""

end ContractBench.Report
