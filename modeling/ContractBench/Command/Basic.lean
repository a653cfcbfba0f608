import ContractBench.Command.Option
/-!
# Commands

A command line is options of the program, the name of a command and options of that command. The
settings file may be named on either side; the one behind the command counts.
-/

namespace ContractBench

/-- What is to be done. -/
inductive Job where
  | build (template : Template) (outDir : Option String) (version : Option UInt8)
  | show (template : Template) (version : Option UInt8)
  | templates
  | simulate (template : Template) (scenario : String) (version : Option UInt8)
deriving DecidableEq, Inhabited

structure Command where
  /-- The settings file. -/
  config : Option String
  job : Job
deriving DecidableEq, Inhabited

namespace Command

/-! ## Names -/

inductive Verb where
  | build
  | show
  | templates
  | simulate
deriving DecidableEq, Inhabited

namespace Verb

def name : Verb → String
  | .build => "build"
  | .show => "show"
  | .templates => "templates"
  | .simulate => "simulate"

def ofName? (name : String) : Option Verb :=
  [Verb.build, .show, .templates, .simulate].find? (·.name == name)

/-- What a verb does, for readers. -/
def summary : Verb → String
  | .build => "Compile a template and write its listings"
  | .show => "Print the listings of a template"
  | .templates => "List the templates"
  | .simulate => "Create a template application and run a scenario against it"

def level : Verb → Level
  | .build => ⟨[.config, .template, .outDir, .version], false⟩
  | .show => ⟨[.config, .template, .version], false⟩
  | .templates => ⟨[.config], false⟩
  | .simulate => ⟨[.config, .template, .scenario, .version], false⟩

/-- The job of a verb with settings. -/
def job (s : Settings) : Verb → Except Halt Job
  | .build => .ok (.build s.template (s.lookup .outDir) s.version?)
  | .show => .ok (.show s.template s.version?)
  | .templates => .ok .templates
  | .simulate =>
    match s.lookup .scenario with
    | some path => .ok (.simulate s.template path s.version?)
    | none => .error .misuse

end Verb

/-! ## Reading -/

/-- The level of the program itself. -/
def programLevel : Level := ⟨[.config], true⟩

/-- The answer to a request for help with what the words name. -/
def helpWith : List String → Halt
  | [] => .help
  | [name] => if name == "help" || (Verb.ofName? name).isSome then .help else .misuse
  | _ => .misuse

/-- The command that the words of a command line ask for. -/
def ofWords (words : List String) : Except Halt Command := do
  let (outer, rest) ← Settings.read programLevel [] words
  match rest with
  | [] => throw .misuse
  | name :: rest =>
    if name == "help" then throw (helpWith rest)
    match Verb.ofName? name with
    | none => throw .misuse
    | some verb =>
      let (inner, extra) ← Settings.read verb.level [] rest
      if !extra.isEmpty then throw .misuse
      return ⟨(inner.lookup .config).or (outer.lookup .config), ← verb.job inner⟩

end Command

end ContractBench
