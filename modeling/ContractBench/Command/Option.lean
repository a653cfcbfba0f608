import ContractBench.Template
import ContractBench.Text.Number
/-!
# Options

An option goes by a long and a short name and always takes a value, which stands behind it or is
attached to it. A level of the command line (the program itself, or one of its commands) knows some
options and takes each at most once.
-/

namespace ContractBench.Command

inductive Opt where
  | config
  | template
  | outDir
  | version
  | scenario
deriving DecidableEq, Inhabited

/-- Why a command line starts no command. -/
inductive Halt where
  | help
  | version
  | misuse
deriving DecidableEq, Inhabited

namespace Opt

def long : Opt → String
  | .config => "config"
  | .template => "template"
  | .outDir => "out-dir"
  | .version => "version"
  | .scenario => "scenario"

def short : Opt → Char
  | .config => 'c'
  | .template => 't'
  | .outDir => 'o'
  | .version => 'V'
  | .scenario => 's'

end Opt

/-- A program version: a decimal number of one byte, with a sign if need be. -/
def readVersion (s : String) : Option UInt8 :=
  match s.toList with
  | '-' :: digits => ((Text.digits? 10 digits).filter (· == 0)).map fun _ => 0
  | cs => Text.byte? cs

/-- Whether an option takes a text as its value. -/
def Opt.accepts (o : Opt) (value : String) : Bool :=
  match o with
  | .config | .outDir | .scenario => !value.isEmpty
  | .template => (Template.ofName? value).isSome
  | .version => (readVersion value).isSome

/-! ## Words -/

/-- The options a level knows, and whether it can be asked for the version of the program. -/
structure Level where
  options : List Opt
  tellsVersion : Bool := false

/-- What a word of the command line is to a level. -/
inductive Word where
  | option (o : Opt) (attached : Option String)
  | halt (h : Halt)
  /-- Two dashes: no options behind them. -/
  | close
  | plain
deriving DecidableEq, Inhabited

namespace Word

/-- Both sides of the first equals sign. -/
def splitEquals (cs : List Char) : List Char × Option (List Char) :=
  (cs.takeWhile (· != '='), (cs.dropWhile (· != '=')).tail?)

/-- A word with two dashes, which are left out here. -/
def ofLong (l : Level) (cs : List Char) : Word :=
  let (name, attached) := splitEquals cs
  match l.options.find? (·.long.toList == name) with
  | some o => .option o (attached.map String.ofList)
  | none =>
    if cs == "help".toList then .halt .help
    else if l.tellsVersion && cs == "version".toList then .halt .version
    else .halt .misuse

/-- A word with one dash: the first character behind it and the rest. -/
def ofShort (l : Level) (c : Char) (cs : List Char) : Word :=
  match l.options.find? (·.short == c) with
  | some o =>
    match cs with
    | [] => .option o none
    | '=' :: value => .option o (some (String.ofList value))
    | value => .option o (some (String.ofList value))
  | none =>
    if c = 'h' then .halt .help
    else if l.tellsVersion && c == 'V' then .halt .version
    else .halt .misuse

/-- A dash alone is a plain word. -/
def ofString (l : Level) (s : String) : Word :=
  match s.toList with
  | ['-', '-'] => .close
  | '-' :: '-' :: cs => ofLong l cs
  | '-' :: c :: cs => ofShort l c cs
  | _ => .plain

end Word

/-- Whether a word can stand behind an option as its value. -/
def isValue (s : String) : Bool :=
  match s.toList with
  | '-' :: _ :: _ => false
  | _ => true

/-! ## Settings -/

/-- The values given to options. -/
abbrev Settings := List (Opt × String)

namespace Settings

/-- One more setting; the option must be new and accept the value. -/
def add (s : Settings) (o : Opt) (value : String) : Except Halt Settings :=
  if o.accepts value && (s.lookup o).isNone then .ok ((o, value) :: s) else .error .misuse

/-- The settings of a level, and the words from the first plain one on. -/
def read (l : Level) (s : Settings) : List String → Except Halt (Settings × List String)
  | [] => .ok (s, [])
  | word :: rest =>
    match Word.ofString l word with
    | .halt h => .error h
    | .plain => .ok (s, word :: rest)
    | .close => if rest.isEmpty then .ok (s, []) else .error .misuse
    | .option o (some value) => do read l (← s.add o value) rest
    | .option o none =>
      match rest with
      | [] => .error .misuse
      | value :: rest =>
        if isValue value then do read l (← s.add o value) rest else .error .misuse

def template (s : Settings) : Template :=
  ((s.lookup .template).bind Template.ofName?).getD .router

def version? (s : Settings) : Option UInt8 := (s.lookup .version).bind readVersion

end Settings

end ContractBench.Command
