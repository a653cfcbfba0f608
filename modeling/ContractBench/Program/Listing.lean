import ContractBench.Program.Instruction
import ContractBench.Text.Number
/-!
# Listings and executables

A listing is the text form of a program: a version, then instructions and labels line by line. An
executable is the same code with every jump resolved to the index of an instruction.
-/

namespace ContractBench

inductive Line where
  | op (instruction : Instruction)
  | label (name : String)
deriving DecidableEq, Inhabited

structure Listing where
  version : UInt8
  lines : List Line
deriving DecidableEq, Inhabited

def Line.text : Line → String
  | .op instruction => instruction.text
  | .label name => name ++ ":"

namespace Listing

def pragma (version : UInt8) : String := "#pragma version " ++ toString version

/-- The listing as text, one line feed behind each line. -/
def text (l : Listing) : String :=
  String.join ((pragma l.version :: l.lines.map Line.text).map (· ++ "\n"))

/-- The instructions, labels left out. -/
def instructions (lines : List Line) : List Instruction :=
  lines.filterMap fun
    | .op i => some i
    | .label _ => none

def instructionCount (l : Listing) : Nat := (instructions l.lines).length

end Listing

structure Executable where
  version : UInt8
  instructions : List Instruction
deriving DecidableEq, Inhabited

namespace Executable

def size (e : Executable) : Nat := e.instructions.length

/-- The version and the instructions behind their indices, line by line. -/
def dump (e : Executable) : String :=
  "; version " ++ toString e.version ++ "\n" ++
    String.join (e.instructions.mapIdx fun i instruction =>
      Text.padded 4 i ++ ": " ++ instruction.text ++ "\n")

end Executable

end ContractBench
