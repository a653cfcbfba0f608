import ContractBench.Assembly.Line
import ContractBench.Assembly.Source
/-!
# Assembling

A source text is read as a listing, line by line, and the listing is linked: each jump gets the
index of the first instruction behind its label. Reading stops at the first line with an error;
linking fails at the first jump whose label is nowhere defined.
-/

namespace ContractBench

/-! ## Reading -/

/-- The lines of a listing; `defined` holds the labels of earlier lines. -/
def Source.readLines (version : UInt8) (defined : List String) :
    List (Nat × List Char) → Except AssemblyError (List Line)
  | [] => .ok []
  | (n, cs) :: rest => do
    match ← readLine version n cs with
    | .label name =>
      if defined.contains name then throw (.duplicateLabel name)
      return .label name :: (← readLines version (name :: defined) rest)
    | .op i => return .op i :: (← readLines version defined rest)

/-- The listing a source text spells. -/
def Listing.ofText (source : String) : Except AssemblyError Listing :=
  match Source.contentLines source with
  | [] => .error .missingPragma
  | (_, first) :: rest => do
    let version ← Source.readPragma first
    return ⟨version, ← Source.readLines version [] rest⟩

/-! ## Linking -/

/-- The index of the first instruction behind each label; `i` instructions came before. -/
def Listing.targets (i : Nat) : List Line → List (String × Nat)
  | [] => []
  | .op _ :: rest => targets (i + 1) rest
  | .label name :: rest => (name, i) :: targets i rest

/-- An instruction whose label, if it has one, is replaced by its target. -/
def Instruction.link (targets : List (String × Nat)) (i : Instruction) :
    Except AssemblyError Instruction :=
  match i.imm with
  | .label name =>
    match targets.lookup name with
    | some t => .ok { i with imm := .target t }
    | none => .error (.undefinedLabel name)
  | _ => .ok i

def Listing.link (l : Listing) : Except AssemblyError Executable := do
  let targets := Listing.targets 0 l.lines
  return ⟨l.version, ← (Listing.instructions l.lines).mapM (Instruction.link targets)⟩

/-- The executable of a source text. -/
def assemble (source : String) : Except AssemblyError Executable := do
  (← Listing.ofText source).link

end ContractBench
