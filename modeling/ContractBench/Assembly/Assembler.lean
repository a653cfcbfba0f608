import ContractBench.Assembly.Assemble
/-!
# An assembler that is used again

An assembler keeps tables while it works: the instructions so far, the index behind each label, and
the jumps that wait for one. A text that fails leaves them as they are; the next text starts by
clearing them.
-/

namespace ContractBench

structure Assembler where
  version : UInt8 := minProgramVersion
  instructions : Array Instruction := #[]
  labels : List (String × Nat) := []
  /-- Jumps by their index, with the label each waits for. -/
  pending : Array (Nat × String) := #[]
deriving Inhabited

namespace Assembler

/-- Work on an assembler that may fail and leaves its tables behind either way. -/
abbrev Work := ExceptT AssemblyError (StateM Assembler)

def clear : Work Unit :=
  modify fun a => { a with instructions := #[], labels := [], pending := #[] }

/-- One line taken into the tables. -/
def addLine (n : Nat) (cs : List Char) : Work Unit := do
  let a ← get
  match ← liftExcept (Source.readLine a.version n cs) with
  | .label name =>
    if (a.labels.lookup name).isSome then throw (.duplicateLabel name)
    set { a with labels := (name, a.instructions.size) :: a.labels }
  | .op i =>
    let pending := match i.imm with
      | .label name => a.pending.push (a.instructions.size, name)
      | _ => a.pending
    set { a with instructions := a.instructions.push i, pending := pending }
where
  liftExcept {α : Type} (x : Except AssemblyError α) : Work α :=
    match x with
    | .ok v => pure v
    | .error e => throw e

/-- A waiting jump given its target. -/
def resolve (index : Nat) (name : String) : Work Unit := do
  let a ← get
  match a.labels.lookup name with
  | some t =>
    set { a with instructions := a.instructions.modify index ({ · with imm := .target t }) }
  | none => throw (.undefinedLabel name)

/-- A text assembled with the tables. -/
def assemble (source : String) : Work Executable := do
  clear
  match Source.contentLines source with
  | [] => throw .missingPragma
  | (_, first) :: rest =>
    match Source.readPragma first with
    | .error e => throw e
    | .ok version =>
      modify ({ · with version := version })
      rest.forM fun (n, cs) => addLine n cs
      (← get).pending.toList.forM fun (index, name) => resolve index name
      let a ← get
      return ⟨a.version, a.instructions.toList⟩

/-- Texts assembled one after the other. -/
def assembleAll (a : Assembler) : List String → List (Except AssemblyError Executable)
  | [] => []
  | source :: rest =>
    let (result, a) := (assemble source).run.run a
    result :: assembleAll a rest

end Assembler

end ContractBench
