import ContractBench.Program.Listing
import ContractBench.Text.Blank
import ContractBench.Text.Number
/-!
# Reading one line

A line is a label with a colon behind it, or a mnemonic with the immediate its opcode takes. An
error names the line by its number.
-/

namespace ContractBench

inductive AssemblyError where
  | missingPragma
  | unsupportedVersion (text : String)
  | unknownInstruction (line : Nat) (mnemonic : String)
  | invalidArgument (line : Nat) (text : String)
  | invalidNumber (line : Nat) (text : String)
  | unknownField (line : Nat) (text : String)
  | notAvailable (line : Nat) (instruction : Instruction) (declared : UInt8)
  | undefinedLabel (name : String)
  | duplicateLabel (name : String)
deriving DecidableEq

def AssemblyError.message : AssemblyError → String
  | .missingPragma => "Missing '#pragma version' line"
  | .unsupportedVersion text => "Unsupported program version: " ++ text
  | .unknownInstruction line mnemonic =>
    "Line " ++ toString line ++ ": unknown instruction: " ++ mnemonic
  | .invalidArgument line text => "Line " ++ toString line ++ ": invalid argument: " ++ text
  | .invalidNumber line text => "Line " ++ toString line ++ ": invalid number: " ++ text
  | .unknownField line text => "Line " ++ toString line ++ ": unknown field: " ++ text
  | .notAvailable line i declared =>
    "Line " ++ toString line ++ ": '" ++ i.text ++ "' needs version " ++
      toString i.minVersion ++ ", program declares " ++ toString declared
  | .undefinedLabel name => "Undefined label: " ++ name
  | .duplicateLabel name => "Duplicate label: " ++ name

namespace Source

open Text

/-- The version a pragma line declares. -/
def readPragma (line : List Char) : Except AssemblyError UInt8 :=
  match (dropStart? "#pragma".toList line).bind (dropStart? "version".toList <| trim ·) with
  | none => .error .missingPragma
  | some rest =>
    let version := trim rest
    match (byte? version).filter isSupported with
    | some v => .ok v
    | none => .error (.unsupportedVersion (String.ofList version))

/-! ## Immediates -/

/-- A named constant, `0x` and hex digits, or a decimal number. -/
def readUint (n : Nat) (cs : List Char) : Except AssemblyError Immediate :=
  match NamedConst.ofName? (String.ofList cs) with
  | some c => .ok (.named c)
  | none =>
    let value := match (dropStart? ['0', 'x'] cs).or (dropStart? ['0', 'X'] cs) with
      | some hex => hexWord? hex
      | none => word? cs
    match value with
    | some v => .ok (.uint v)
    | none => .error (.invalidNumber n (String.ofList cs))

/-- The text between a quote at the start and one at the end. -/
def unquoted? : List Char → Option (List Char)
  | '"' :: rest => if rest.getLast? = some '"' then some rest.dropLast else none
  | _ => none

/-- Quoted text without quotes and backslashes, or `0x` and pairs of hex digits. -/
def readBytes (n : Nat) (cs : List Char) : Except AssemblyError Bytes :=
  let value := match unquoted? cs with
    | some text =>
      if text.contains '"' || text.contains '\\' then none
      else some (utf8 (String.ofList text))
    | none => (dropStart? ['0', 'x'] cs).bind Hex.decode?
  match value with
  | some b => .ok b
  | none => .error (.invalidArgument n (String.ofList cs))

def readTxnField (n : Nat) (cs : List Char) : Except AssemblyError TxnField :=
  match TxnField.ofName? (String.ofList cs) with
  | some f => .ok f
  | none => .error (.unknownField n (String.ofList cs))

def readGlobalField (n : Nat) (cs : List Char) : Except AssemblyError GlobalField :=
  match GlobalField.ofName? (String.ofList cs) with
  | some f => .ok f
  | none => .error (.unknownField n (String.ofList cs))

/-- A position in the group, white space and a field. -/
def readGroupField (n : Nat) (line cs : List Char) : Except AssemblyError Immediate :=
  match splitBlank? cs with
  | none => .error (.invalidArgument n (String.ofList line))
  | some (index, field) =>
    match byte? index with
    | none => .error (.invalidNumber n (String.ofList index))
    | some i => do return .gtxn i (← readTxnField n (trim field))

def readLabel (n : Nat) (mnemonic : String) (cs : List Char) : Except AssemblyError Immediate :=
  if cs.isEmpty || cs.any isBlank then
    .error (.invalidArgument n (mnemonic ++ " requires a label"))
  else .ok (.label (String.ofList cs))

/-- The immediate of an opcode from the text behind its mnemonic. -/
def readImmediate (n : Nat) (line : List Char) (op : Opcode) (cs : List Char) :
    Except AssemblyError Immediate :=
  match op.immediateKind with
  | .absent =>
    if cs.isEmpty then .ok .absent else .error (.invalidArgument n (String.ofList line))
  | .uint => readUint n cs
  | .bytes => do return .bytes (← readBytes n cs)
  | .txnField => do return .txn (← readTxnField n cs)
  | .groupField => readGroupField n line cs
  | .globalField => do return .global (← readGlobalField n cs)
  | .label => readLabel n op.name cs

/-! ## Lines -/

/-- The mnemonic of a line and the text behind it. -/
def splitMnemonic (line : List Char) : List Char × List Char :=
  match splitBlank? line with
  | some (mnemonic, rest) => (mnemonic, trim rest)
  | none => (line, [])

def readInstruction (version : UInt8) (n : Nat) (line : List Char) :
    Except AssemblyError Instruction := do
  let (mnemonic, rest) := splitMnemonic line
  match Opcode.ofName? (String.ofList mnemonic) with
  | none => throw (.unknownInstruction n (String.ofList mnemonic))
  | some op =>
    let i : Instruction := ⟨op, ← readImmediate n line op rest⟩
    if version < i.minVersion then throw (.notAvailable n i version)
    return i

/-- The line behind a colon that ends it, as a label; nothing for other lines. -/
def labelText? (line : List Char) : Option (List Char) :=
  if line.getLast? = some ':' then some line.dropLast else none

def readLine (version : UInt8) (n : Nat) (line : List Char) : Except AssemblyError Line :=
  match labelText? line with
  | some name =>
    if name.isEmpty || name.any isBlank then .error (.invalidArgument n (String.ofList line))
    else .ok (.label (String.ofList name))
  | none => do return .op (← readInstruction version n line)

end Source

end ContractBench
