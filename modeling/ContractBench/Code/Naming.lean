import ContractBench.Code.Item
import ContractBench.Expr.Typing
/-!
# Names for labels

Labels are named `main_l1`, `main_l2`, and so on in the order of their marks. What is left of an
item is a line, and the lines make a listing if its version knows them all.
-/

namespace ContractBench

/-- The name of the label with a position among the marks. -/
def labelName (position : Nat) : String := "main_l" ++ toString (position + 1)

namespace Item

/-- The name of a label of a piece of code. -/
def nameOf (items : List Item) (l : Label) : Except CompileError String :=
  match (marks items).idxOf? l with
  | some position => .ok (labelName position)
  | none => .error (.undefinedLabel (number items l))

/-- An item of a piece of code as a line of a listing. -/
def line (items : List Item) : Item → Except CompileError Line
  | .op i _ => .ok (.op i)
  | .jump opcode l _ => do return .op ⟨opcode, .label (← nameOf items l)⟩
  | .mark l _ => do return .label (← nameOf items l)

def origin : Item → NodePath
  | .op _ p | .jump _ _ p | .mark _ p => p

/-- The lines of a piece of code, each with the path of the node it comes from. -/
def lines (items : List Item) : Except CompileError (List (Line × NodePath)) :=
  items.mapM fun item => do return (← item.line items, item.origin)

end Item

namespace Listing

/-- The first instruction that a version does not know. -/
def firstUnsupported? (version : UInt8) (lines : List (Line × NodePath)) :
    Option (Instruction × NodePath) :=
  lines.findSome? fun (line, origin) =>
    match line with
    | .op i => if version < i.minVersion then some (i, origin) else none
    | .label _ => none

/-- The lines as a listing, if its version knows every instruction. -/
def ofLines (version : UInt8) (lines : List (Line × NodePath)) : Except CompileError Listing :=
  match firstUnsupported? version lines with
  | some (i, origin) =>
    .error (.unsupportedAtVersion origin.text i.text i.minVersion version)
  | none => .ok ⟨version, lines.map (·.1)⟩

end Listing

end ContractBench
