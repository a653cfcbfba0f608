import ContractBench.Expr.Path
import ContractBench.Program.Listing
/-!
# Code before labels have names

A tree is lowered to items: instructions, jumps and marks, each with the path of the node it comes
from. A label belongs to one node, so labels of different nodes differ.
-/

namespace ContractBench

/-- A place to jump to, named by the node that owns it. -/
inductive Label where
  /-- Behind the default of a read whose key is absent. -/
  | found (owner : List Role)
  /-- The body of an arm. -/
  | arm (owner : List Role) (index : Nat)
  /-- Behind the last body of a choice. -/
  | done (owner : List Role)
deriving DecidableEq, Inhabited

inductive Item where
  | op (instruction : Instruction) (origin : NodePath)
  | jump (op : Opcode) (target : Label) (origin : NodePath)
  | mark (label : Label) (origin : NodePath)
deriving DecidableEq, Inhabited

namespace Item

/-- The labels marked by a piece of code, in order. -/
def marks (items : List Item) : List Label :=
  items.filterMap fun
    | .mark l _ => some l
    | _ => none

/-- The labels a piece of code jumps to, in order. -/
def targets (items : List Item) : List Label :=
  items.filterMap fun
    | .jump _ l _ => some l
    | _ => none

/-- The number of a label: labels are counted from 0 by the first jumps to them. -/
def number (items : List Item) (l : Label) : Nat := (targets items).eraseDups.idxOf l

/-- The number of instructions in a piece of code. -/
def count (items : List Item) : Nat :=
  (items.filter fun
    | .mark _ _ => false
    | _ => true).length

end Item

end ContractBench
