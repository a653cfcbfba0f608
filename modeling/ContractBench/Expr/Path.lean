import ContractBench.Expr.Basic
/-!
# Paths to nodes

A node is named by the way from the root to it: the part each node plays in its parent, and a
short name of the node. Two children of one node play different parts.
-/

namespace ContractBench

/-- The part a node plays in its parent. -/
inductive Role where
  | root
  | operand
  | lhs
  | rhs
  | account
  | value
  | item (index : Nat)
  | test (index : Nat)
  | body (index : Nat)
deriving DecidableEq, Inhabited

def Role.text : Role → String
  | .root | .operand => ""
  | .lhs => "lhs:"
  | .rhs => "rhs:"
  | .account => "account:"
  | .value => "value:"
  | .item index => toString index ++ ":"
  | .test index => "when" ++ toString index ++ ":"
  | .body index => "then" ++ toString index ++ ":"

/-- The nodes from a node up to the root, each with its part and its name. -/
abbrev NodePath := List (Role × String)

namespace NodePath

/-- The path of a root that goes by a name. -/
def root (name : String) : NodePath := [(.root, name)]

/-- One step down to a child. -/
def enter (p : NodePath) (role : Role) (child : Expr) : NodePath := (role, child.describe) :: p

/-- The parts alone; they tell the nodes of a tree apart. -/
def roles (p : NodePath) : List Role := p.map (·.1)

/-- The path from the root down. -/
def text (p : NodePath) : String :=
  " / ".intercalate (p.reverse.map fun s => s.1.text ++ s.2)

end NodePath

namespace Expr

mutual

/-- The path to the node through which control leaves a tree that does not terminate. -/
def fallThrough (p : NodePath) : Expr → NodePath
  | .seq items => fallThroughLast p 0 items
  | .cond arms => fallThroughBody p 0 arms
  | _ => p

def fallThroughLast (p : NodePath) (i : Nat) : List Expr → NodePath
  | [] => p
  | [e] => fallThrough (p.enter (.item i) e) e
  | _ :: e :: rest => fallThroughLast p (i + 1) (e :: rest)

def fallThroughBody (p : NodePath) (i : Nat) : List (Expr × Expr) → NodePath
  | [] => p
  | (_, body) :: rest =>
    if body.terminates then fallThroughBody p (i + 1) rest
    else fallThrough (p.enter (.body i) body) body

end

end Expr

end ContractBench
