import ContractBench.Expr.Path
import ContractBench.Expr.Typing
/-!
# One type for each key

Within a tree every read and write of a key, in the global store or in local stores, must agree
on the type of its value. The check walks the tree in order, types each node after its children,
and registers the keys it meets; unreachable nodes take part.
-/

namespace ContractBench

/-- Which stores a key belongs to; the local stores of all accounts share their keys. -/
inductive KeySpace where
  | global
  | account
deriving DecidableEq, Inhabited

/-- A key as a tree names it. -/
structure StateKey where
  space : KeySpace
  key : Bytes
deriving DecidableEq, Inhabited

/-- The types registered so far. -/
abbrev KeyTypes := List (StateKey × ValueType)

namespace KeyTypes

/-- The types with one more use of a key, unless that use disagrees with an earlier one. -/
def register (types : KeyTypes) (path : NodePath) (k : StateKey) (type : ValueType) :
    Except CompileError KeyTypes :=
  match types.lookup k with
  | some known =>
    if known = type then .ok types
    else
      .error (.typeMismatch (path.text ++ " (key " ++ k.key.readable ++ ")")
        (.value known) (.value type))
  | none => .ok ((k, type) :: types)

end KeyTypes

namespace Expr

/-- The use of a key that a node itself makes. -/
def keyUse? : Expr → Option (StateKey × ValueType)
  | .globalGet key type => some (⟨.global, key⟩, type)
  | .localGet _ key type => some (⟨.account, key⟩, type)
  | .globalPut key value => value.type.valueType?.map (⟨.global, key⟩, ·)
  | .localPut _ key value => value.type.valueType?.map (⟨.account, key⟩, ·)
  | _ => none

/-- One node: its type and termination are inferred anew, and its key is registered. -/
def checkNode (path : NodePath) (types : KeyTypes) (e : Expr) : Except CompileError KeyTypes := do
  let (t, ends) ← e.infer path.text
  if t ≠ e.type ∨ ends ≠ e.terminates then throw (.typeMismatch path.text e.type t)
  match e.keyUse? with
  | some (k, type) => types.register path k type
  | none => return types

mutual

/-- A tree: the children in order, then the node. -/
def checkTypes (path : NodePath) (types : KeyTypes) (e : Expr) : Except CompileError KeyTypes := do
  let types ← match e with
    | .unary _ operand => checkTypes (path.enter .operand operand) types operand
    | .binary _ left right => do
      checkTypes (path.enter .rhs right) (← checkTypes (path.enter .lhs left) types left) right
    | .localGet account _ _ => checkTypes (path.enter .account account) types account
    | .globalPut _ value => checkTypes (path.enter .value value) types value
    | .localPut account _ value => do
      checkTypes (path.enter .value value)
        (← checkTypes (path.enter .account account) types account) value
    | .log value => checkTypes (path.enter .operand value) types value
    | .seq items => checkItems path 0 types items
    | .cond arms => checkArms path 0 types arms
    | _ => .ok types
  checkNode path types e
termination_by structural e

def checkItems (path : NodePath) (i : Nat) (types : KeyTypes) (items : List Expr) :
    Except CompileError KeyTypes :=
  match items with
  | [] => .ok types
  | e :: rest => do
    checkItems path (i + 1) (← checkTypes (path.enter (.item i) e) types e) rest
termination_by structural items

def checkArms (path : NodePath) (i : Nat) (types : KeyTypes) (arms : List (Expr × Expr)) :
    Except CompileError KeyTypes :=
  match arms with
  | [] => .ok types
  | (test, body) :: rest => do
    let types ← checkTypes (path.enter (.test i) test) types test
    let types ← checkTypes (path.enter (.body i) body) types body
    checkArms path (i + 1) types rest
termination_by structural arms

end

end Expr

end ContractBench
