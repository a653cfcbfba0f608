import ContractBench.Program.Field
import ContractBench.Program.Operator
/-!
# Expressions

A program is written as a tree. Every node has a type, a value type or `statement`, and a flag
that says whether each path through it ends the program. Both are read off the tree:

    (seq items).terminates  ↔  some item terminates
    (cond arms).terminates  ↔  every body terminates
-/

namespace ContractBench

/-- What a node leaves on the stack: a value of a type, or nothing. -/
inductive ExprType where
  | value (t : ValueType)
  | statement
deriving DecidableEq, Inhabited

namespace ExprType

def name : ExprType → String
  | .value t => t.name
  | .statement => "none"

def valueType? : ExprType → Option ValueType
  | .value t => some t
  | .statement => none

/-- How many values a node of the type leaves on the stack. -/
def stackDelta : ExprType → Nat
  | .value _ => 1
  | .statement => 0

end ExprType

/-- The transaction a field is read from. -/
inductive TxnSource where
  | current
  /-- A group member by position. -/
  | member (index : UInt8)
deriving DecidableEq, Inhabited

inductive Expr where
  | int (value : UInt64)
  | bytes (value : Bytes)
  | named (constant : NamedConst)
  | txn (source : TxnSource) (field : TxnField)
  | global (field : GlobalField)
  | unary (op : UnaryOp) (operand : Expr)
  | binary (op : BinaryOp) (left right : Expr)
  /-- The value of a global key, or the zero of the type if the key is absent. -/
  | globalGet (key : Bytes) (type : ValueType)
  /-- The value of a local key of an account, or the zero of the type. -/
  | localGet (account : Expr) (key : Bytes) (type : ValueType)
  | globalPut (key : Bytes) (value : Expr)
  | localPut (account : Expr) (key : Bytes) (value : Expr)
  | log (value : Expr)
  /-- The end of the program with a verdict. -/
  | verdict (approve : Bool)
  /-- Items in order; the value is that of the last. -/
  | seq (items : List Expr)
  /-- Tests with bodies: the body of the first test that is not zero; without one, failure. -/
  | cond (arms : List (Expr × Expr))

namespace Expr

def approve : Expr := .verdict true

def reject : Expr := .verdict false

instance : Inhabited Expr := ⟨approve⟩

/-! ## Names of nodes -/

/-- A short name of a node for error texts. -/
def describe : Expr → String
  | .int value => "int(" ++ toString value ++ ")"
  | .bytes value => "bytes(" ++ value.readable ++ ")"
  | .named constant => "int(" ++ constant.name ++ ")"
  | .txn .current field => "txn." ++ field.name
  | .txn (.member index) field => "gtxn[" ++ toString index ++ "]." ++ field.name
  | .global field => "global." ++ field.name
  | .unary op _ => "unary(" ++ op.symbol ++ ")"
  | .binary op _ _ => "binary(" ++ op.symbol ++ ")"
  | .globalGet key _ => "global_get(" ++ key.readable ++ ")"
  | .localGet _ key _ => "local_get(" ++ key.readable ++ ")"
  | .globalPut key _ => "global_put(" ++ key.readable ++ ")"
  | .localPut _ key _ => "local_put(" ++ key.readable ++ ")"
  | .log _ => "log"
  | .verdict true => "approve"
  | .verdict false => "reject"
  | .seq _ => "seq"
  | .cond _ => "cond"

/-! ## Termination and type -/

mutual

/-- Whether every path through a node ends the program. -/
def terminates : Expr → Bool
  | .verdict _ => true
  | .seq items => anyTerminates items
  | .cond arms => bodiesTerminate arms
  | _ => false

def anyTerminates : List Expr → Bool
  | [] => false
  | e :: rest => e.terminates || anyTerminates rest

def bodiesTerminate : List (Expr × Expr) → Bool
  | [] => true
  | (_, body) :: rest => body.terminates && bodiesTerminate rest

end

mutual

/-- The type of a node: a sequence has that of its last item, a choice that of its first body
that does not terminate, and a node that terminates is a statement. -/
def type : Expr → ExprType
  | .int _ => .value .int
  | .bytes _ => .value .bytes
  | .named _ => .value .int
  | .txn _ field => .value field.valueType
  | .global field => .value field.valueType
  | .unary op _ => .value op.resultType
  | .binary op _ _ => .value op.resultType
  | .globalGet _ type => .value type
  | .localGet _ _ type => .value type
  | .globalPut _ _ => .statement
  | .localPut _ _ _ => .statement
  | .log _ => .statement
  | .verdict _ => .statement
  | .seq items => if anyTerminates items then .statement else lastType items
  | .cond arms => bodyType arms

def lastType : List Expr → ExprType
  | [] => .statement
  | [e] => e.type
  | _ :: e :: rest => lastType (e :: rest)

def bodyType : List (Expr × Expr) → ExprType
  | [] => .statement
  | (_, body) :: rest => if body.terminates then bodyType rest else body.type

end

theorem anyTerminates_eq_any (items : List Expr) :
    anyTerminates items = items.any terminates := by
  induction items with
  | nil => rfl
  | cons e rest ih => simp [anyTerminates, ih]

theorem bodiesTerminate_eq_all (arms : List (Expr × Expr)) :
    bodiesTerminate arms = arms.all fun arm => arm.2.terminates := by
  induction arms with
  | nil => rfl
  | cons arm rest ih => simp [bodiesTerminate, ih]

end Expr

end ContractBench
