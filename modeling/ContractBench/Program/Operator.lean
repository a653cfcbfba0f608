import ContractBench.State.Value
import ContractBench.Transaction.Basic
/-!
# Operators and named constants

The operators of expressions are also instructions of the machine, under the same names.
-/

namespace ContractBench

inductive UnaryOp where
  | not
  | len
  | itob
  | btoi
deriving DecidableEq, Inhabited

namespace UnaryOp

def all : List UnaryOp := [.not, .len, .itob, .btoi]

def symbol : UnaryOp → String
  | .not => "!"
  | .len => "len"
  | .itob => "itob"
  | .btoi => "btoi"

def operandType : UnaryOp → ValueType
  | .not | .itob => .int
  | .len | .btoi => .bytes

def resultType : UnaryOp → ValueType
  | .not | .len | .btoi => .int
  | .itob => .bytes

end UnaryOp

inductive BinaryOp where
  | eq
  | ne
  | lt
  | gt
  | le
  | ge
  | add
  | sub
  | mul
  | div
  | mod
  | and
  | or
  | concat
deriving DecidableEq, Inhabited

namespace BinaryOp

def all : List BinaryOp :=
  [.eq, .ne, .lt, .gt, .le, .ge, .add, .sub, .mul, .div, .mod, .and, .or, .concat]

def symbol : BinaryOp → String
  | .eq => "=="
  | .ne => "!="
  | .lt => "<"
  | .gt => ">"
  | .le => "<="
  | .ge => ">="
  | .add => "+"
  | .sub => "-"
  | .mul => "*"
  | .div => "/"
  | .mod => "%"
  | .and => "&&"
  | .or => "||"
  | .concat => "concat"

/-- The type both operands must have; nothing if any one type will do. -/
def operandType? : BinaryOp → Option ValueType
  | .eq | .ne => none
  | .concat => some .bytes
  | _ => some .int

def resultType : BinaryOp → ValueType
  | .concat => .bytes
  | _ => .int

end BinaryOp

/-- An integer constant that listings show by name. -/
inductive NamedConst where
  | txnType (t : TransactionType)
  | onComplete (c : OnComplete)
deriving DecidableEq, Inhabited

namespace NamedConst

def name : NamedConst → String
  | .txnType t => t.name
  | .onComplete c => c.name

def value : NamedConst → UInt64
  | .txnType t => t.code
  | .onComplete c => c.code

def ofName? (name : String) : Option NamedConst :=
  ((TransactionType.ofName? name).map .txnType).or ((OnComplete.ofName? name).map .onComplete)

theorem ofName?_name (c : NamedConst) : ofName? c.name = some c := by
  rcases c with t | c
  · cases t <;> decide +kernel
  · cases c <;> decide +kernel

end NamedConst

end ContractBench
