import ContractBench.Program.Field
import ContractBench.Program.Operator
/-!
# Instructions

An opcode has a mnemonic, a first version, the number of values it pops and pushes, and the kind
of immediate that is written behind it.
-/

namespace ContractBench

def minProgramVersion : UInt8 := 1

def maxProgramVersion : UInt8 := 8

/-- Whether programs of a version can be compiled and assembled. -/
def isSupported (version : UInt8) : Bool :=
  minProgramVersion ≤ version && version ≤ maxProgramVersion

inductive Opcode where
  /-- Push an integer constant. -/
  | int
  /-- Push a byte string constant. -/
  | byte
  /-- Push a field of the current transaction. -/
  | txn
  /-- Push a field of a group member. -/
  | gtxn
  /-- Push a ledger field. -/
  | global
  | binary (op : BinaryOp)
  | unary (op : UnaryOp)
  | pop
  | dup
  /-- Jump if the top is not zero. -/
  | bnz
  /-- Jump if the top is zero. -/
  | bz
  /-- Jump. -/
  | jump
  /-- Fail. -/
  | err
  /-- End the program; it approves if the top is not zero. -/
  | ret
  | log
  | appGlobalGet
  | appGlobalGetEx
  | appGlobalPut
  | appLocalGet
  | appLocalGetEx
  | appLocalPut
deriving DecidableEq, Inhabited

/-- What is written behind a mnemonic. -/
inductive ImmediateKind where
  | absent
  | uint
  | bytes
  | txnField
  | groupField
  | globalField
  | label
deriving DecidableEq, Inhabited

namespace Opcode

def all : List Opcode :=
  [.int, .byte, .txn, .gtxn, .global,
   .binary .eq, .binary .ne, .binary .lt, .binary .gt, .binary .le, .binary .ge,
   .binary .add, .binary .sub, .binary .mul, .binary .div, .binary .mod,
   .binary .and, .binary .or, .unary .not,
   .unary .len, .unary .itob, .unary .btoi, .binary .concat,
   .pop, .dup, .bnz, .bz, .jump, .err, .ret, .log,
   .appGlobalGet, .appGlobalGetEx, .appGlobalPut, .appLocalGet, .appLocalGetEx, .appLocalPut]

def name : Opcode → String
  | .int => "int"
  | .byte => "byte"
  | .txn => "txn"
  | .gtxn => "gtxn"
  | .global => "global"
  | .binary op => op.symbol
  | .unary op => op.symbol
  | .pop => "pop"
  | .dup => "dup"
  | .bnz => "bnz"
  | .bz => "bz"
  | .jump => "b"
  | .err => "err"
  | .ret => "return"
  | .log => "log"
  | .appGlobalGet => "app_global_get"
  | .appGlobalGetEx => "app_global_get_ex"
  | .appGlobalPut => "app_global_put"
  | .appLocalGet => "app_local_get"
  | .appLocalGetEx => "app_local_get_ex"
  | .appLocalPut => "app_local_put"

def ofName? (name : String) : Option Opcode := all.find? (·.name == name)

def minVersion : Opcode → UInt8
  | .binary .concat | .jump | .bz | .ret => 2
  | .appGlobalGet | .appGlobalGetEx | .appGlobalPut
  | .appLocalGet | .appLocalGetEx | .appLocalPut => 2
  | .log => 5
  | _ => 1

/-- How many values an opcode takes from the stack. -/
def pops : Opcode → Nat
  | .int | .byte | .txn | .gtxn | .global => 0
  | .binary _ => 2
  | .unary _ => 1
  | .pop | .dup | .bnz | .bz | .ret | .log => 1
  | .jump | .err => 0
  | .appGlobalGet => 1
  | .appGlobalGetEx | .appGlobalPut | .appLocalGet => 2
  | .appLocalGetEx | .appLocalPut => 3

/-- How many values an opcode leaves on the stack. -/
def pushes : Opcode → Nat
  | .int | .byte | .txn | .gtxn | .global => 1
  | .binary _ | .unary _ => 1
  | .dup => 2
  | .pop | .bnz | .bz | .jump | .err | .ret | .log => 0
  | .appGlobalGet | .appLocalGet => 1
  | .appGlobalGetEx | .appLocalGetEx => 2
  | .appGlobalPut | .appLocalPut => 0

def immediateKind : Opcode → ImmediateKind
  | .int => .uint
  | .byte => .bytes
  | .txn => .txnField
  | .gtxn => .groupField
  | .global => .globalField
  | .bnz | .bz | .jump => .label
  | _ => .absent

/-- Whether control never goes on to the next instruction. -/
def endsBlock : Opcode → Bool
  | .jump | .err | .ret => true
  | _ => false

theorem ofName?_name (op : Opcode) : ofName? op.name = some op := by
  cases op with
  | binary op => cases op <;> decide +kernel
  | unary op => cases op <;> decide +kernel
  | _ => decide +kernel

end Opcode

/-- The operand an instruction carries. -/
inductive Immediate where
  | absent
  | uint (value : UInt64)
  /-- A constant shown by its name. -/
  | named (constant : NamedConst)
  | bytes (value : Bytes)
  | txn (field : TxnField)
  | gtxn (index : UInt8) (field : TxnField)
  | global (field : GlobalField)
  /-- A jump target by name. -/
  | label (name : String)
  /-- A jump target by instruction index. -/
  | target (index : Nat)
deriving DecidableEq, Inhabited

structure Instruction where
  op : Opcode
  imm : Immediate
deriving DecidableEq, Inhabited

namespace Immediate

/-- The text behind a mnemonic, with the blank in front of it. -/
def text : Immediate → String
  | .absent => ""
  | .uint value => " " ++ toString value
  | .named constant => " " ++ constant.name
  | .bytes value => " " ++ value.readable
  | .txn field => " " ++ field.name
  | .gtxn index field => " " ++ toString index ++ " " ++ field.name
  | .global field => " " ++ field.name
  | .label name => " " ++ name
  | .target index => " @" ++ toString index

/-- The first version that knows the field an immediate names. -/
def minVersion : Immediate → UInt8
  | .txn field | .gtxn _ field => field.minVersion
  | .global field => field.minVersion
  | _ => 1

end Immediate

namespace Instruction

def plain (op : Opcode) : Instruction := ⟨op, .absent⟩

def int (value : UInt64) : Instruction := ⟨.int, .uint value⟩

def named (constant : NamedConst) : Instruction := ⟨.int, .named constant⟩

def bytes (value : Bytes) : Instruction := ⟨.byte, .bytes value⟩

def text (i : Instruction) : String := i.op.name ++ i.imm.text

/-- The first version that knows the opcode and the field it reads. -/
def minVersion (i : Instruction) : UInt8 := max i.op.minVersion i.imm.minVersion

end Instruction

end ContractBench
