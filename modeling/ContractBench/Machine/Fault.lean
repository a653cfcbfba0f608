import ContractBench.Program.Listing
import ContractBench.State.View
/-!
# Faults

What can end a run without a verdict.
-/

namespace ContractBench

/-- Most values the stack can hold. -/
def maxStackSize : Nat := 1000

/-- Cost of one run unless the context says otherwise. -/
def defaultCostBudget : UInt64 := 700

def maxLogEntries : Nat := 32

/-- Most bytes the log entries of a run can have together. -/
def maxLogBytes : Nat := 1024

/-- Longest byte string that can be joined from two. -/
def maxBytesLength : Nat := 4096

inductive Fault where
  | stackOverflow
  | stackUnderflow
  /-- An operand of the wrong type; without a type, two operands that should have one. -/
  | typeMismatch (op : Opcode) (expected : Option ValueType)
  | costBudgetExceeded (budget : UInt64)
  | integerOverflow
  | integerUnderflow
  | divisionByZero
  | explicitErr
  | invalidJump (instruction : Instruction)
  | malformedInstruction (instruction : Instruction)
  | fieldUnavailable (field : TxnField) (type : TransactionType)
  | groupIndexOutOfRange (index size : Nat)
  /-- An operand that names none of the accessible accounts. -/
  | accountNotAccessible (operand : Value)
  | notOptedIn (account : Address)
  | foreignApplication (appId : UInt64)
  | bytesTooLong (length max : Nat)
  | logLimitExceeded
  | invalidFinalStack (count : Nat)
  | state (error : StateError)
deriving DecidableEq

def Fault.message : Fault → String
  | .stackOverflow => "Stack overflow"
  | .stackUnderflow => "Stack underflow"
  | .typeMismatch op (some t) => op.name ++ ": expected " ++ t.name ++ " operand"
  | .typeMismatch op none => op.name ++ ": expected matching operand"
  | .costBudgetExceeded budget => "Cost budget exceeded (budget: " ++ toString budget ++ ")"
  | .integerOverflow => "Integer overflow"
  | .integerUnderflow => "Integer underflow"
  | .divisionByZero => "Division by zero"
  | .explicitErr => "Program executed err"
  | .invalidJump i => "Invalid jump: " ++ i.text
  | .malformedInstruction i => "Malformed instruction: " ++ i.text
  | .fieldUnavailable field type =>
    "Field " ++ field.name ++ " unavailable on " ++ type.name ++ " transaction"
  | .groupIndexOutOfRange index size =>
    "Group index " ++ toString index ++ " out of range for group of " ++ toString size
  | .accountNotAccessible (.int index) => "Account not accessible: index " ++ toString index
  | .accountNotAccessible (.bytes b) => "Account not accessible: " ++ Hex.encode b
  | .notOptedIn account => "Account not opted in: " ++ account.toHex
  | .foreignApplication appId => "State of application " ++ toString appId ++ " is not available"
  | .bytesTooLong length max =>
    "Byte string too long: " ++ toString length ++ " (max: " ++ toString max ++ ")"
  | .logLimitExceeded => "Log limit exceeded"
  | .invalidFinalStack count =>
    "Program ended with " ++ toString count ++ " stack values instead of a single integer"
  | .state e => "State error: " ++ e.message

end ContractBench
