/-!
# What can be wrong with a transaction or a group
-/

namespace ContractBench

/-- Most transactions one group can hold. -/
def maxGroupSize : Nat := 16

inductive TransactionError where
  | invalidAddress (text : String)
  | emptyGroup
  | groupTooLarge (size : Nat)
  | indexOutOfRange (index size : Nat)
deriving DecidableEq

def TransactionError.message : TransactionError → String
  | .invalidAddress text => "Invalid address: " ++ text
  | .emptyGroup => "Transaction group is empty"
  | .groupTooLarge size =>
    "Transaction group too large: " ++ toString size ++ " (max: " ++ toString maxGroupSize ++ ")"
  | .indexOutOfRange index size =>
    "Group index " ++ toString index ++ " out of range for group of " ++ toString size

end ContractBench
