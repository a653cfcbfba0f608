import ContractBench.Transaction.Encoding
/-!
# Transaction groups

A group holds 1 to 16 transactions that succeed or fail together. Its id is the digest of its
members' ids, in order, behind the tag `TG`.
-/

namespace ContractBench

structure Group where
  members : List Transaction
  nonempty : members ≠ []
  length_le : members.length ≤ maxGroupSize
deriving DecidableEq

namespace Group

def ofList (members : List Transaction) : Except TransactionError Group :=
  if h0 : members = [] then .error .emptyGroup
  else if h : members.length ≤ maxGroupSize then .ok ⟨members, h0, h⟩
  else .error (.groupTooLarge members.length)

def single (t : Transaction) : Group := ⟨[t], by simp, by simp [maxGroupSize]⟩

def size (g : Group) : Nat := g.members.length

def get? (g : Group) (index : Nat) : Option Transaction := g.members[index]?

/-- The member at a position, or an error that names the position. -/
def member (g : Group) (index : Nat) : Except TransactionError Transaction :=
  match g.get? index with
  | some t => .ok t
  | none => .error (.indexOutOfRange index g.size)

/-- What is hashed for the id of a group when members are identified by a digest function. -/
def idMessageBy (digest : Bytes → Digest) (g : Group) : Bytes :=
  taggedMessage "TG" (g.members.flatMap fun t => (t.idBy digest).bytes)

/-- The id a digest function gives to a group. -/
def idBy (digest : Bytes → Digest) (g : Group) : Digest := digest (g.idMessageBy digest)

def id (g : Group) : Digest := idBy sha256 g

end Group

end ContractBench
