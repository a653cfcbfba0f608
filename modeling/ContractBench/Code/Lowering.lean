import ContractBench.Code.Item
/-!
# Lowering

Operands are lowered in order before their operator. A read of bytes asks whether the key is there
and puts the empty string in its place if not; a read of an integer needs no question, since an
absent key reads as 0. A sequence drops the values of all items but the last and stops behind an
item that terminates. A choice lowers all tests first, each with a jump to its body, then a failure
for the case that none holds, then the bodies; a body that goes on jumps behind the last one.
-/

namespace ContractBench

namespace Expr

/-- The code behind the operands of a read. -/
def lowerRead (p : NodePath) (key : Bytes) (type : ValueType) (get getEx : Opcode) : List Item :=
  match type with
  | .int => [.op (.bytes key) p, .op (.plain get) p]
  | .bytes =>
    [.op (.int 0) p, .op (.bytes key) p, .op (.plain getEx) p, .jump .bnz (.found p.roles) p,
     .op (.plain .pop) p, .op (.bytes []) p, .mark (.found p.roles) p]

/-- The instruction between two items of a sequence, if the first leaves a value. -/
def dropValue (p : NodePath) (e : Expr) (rest : List Expr) : List Item :=
  if e.type ≠ .statement ∧ !rest.isEmpty then [.op (.plain .pop) p] else []

mutual

/-- The code of the node at a path. -/
def lower (p : NodePath) : Expr → List Item
  | .int value => [.op (.int value) p]
  | .bytes value => [.op (.bytes value) p]
  | .named constant => [.op (.named constant) p]
  | .txn .current field => [.op ⟨.txn, .txn field⟩ p]
  | .txn (.member index) field => [.op ⟨.gtxn, .gtxn index field⟩ p]
  | .global field => [.op ⟨.global, .global field⟩ p]
  | .unary op operand => lower (p.enter .operand operand) operand ++ [.op (.plain (.unary op)) p]
  | .binary op left right =>
    lower (p.enter .lhs left) left ++ lower (p.enter .rhs right) right ++
      [.op (.plain (.binary op)) p]
  | .globalGet key type => lowerRead p key type .appGlobalGet .appGlobalGetEx
  | .localGet account key type =>
    lower (p.enter .account account) account ++
      lowerRead p key type .appLocalGet .appLocalGetEx
  | .globalPut key value =>
    .op (.bytes key) p :: lower (p.enter .value value) value ++ [.op (.plain .appGlobalPut) p]
  | .localPut account key value =>
    lower (p.enter .account account) account ++
      .op (.bytes key) p :: lower (p.enter .value value) value ++ [.op (.plain .appLocalPut) p]
  | .log value => lower (p.enter .operand value) value ++ [.op (.plain .log) p]
  | .verdict approve => [.op (.int (if approve then 1 else 0)) p, .op (.plain .ret) p]
  | .seq items => lowerItems p 0 items
  | .cond arms =>
    lowerTests p 0 arms ++ .op (.plain .err) p :: lowerBodies p 0 arms ++
      if bodiesTerminate arms then [] else [.mark (.done p.roles) p]

/-- The items of a sequence from position `i` on. -/
def lowerItems (p : NodePath) (i : Nat) : List Expr → List Item
  | [] => []
  | e :: rest =>
    lower (p.enter (.item i) e) e ++
      if e.terminates then [] else dropValue p e rest ++ lowerItems p (i + 1) rest

/-- The tests of a choice from arm `i` on. -/
def lowerTests (p : NodePath) (i : Nat) : List (Expr × Expr) → List Item
  | [] => []
  | (test, _) :: rest =>
    lower (p.enter (.test i) test) test ++
      .jump .bnz (.arm p.roles i) p :: lowerTests p (i + 1) rest

/-- The bodies of a choice from arm `i` on. -/
def lowerBodies (p : NodePath) (i : Nat) : List (Expr × Expr) → List Item
  | [] => []
  | (_, body) :: rest =>
    .mark (.arm p.roles i) p :: lower (p.enter (.body i) body) body ++
      (if body.terminates then [] else [.jump .jump (.done p.roles) p]) ++
        lowerBodies p (i + 1) rest

end

end Expr

end ContractBench
