import ContractBench.Code.Lowering
import ContractBench.Expr.Typing
/-!
# Stack depth

A pass over the code that follows the number of values on the stack by the pops and pushes of each
opcode alone. Behind an instruction that ends its block the depth is unknown until the next mark
that a jump has reached. Three things can be wrong: an instruction pops more than is there, a label
is reached with two depths, or a node that goes on changes the depth by anything but what its type
says. The first of these in the order of the code is the error.
-/

namespace ContractBench

/-- What is known between two items: the depth, unless control cannot get here, and the depth at
which each label is reached. -/
structure DepthState where
  depth : Option Nat := some 0
  arrivals : List (Label × Nat) := []
deriving DecidableEq, Inhabited

namespace DepthState

/-- One more arrival at a label. -/
def arrive (s : DepthState) (l : Label) (depth : Nat) (origin : NodePath) :
    Except CompileError DepthState :=
  match s.arrivals.lookup l with
  | some known =>
    if known = depth then .ok s else .error (.stackImbalance origin.text known depth)
  | none => .ok { s with arrivals := (l, depth) :: s.arrivals }

/-- The state behind an item. -/
def step (s : DepthState) : Item → Except CompileError DepthState
  | .op i origin =>
    match s.depth with
    | none => .ok s
    | some d =>
      if d < i.op.pops then .error (.stackImbalance origin.text (-i.op.pops) (-d))
      else if i.op.endsBlock then .ok { s with depth := none }
      else .ok { s with depth := some (d - i.op.pops + i.op.pushes) }
  | .jump op l origin =>
    match s.depth with
    | none => .ok s
    | some d => do
      if d < op.pops then throw (.stackImbalance origin.text (-op.pops) (-d))
      let s ← s.arrive l (d - op.pops) origin
      return { s with depth := if op.endsBlock then none else some (d - op.pops) }
  | .mark l origin => do
    let s ← match s.depth with
      | some d => s.arrive l d origin
      | none => .ok s
    return { s with depth := s.arrivals.lookup l }

/-- The state behind a piece of code. -/
def run (s : DepthState) (items : List Item) : Except CompileError DepthState :=
  items.foldlM step s

end DepthState

namespace Expr

/-- That a node that goes on changes the depth by what its type says. Nothing is asked where
control does not get. -/
def checkChange (p : NodePath) (before after : Option Nat) (e : Expr) : Except CompileError Unit :=
  match before, after with
  | some b, some a =>
    if e.terminates ∨ (a : Int) - b = e.type.stackDelta then .ok ()
    else .error (.stackImbalance p.text e.type.stackDelta (a - b))
  | _, _ => .ok ()

mutual

/-- The state behind the code of the node at a path. The children are checked where their code
stands, the node itself behind all of its code. -/
def checkDepth (p : NodePath) (e : Expr) (s : DepthState) : Except CompileError DepthState := do
  let s' ← (match e with
    | .unary op operand => do
      let s ← checkDepth (p.enter .operand operand) operand s
      s.run [.op (.plain (.unary op)) p]
    | .binary op left right => do
      let s ← checkDepth (p.enter .lhs left) left s
      let s ← checkDepth (p.enter .rhs right) right s
      s.run [.op (.plain (.binary op)) p]
    | .localGet account key type => do
      let s ← checkDepth (p.enter .account account) account s
      s.run (lowerRead p key type .appLocalGet .appLocalGetEx)
    | .globalPut key value => do
      let s ← s.run [.op (.bytes key) p]
      let s ← checkDepth (p.enter .value value) value s
      s.run [.op (.plain .appGlobalPut) p]
    | .localPut account key value => do
      let s ← checkDepth (p.enter .account account) account s
      let s ← s.run [.op (.bytes key) p]
      let s ← checkDepth (p.enter .value value) value s
      s.run [.op (.plain .appLocalPut) p]
    | .log value => do
      let s ← checkDepth (p.enter .operand value) value s
      s.run [.op (.plain .log) p]
    | .seq items => checkDepthItems p 0 items s
    | .cond arms => do
      let s ← checkDepthTests p 0 arms s
      let s ← s.run [.op (.plain .err) p]
      let s ← checkDepthBodies p 0 arms s
      s.run (if bodiesTerminate arms then [] else [.mark (.done p.roles) p])
    -- a node without children has no code but its own
    | e => s.run (lower p e))
  checkChange p s.depth s'.depth e
  return s'

/-- The state behind the items of a sequence from position `i` on. -/
def checkDepthItems (p : NodePath) (i : Nat) :
    List Expr → DepthState → Except CompileError DepthState
  | [], s => .ok s
  | e :: rest, s => do
    let s ← checkDepth (p.enter (.item i) e) e s
    if e.terminates then return s
    let s ← s.run (dropValue p e rest)
    checkDepthItems p (i + 1) rest s

/-- The state behind the tests of a choice from arm `i` on. -/
def checkDepthTests (p : NodePath) (i : Nat) :
    List (Expr × Expr) → DepthState → Except CompileError DepthState
  | [], s => .ok s
  | (test, _) :: rest, s => do
    let s ← checkDepth (p.enter (.test i) test) test s
    let s ← s.run [.jump .bnz (.arm p.roles i) p]
    checkDepthTests p (i + 1) rest s

/-- The state behind the bodies of a choice from arm `i` on. -/
def checkDepthBodies (p : NodePath) (i : Nat) :
    List (Expr × Expr) → DepthState → Except CompileError DepthState
  | [], s => .ok s
  | (_, body) :: rest, s => do
    let s ← s.run [.mark (.arm p.roles i) p]
    let s ← checkDepth (p.enter (.body i) body) body s
    let s ← s.run (if body.terminates then [] else [.jump .jump (.done p.roles) p])
    checkDepthBodies p (i + 1) rest s

end

end Expr

end ContractBench
