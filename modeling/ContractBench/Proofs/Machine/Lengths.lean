import ContractBench.Proofs.Assembly.Assemble
import ContractBench.Proofs.Machine.Metered
import ContractBench.Proofs.State.Agrees
import Mathlib.Algebra.Order.BigOperators.Group.List
import Mathlib.Algebra.Order.Group.Nat
/-!
# How long byte strings get

A run joins byte strings up to a limit, and what it makes otherwise is short. Literals of the program,
notes of the group and stored values come in at any length (`Environment.Introduces`,
`AppState.Stores`). So a value that is too long to be joined is one of these, and every instruction
keeps it so:

    env.Explains (.bytes b) ↔ b.length ≤ maxBytesLength ∨ env.Introduces b ∨ env.state.Stores b
    m.Explained env → i ∈ env.program.instructions → m.exec env i = .ok m' → m'.Explained env
                                                                               (explained_exec)
    Reached env m → m.Explained env                                         (Reached.explained)

A log has room for less than the limit, whatever is logged.
-/

namespace ContractBench

open Success

/-! ## Algorithm -/

/-- A byte string that a run is given as it is: a literal of the program or a note of the group. -/
inductive Environment.Introduces (env : Environment) : Bytes → Prop
  | literal {i : Instruction} {b : Bytes} : i ∈ env.program.instructions → i.imm = .bytes b →
      Introduces env b
  | note {t : Transaction} : t ∈ env.group.members → Introduces env (utf8 t.note)

/-- A byte string is a value of the global store or of a local store. -/
inductive AppState.Stores (s : AppState) : Bytes → Prop
  | global {key b : Bytes} : s.globals.get? key = some (.bytes b) → Stores s b
  | account {a : Address} {key b : Bytes} : s.localValue? a key = some (.bytes b) → Stores s b

/-- A value that a run can have: a byte string that could not be joined is introduced or stored. -/
def Environment.Explains (env : Environment) : Value → Prop
  | .int _ => True
  | .bytes b => b.length ≤ maxBytesLength ∨ env.Introduces b ∨ env.state.Stores b

/-- A computation succeeds only with what satisfies a predicate. -/
def Gives {α : Type} (Q : α → Prop) (x : Except Fault α) : Prop := ∀ a, x = .ok a → Q a

namespace Machine

/-- A machine holds a byte string on its stack, in its log, or in a write, as the key or the value. -/
inductive Holds (m : Machine) : Bytes → Prop
  | stack {b : Bytes} : .bytes b ∈ m.stack → Holds m b
  | log {b : Bytes} : b ∈ m.logs → Holds m b
  | globalKey {key : Bytes} {x : Value} : m.pending.globals.get? key = some x → Holds m key
  | globalValue {key b : Bytes} : m.pending.globals.get? key = some (.bytes b) → Holds m b
  | localKey {k : LocalKey} {x : Value} : m.pending.locals.get? k = some x → Holds m k.key
  | localValue {k : LocalKey} {b : Bytes} : m.pending.locals.get? k = some (.bytes b) → Holds m b

/-- All that a machine holds can be explained. -/
structure Explained (env : Environment) (m : Machine) : Prop where
  stack : ∀ x ∈ m.stack, env.Explains x
  logs : ∀ b ∈ m.logs, env.Explains (.bytes b)
  globals : m.pending.globals.All fun key x => env.Explains (.bytes key) ∧ env.Explains x
  locals : m.pending.locals.All fun k x => env.Explains (.bytes k.key) ∧ env.Explains x

end Machine

/-! ## Lemmas -/

namespace Gives

variable {α β : Type} {P : α → Prop} {Q : β → Prop}

theorem ok {a : α} (h : P a) : Gives P (.ok a) := by
  rintro _ ⟨⟩
  exact h

theorem error (e : Fault) : Gives P (.error e) := nofun

theorem of_all (x : Except Fault α) (h : ∀ a, P a) : Gives P x := fun a _ => h a

theorem bind {x : Except Fault α} {f : α → Except Fault β} (hx : Gives P x)
    (hf : ∀ a, P a → Gives Q (f a)) : Gives Q (x >>= f) := by
  intro b hb
  obtain ⟨a, ha, hb⟩ := bind_eq_ok.1 hb
  exact hf a (hx a ha) b hb

end Gives

namespace Environment

variable {env : Environment}

theorem explains_int (n : UInt64) : env.Explains (.int n) := trivial

theorem explains_short {b : Bytes} (h : b.length ≤ maxBytesLength) : env.Explains (.bytes b) := .inl h

theorem explains_address (a : Address) : env.Explains (.bytes a.bytes) :=
  explains_short (by rw [a.length_eq]; decide)

theorem explains_getD {found : Option Value} (h : ∀ x, found = some x → env.Explains x) :
    env.Explains (found.getD (.int 0)) := by
  cases found with
  | none => exact explains_int 0
  | some x => exact h x rfl

end Environment

/-! ### Stacks -/

namespace Stack

variable {env : Environment} {s : Stack} {x : Value}

/-- All values of a stack can be explained. -/
def Explained (env : Environment) (s : Stack) : Prop := ∀ x ∈ s, env.Explains x

theorem explained_push (hs : s.Explained env) (hx : env.Explains x) :
    Gives (Explained env) (s.push x) := by
  unfold push
  split
  · exact .error _
  · exact .ok (List.forall_mem_cons.2 ⟨hx, hs⟩)

/-- Integers need no explanation. -/
theorem explained_pushInt (hs : s.Explained env) (n : UInt64) :
    Gives (Explained env) (s.push (.int n)) := explained_push hs (Environment.explains_int n)

theorem explained_pop (hs : s.Explained env) :
    Gives (fun r => env.Explains r.1 ∧ Explained env r.2) s.pop := by
  cases s with
  | nil => exact .error _
  | cons x s => exact .ok (List.forall_mem_cons.1 hs)

theorem explained_popInt (op : Opcode) (hs : s.Explained env) :
    Gives (fun r => Explained env r.2) (s.popInt op) := by
  match s with
  | [] => exact .error _
  | .int _ :: _ => exact .ok (List.forall_mem_cons.1 hs).2
  | .bytes _ :: _ => exact .error _

theorem explained_popBytes (op : Opcode) (hs : s.Explained env) :
    Gives (fun r => env.Explains (.bytes r.1) ∧ Explained env r.2) (s.popBytes op) := by
  match s with
  | [] => exact .error _
  | .bytes _ :: _ => exact .ok (List.forall_mem_cons.1 hs)
  | .int _ :: _ => exact .error _

theorem explained_pushLookup {found : Option Value} (hs : s.Explained env)
    (hf : ∀ x, found = some x → env.Explains x) :
    Gives (Explained env) (s.pushLookup found) := by
  cases found with
  | none => exact (explained_pushInt hs _).bind fun _ hs => explained_pushInt hs _
  | some x => exact (explained_push hs (hf x rfl)).bind fun _ hs => explained_pushInt hs _

/-! ### Operators -/

theorem explained_binary (op : BinaryOp) (hs : s.Explained env) :
    Gives (Explained env) (binary op s) := by
  generalize binary op = f, applies_binary op = h
  cases h with
  | equal g =>
    refine (explained_pop hs).bind fun b hb => (explained_pop hb.2).bind fun a ha => ?_
    dsimp only
    split
    · exact .error _
    · exact explained_pushInt ha.2 _
  | concat =>
    refine (explained_popBytes _ hs).bind fun b hb => (explained_popBytes _ hb.2).bind fun a ha => ?_
    dsimp only
    split
    · exact .error _
    · next hle =>
      refine explained_push ha.2 (Environment.explains_short ?_)
      rw [List.length_append]
      exact Nat.not_lt.1 hle
  | ints =>
    refine (explained_popInt _ hs).bind fun b hb => (explained_popInt _ hb).bind fun a ha => ?_
    exact Gives.bind (.of_all _ fun _ => trivial) fun n _ => explained_pushInt ha _

theorem explained_unary (op : UnaryOp) (hs : s.Explained env) :
    Gives (Explained env) (unary op s) := by
  cases op with
  | not => exact (explained_popInt _ hs).bind fun _ hs => explained_pushInt hs _
  | len => exact (explained_popBytes _ hs).bind fun _ hs => explained_pushInt hs.2 _
  | itob =>
    refine (explained_popInt _ hs).bind fun a hs => explained_push hs (Environment.explains_short ?_)
    rw [Bytes.length_ofWord]
    decide
  | btoi =>
    refine (explained_popBytes _ hs).bind fun b hs => ?_
    dsimp only
    split
    · exact .error _
    · exact explained_pushInt hs.2 _

end Stack

/-! ### Fields -/

namespace Environment

variable {env : Environment}

/-- Only the note of a transaction can be long. -/
theorem explains_readField {t : Transaction} (ht : t ∈ env.group.members) (index : Nat)
    (f : TxnField) : Gives env.Explains (t.readField index f) := by
  have hname : (utf8 t.type.name).length ≤ maxBytesLength := by
    cases t.type <;> decide
  have hid : t.id.bytes.length ≤ maxBytesLength := by
    rw [t.id.length_eq]
    decide
  unfold Transaction.readField
  cases f <;> dsimp only
  case note => exact .ok (.inr (.inl (.note ht)))
  case type => exact .ok (explains_short hname)
  case txId => exact .ok (explains_short hid)
  case sender => exact .ok (explains_address _)
  case fee | firstValid | lastValid | typeEnum | groupIndex => exact .ok trivial
  all_goals
    split
    · first | exact .ok trivial | exact .ok (explains_address _)
    · exact .error _

theorem explains_memberField (index : Nat) (f : TxnField) :
    Gives env.Explains (env.memberField index f) := by
  unfold memberField
  split
  · next t ht => exact explains_readField (List.mem_of_getElem? ht) index f
  · exact .error _

theorem explains_globalField (f : GlobalField) : env.Explains (env.globalField f) := by
  cases f with
  | zeroAddress => exact explains_address _
  | creatorAddress => exact explains_address _
  | _ => exact trivial

end Environment

/-! ### Instructions -/

namespace Machine

variable {env : Environment} {m m' : Machine} {i : Instruction}

namespace Explained

variable (h : m.Explained env)

include h

theorem withStack {s : Stack} (hs : s.Explained env) : Explained env { m with stack := s } :=
  { h with stack := hs }

theorem push {x : Value} (hx : env.Explains x) : Gives (Explained env) (m.push x) :=
  (Stack.explained_push h.stack hx).bind fun _ hs => .ok (h.withStack hs)

/-- What a machine reads of state was written before or is stored. -/
theorem getGlobal? {key : Bytes} {x : Value} (hx : (m.view env).getGlobal? key = some x) :
    env.Explains x := by
  rcases Option.or_eq_some_iff.1 hx with hx | ⟨-, hx⟩
  · exact (h.globals key x hx).2
  · cases x with
    | int n => exact trivial
    | bytes b => exact .inr (.inr (.global hx))

theorem getLocal? {a : Address} {key : Bytes} {x : Value}
    (hx : (m.view env).getLocal? a key = some x) : env.Explains x := by
  rcases Option.or_eq_some_iff.1 hx with hx | ⟨-, hx⟩
  · exact (h.locals ⟨a, key⟩ x hx).2
  · cases x with
    | int n => exact trivial
    | bytes b => exact .inr (.inr (.account hx))

theorem constant (hi : i ∈ env.program.instructions) :
    Gives (Explained env) (m.constant env i) := by
  unfold Machine.constant
  split
  · exact h.push trivial
  · exact h.push trivial
  · next b _ himm => exact h.push (.inr (.inl (.literal hi himm)))
  · exact (Environment.explains_memberField _ _).bind fun _ hx => h.push hx
  · exact (Environment.explains_memberField _ _).bind fun _ hx => h.push hx
  · exact h.push (Environment.explains_globalField _)
  · exact .error _

theorem branch (taken : UInt64 → Bool) : Gives (Explained env) (m.branch env i taken) :=
  Gives.bind (.of_all _ fun _ => trivial) fun _ _ =>
    (Stack.explained_popInt _ h.stack).bind fun _ hs => .ok { h with stack := hs }

theorem log : Gives (Explained env) m.log := by
  refine (Stack.explained_popBytes _ h.stack).bind fun b hb => ?_
  dsimp only
  split
  · exact .error _
  · refine .ok { h with stack := hb.2, logs := ?_ }
    rw [List.forall_mem_append]
    exact ⟨h.logs, List.forall_mem_singleton.2 hb.1⟩

end Explained

/-! ### State -/

theorem explained_popAccount {s : Stack} (hs : s.Explained env) :
    Gives (fun r => Stack.Explained env r.2) (popAccount env s) :=
  (Stack.explained_pop hs).bind fun _ hx =>
    Gives.bind (.of_all _ fun _ => trivial) fun _ _ => .ok hx.2

namespace Explained

variable (h : m.Explained env)

include h

theorem globalGet : Gives (Explained env) (m.globalGet env) := by
  refine (Stack.explained_popBytes _ h.stack).bind fun r hr => ?_
  refine (Stack.explained_push hr.2 (Environment.explains_getD fun x => h.getGlobal?)).bind ?_
  exact fun _ hs => .ok (h.withStack hs)

theorem globalGetEx : Gives (Explained env) (m.globalGetEx env) := by
  refine (Stack.explained_popBytes _ h.stack).bind fun r hr => ?_
  refine (Stack.explained_popInt _ hr.2).bind fun r hr => ?_
  refine Gives.bind (.of_all _ fun _ => trivial) fun _ _ => ?_
  exact (Stack.explained_pushLookup hr fun x => h.getGlobal?).bind fun _ hs => .ok (h.withStack hs)

theorem globalPut : Gives (Explained env) (m.globalPut env) := by
  refine (Stack.explained_pop h.stack).bind fun r hvalue => ?_
  refine (Stack.explained_popBytes _ hvalue.2).bind fun r hkey => ?_
  dsimp only
  split
  · next v hput =>
    obtain ⟨-, hlocals, hglobals⟩ := View.putGlobal_eq hput
    refine .ok { h with stack := hkey.2, globals := ?_, locals := ?_ }
    · rw [hglobals]
      exact h.globals.insert ⟨hkey.1, hvalue.1⟩
    · rw [hlocals]
      exact h.locals
  · exact .error _

theorem localGet : Gives (Explained env) (m.localGet env) := by
  refine (Stack.explained_popBytes _ h.stack).bind fun r hr => ?_
  refine (explained_popAccount hr.2).bind fun r hr => ?_
  refine (Stack.explained_push hr (Environment.explains_getD fun x => h.getLocal?)).bind ?_
  exact fun _ hs => .ok (h.withStack hs)

theorem localGetEx : Gives (Explained env) (m.localGetEx env) := by
  refine (Stack.explained_popBytes _ h.stack).bind fun r hr => ?_
  refine (Stack.explained_popInt _ hr.2).bind fun r hr => ?_
  refine (explained_popAccount hr).bind fun r hr => ?_
  refine Gives.bind (.of_all _ fun _ => trivial) fun _ _ => ?_
  exact (Stack.explained_pushLookup hr fun x => h.getLocal?).bind fun _ hs => .ok (h.withStack hs)

theorem localPut : Gives (Explained env) (m.localPut env) := by
  refine (Stack.explained_pop h.stack).bind fun r hvalue => ?_
  refine (Stack.explained_popBytes _ hvalue.2).bind fun r hkey => ?_
  refine (explained_popAccount hkey.2).bind fun r hr => ?_
  dsimp only
  split
  · exact .error _
  split
  · next v hput =>
    obtain ⟨-, hglobals, hlocals⟩ := View.putLocal_eq hput
    refine .ok { h with stack := hr, globals := ?_, locals := ?_ }
    · rw [hglobals]
      exact h.globals
    · rw [hlocals]
      exact h.locals.insert ⟨hkey.1, hvalue.1⟩
  · exact .error _

end Explained

/-- An instruction of the program keeps what a machine holds explained. -/
theorem explained_exec (h : m.Explained env) (hi : i ∈ env.program.instructions) :
    Gives (Explained env) (m.exec env i) := by
  obtain ⟨op, imm⟩ := i
  cases op with
  | int | byte | txn | gtxn | global => exact h.constant hi
  | binary op => exact (Stack.explained_binary op h.stack).bind fun _ hs => .ok (h.withStack hs)
  | unary op => exact (Stack.explained_unary op h.stack).bind fun _ hs => .ok (h.withStack hs)
  | pop => exact (Stack.explained_pop h.stack).bind fun _ hr => .ok (h.withStack hr.2)
  | dup => exact (Stack.explained_pop h.stack).bind fun _ hr => h.push hr.1
  | bnz => exact h.branch (· != 0)
  | bz => exact h.branch (· == 0)
  | jump => exact Gives.bind (.of_all _ fun _ => trivial) fun _ _ => .ok { h with }
  | err => exact .error _
  | ret => exact (Stack.explained_popInt _ h.stack).bind fun _ hs => .ok { h with stack := hs }
  | log => exact h.log
  | appGlobalGet => exact h.globalGet
  | appGlobalGetEx => exact h.globalGetEx
  | appGlobalPut => exact h.globalPut
  | appLocalGet => exact h.localGet
  | appLocalGetEx => exact h.localGetEx
  | appLocalPut => exact h.localPut

/-! ### Runs -/

theorem explained_start (env : Environment) : Explained env {} where
  stack := nofun
  logs := nofun
  globals := SortedMap.all_empty
  locals := SortedMap.all_empty

theorem Reached.explained (h : Reached env m) : m.Explained env := by
  refine h.invariant (P := Explained env) (explained_start env) fun m i m' hm hn hx => ?_
  have hadvance : m.advance.Explained env := { hm with }
  exact explained_exec hadvance (List.mem_of_getElem? (getElem?_of_next? hn)) m' hx

theorem Explained.of_holds (h : m.Explained env) {b : Bytes} (hb : m.Holds b) :
    env.Explains (.bytes b) := by
  cases hb with
  | stack hb => exact h.stack _ hb
  | log hb => exact h.logs b hb
  | globalKey hb => exact (h.globals b _ hb).1
  | globalValue hb => exact (h.globals _ _ hb).2
  | localKey hb => exact (h.locals _ _ hb).1
  | localValue hb => exact (h.locals _ _ hb).2

/-- The entries of a log together are within their limit, and so is each of them. -/
theorem WithinLimits.log_le (h : WithinLimits env m) {b : Bytes} (hb : b ∈ m.logs) :
    b.length ≤ maxLogBytes := by
  have hsum : b.length ≤ (m.logs.map List.length).sum := List.le_sum_of_mem (List.mem_map_of_mem hb)
  have hle := h.logSize_le
  have heq := h.logSize_eq
  omega

end Machine

/-! ## Top theorem -/

/-- Over state whose values are short, a byte string that a machine of a run holds is short, or it is
a literal of the program or a note of the group. If none of these is long, nothing that is held is.
What is logged is short in any case. -/
theorem Machine.held_of_reached {env : Environment} {m : Machine} (h : Reached env m)
    (hstored : ∀ b, env.state.Stores b → b.length ≤ maxBytesLength) :
    (∀ b, m.Holds b → b.length ≤ maxBytesLength ∨ env.Introduces b) ∧
      ((∀ b, env.Introduces b → b.length ≤ maxBytesLength) →
        ∀ b, m.Holds b → b.length ≤ maxBytesLength) ∧
      ∀ b ∈ m.logs, b.length ≤ maxBytesLength := by
  have hheld : ∀ b, m.Holds b → b.length ≤ maxBytesLength ∨ env.Introduces b := by
    intro b hb
    rcases h.explained.of_holds hb with hb | hb | hb
    · exact .inl hb
    · exact .inr hb
    · exact .inl (hstored b hb)
  refine ⟨hheld, fun hintroduced b hb => (hheld b hb).elim id (hintroduced b), fun b hb => ?_⟩
  exact Nat.le_trans (h.withinLimits.log_le hb) (by decide)

/-! ### A long literal -/

/-- One byte more than can be joined. -/
def longBytes : Bytes := List.replicate 4097 0x61

/-- A listing that stores a literal of that length. -/
def longListing : Listing :=
  ⟨6, [.op (.bytes (utf8 "k")), .op (.bytes longBytes), .op (.plain .appGlobalPut), .op (.int 1),
    .op (.plain .ret)]⟩

/-- Its program, over state that stores nothing. -/
def longStoring : Environment where
  program := longListing.linked
  group := .single (.appCall .zero 1 .noOp)
  index := 0
  index_lt := Nat.zero_lt_one
  state := {}
  context := {}

theorem longBytes_long : maxBytesLength < longBytes.length := by
  rw [longBytes, List.length_replicate]
  decide

theorem longStoring_stores_nothing (b : Bytes) : ¬ longStoring.state.Stores b := by
  rintro (h | h) <;> cases h

/-- The machine that has taken the literal is reached. -/
theorem reached_longBytes :
    ∃ m, Machine.Reached longStoring m ∧ m.stack = [.bytes longBytes, .bytes (utf8 "k")] :=
  ⟨_, .step (.step .start rfl) rfl, rfl⟩

/-- A literal is assembled and held whatever its length. -/
theorem long_literal_is_held :
    assemble longListing.text = .ok longStoring.program ∧
      (∀ b, longStoring.state.Stores b → b.length ≤ maxBytesLength) ∧
      ∃ m, Machine.Reached longStoring m ∧ m.Holds longBytes ∧
        maxBytesLength < longBytes.length := by
  have hreadable : longListing.Readable := by
    refine ⟨rfl, ?_, List.nodup_nil⟩
    simp only [longListing, List.forall_mem_cons, List.not_mem_nil, false_implies, implies_true,
      and_true]
    exact ⟨⟨.bytes _, by decide⟩, ⟨.bytes _, by decide⟩, ⟨.absent, by decide⟩, ⟨.uint _, by decide⟩,
      ⟨.absent, by decide⟩⟩
  have hclosed : longListing.Closed := by
    have hinstructions : Listing.instructions longListing.lines = [.bytes (utf8 "k"),
      .bytes longBytes, .plain .appGlobalPut, .int 1, .plain .ret] := rfl
    unfold Listing.Closed
    rw [hinstructions]
    simp only [List.forall_mem_cons, List.not_mem_nil, false_implies, implies_true, and_true]
    exact ⟨nofun, nofun, nofun, nofun, nofun⟩
  obtain ⟨m, hm, hstack⟩ := reached_longBytes
  refine ⟨Listing.assemble_text hreadable hclosed,
    fun b hb => absurd hb (longStoring_stores_nothing b), m, hm, .stack ?_, longBytes_long⟩
  rw [hstack]
  exact List.mem_cons_self

/-- It is told from the literals of the program. -/
theorem Machine.held_of_reached_longBytes :
    ∃ m, Machine.Reached longStoring m ∧ m.Holds longBytes ∧ longStoring.Introduces longBytes := by
  obtain ⟨m, hm, hstack⟩ := reached_longBytes
  have hholds : m.Holds longBytes := .stack (by rw [hstack]; exact List.mem_cons_self)
  have hheld := (Machine.held_of_reached hm
    fun b hb => absurd hb (longStoring_stores_nothing b)).1 longBytes hholds
  exact ⟨m, hm, hholds, hheld.resolve_left (Nat.not_le.2 longBytes_long)⟩

end ContractBench
