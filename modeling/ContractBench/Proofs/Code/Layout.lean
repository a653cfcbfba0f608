import ContractBench.Proofs.Code.Placed
import Mathlib.Data.List.Forall2
/-!
# Layout of compiled listings

A listing that was compiled defines its labels in the order of their numbers, each once; its jumps
go to labels further down, and its last line ends the run (`Listing.LaidOut`). Assembling its text
gives back its instructions in order, each label replaced by the index of the first instruction
behind it:

    Built root → root.terminates = true → (root.listing v name).LaidOut        (laidOut_listing)
    l.Closed → Forall₂ (Resolves l.lines) (instructions l.lines) l.linked.instructions
                                                                               (resolves_linked)
-/

namespace ContractBench

/-! ## Algorithm -/

namespace Listing

/-- How a listing is laid out. -/
structure LaidOut (l : Listing) : Prop where
  /-- Labels are numbered in the order of their definitions. -/
  numbered : ∃ k, labels l.lines = (List.range k).map labelName
  nodup : (labels l.lines).Nodup
  /-- A jump names a label that is defined further down. -/
  forward : ∀ before i after, l.lines = before ++ .op i :: after →
    i.op.immediateKind = .label → ∃ name, i.imm = .label name ∧ .label name ∈ after
  /-- The last line returns or fails. -/
  last : ∃ before op, l.lines = before ++ [.op (.plain op)] ∧ (op = .ret ∨ op = .err)

/-- An instruction among lines and what is assembled from it: a label is replaced by the number of
instructions in front of it, which is the index of the first instruction behind it. -/
inductive Resolves (lines : List Line) (i : Instruction) : Instruction → Prop
  | plain : (∀ name, i.imm ≠ .label name) → Resolves lines i i
  | jump {name : String} {before after : List Line} :
      i.imm = .label name → lines = before ++ .label name :: after →
        Resolves lines i { i with imm := .target (instructions before).length }

end Listing

/-- A piece of code that ends with a return or a failure. -/
def Item.Stops (items : List Item) : Prop :=
  ∃ before op p, items = before ++ [.op (.plain op) p] ∧ (op = .ret ∨ op = .err)

/-! ## Lemmas -/

namespace Listing

/-! ### Positions -/

/-- The first definition of a label. -/
theorem exists_of_mem_labels {name : String} {lines : List Line} (h : name ∈ labels lines) :
    ∃ before after, lines = before ++ .label name :: after ∧ name ∉ labels before := by
  induction lines with
  | nil => cases h
  | cons x rest ih =>
    cases x with
    | op i =>
      obtain ⟨before, after, rfl, hb⟩ := ih h
      exact ⟨.op i :: before, after, rfl, hb⟩
    | label name' =>
      by_cases he : name' = name
      · exact ⟨[], rest, by rw [he]; rfl, List.not_mem_nil⟩
      · have hmem : name ∈ labels rest := (List.mem_cons.1 h).resolve_left (Ne.symm he)
        obtain ⟨before, after, rfl, hb⟩ := ih hmem
        refine ⟨.label name' :: before, after, rfl, fun hm => ?_⟩
        rcases List.mem_cons.1 hm with e | hm
        · exact he e.symm
        · exact hb hm

theorem resolves_resolve {l : Listing} (hc : l.Closed) {i : Instruction}
    (hi : i ∈ instructions l.lines) : Resolves l.lines i (resolve l.lines i) := by
  unfold resolve
  split
  · next name himm =>
    obtain ⟨before, after, he, hb⟩ := exists_of_mem_labels (hc i hi name himm)
    have hpos : position name l.lines = (instructions before).length := by
      rw [he]
      exact position_append hb after
    rw [hpos]
    exact .jump himm he
  · next hplain => exact .plain hplain

/-- What is assembled from a listing are its instructions in order. -/
theorem resolves_linked {l : Listing} (hc : l.Closed) :
    List.Forall₂ (Resolves l.lines) (instructions l.lines) l.linked.instructions := by
  refine List.forall₂_map_right_iff.2 (List.forall₂_same.2 fun i hi => ?_)
  exact resolves_resolve hc hi

/-- Behind a label there is an instruction. -/
theorem LaidOut.length_lt {l : Listing} (h : l.LaidOut) {name : String} {before after : List Line}
    (he : l.lines = before ++ .label name :: after) :
    (instructions before).length < l.instructionCount := by
  obtain ⟨front, op, hlast, -⟩ := h.last
  have hcount : l.instructionCount = (instructions before).length + (instructions after).length := by
    rw [instructionCount, he, instructions_append, List.length_append]
    rfl
  rcases after.eq_nil_or_concat' with rfl | ⟨middle, line, rfl⟩
  · -- the last line would be the label
    have hends : before ++ [.label name] = front ++ [.op (.plain op)] := he.symm.trans hlast
    cases (List.append_inj' hends rfl).2
  · have hends : before ++ .label name :: middle ++ [line] = front ++ [.op (.plain op)] := by
      rw [List.append_assoc]
      exact he.symm.trans hlast
    cases (List.append_inj' hends rfl).2
    rw [hcount, instructions_append, List.length_append]
    exact Nat.lt_add_of_pos_right (Nat.lt_add_left _ Nat.one_pos)

/-- No line has the index of an instruction. -/
theorem Readable.imm_ne_target {l : Listing} (h : l.Readable) {i : Instruction}
    (hi : i ∈ instructions l.lines) (t : Nat) : i.imm ≠ .target t := by
  obtain ⟨line, hl, he⟩ := List.mem_filterMap.1 hi
  intro himm
  cases line with
  | label => cases he
  | op i' =>
    cases he
    have htakes := (h.fits _ hl).1
    rw [himm] at htakes
    generalize i.op.immediateKind = k at htakes
    cases htakes

/-- What is assembled jumps to instructions only. -/
theorem LaidOut.target_lt {l : Listing} (h : l.LaidOut) (hr : l.Readable) (hc : l.Closed)
    {i : Instruction} (hi : i ∈ l.linked.instructions) {t : Nat} (himm : i.imm = .target t) :
    t < l.linked.size := by
  have hsize : l.linked.size = l.instructionCount := List.length_map _
  obtain ⟨i₀, hi₀, rfl⟩ := List.mem_map.1 hi
  have hres := resolves_resolve hc hi₀
  generalize resolve l.lines i₀ = i at hres himm
  cases hres with
  | plain => exact absurd himm (hr.imm_ne_target hi₀ t)
  | jump _ he =>
    cases himm
    rw [hsize]
    exact h.length_lt he

end Listing

namespace Item

/-! ### Names -/

/-- The marks of a piece of code are named in order. -/
theorem map_nameIn {ms : List Label} (h : ms.Nodup) :
    ms.map (nameIn ms) = (List.range ms.length).map labelName := by
  refine List.ext_getElem (by simp) fun n h₁ h₂ => ?_
  rw [List.length_map] at h₁
  obtain ⟨j, hj, hget⟩ := exists_idxOf? (List.getElem_mem h₁)
  have hjn : j = n := by
    rw [← List.getElem?_eq_getElem h₁] at hget
    exact ((List.getElem?_inj h₁ h).1 hget.symm).symm
  rw [List.getElem_map, List.getElem_map, List.getElem_range, nameIn, hj, hjn]
  rfl

/-- A jump in the lines of a piece of code names a label further down. -/
theorem label_mem_of_forward {items : List Item} (hf : Forward items) (hfit : AllFit items)
    (ms : List Label) {before after : List Line} {i : Instruction}
    (he : linesOf ms items = before ++ .op i :: after) (hk : i.op.immediateKind = .label) :
    ∃ name, i.imm = .label name ∧ .label name ∈ after := by
  obtain ⟨xs, zs, rfl, hxs, hzs⟩ := List.map_eq_append_iff.1 he
  obtain ⟨x, ys, rfl, hx, hys⟩ := List.map_eq_cons_iff.1 hzs
  cases x with
  | mark => cases hx
  | op i' p =>
    cases hx
    have hop : (Item.op i p).Fits := hfit _ (by simp)
    exact absurd hk hop.1
  | jump op l p =>
    cases hx
    have hl : l ∈ marks ys := hf.mem_marks_of_append.resolve_right id
    obtain ⟨us, q, ws, rfl⟩ := exists_of_mem_marks hl
    refine ⟨_, rfl, ?_⟩
    rw [← hys]
    exact List.mem_map.2 ⟨.mark l q, by simp, rfl⟩

/-! ### The last line -/

theorem Stops.append {items : List Item} (h : Stops items) (pre : List Item) :
    Stops (pre ++ items) := by
  obtain ⟨before, op, p, rfl, hop⟩ := h
  exact ⟨pre ++ before, op, p, (List.append_assoc _ _ _).symm, hop⟩

end Item

namespace Expr

open Item

/-- The code of a tree that terminates ends with a return or a failure. -/
def CodeStops (e : Expr) : Prop := e.terminates = true → ∀ p, Stops (e.lower p)

theorem stops_lowerItems {items : List Expr} (h : ∀ e ∈ items, CodeStops e)
    (ht : anyTerminates items = true) (p : NodePath) (i : Nat) : Stops (lowerItems p i items) := by
  induction items generalizing i with
  | nil => cases ht
  | cons e rest ih =>
    rw [List.forall_mem_cons] at h
    cases he : e.terminates with
    | true =>
      rw [lowerItems_of_terminates he]
      exact h.1 he _
    | false =>
      have hrest : anyTerminates rest = true := by simpa [anyTerminates, he] using ht
      rw [lowerItems_of_goes_on he, ← List.append_assoc]
      exact (ih h.2 hrest (i + 1)).append _

theorem stops_lowerBodies {arms : List (Expr × Expr)} (h : ∀ arm ∈ arms, CodeStops arm.2)
    (ht : bodiesTerminate arms = true) (hne : arms ≠ []) (p : NodePath) (i : Nat) :
    Stops (lowerBodies p i arms) := by
  induction arms generalizing i with
  | nil => exact absurd rfl hne
  | cons arm rest ih =>
    obtain ⟨test, body⟩ := arm
    rw [List.forall_mem_cons] at h
    have hb : body.terminates = true ∧ bodiesTerminate rest = true := by
      simpa [bodiesTerminate] using ht
    rw [lowerBodies, if_pos hb.1, List.append_nil]
    cases rest with
    | nil =>
      rw [lowerBodies, List.append_nil]
      exact (h.1 hb.1 _).append [_]
    | cons arm' rest => exact (ih h.2 hb.2 (List.cons_ne_nil _ _) (i + 1)).append _

theorem stops_cond {arms : List (Expr × Expr)} (h : ∀ arm ∈ arms, CodeStops arm.2) :
    CodeStops (.cond arms) := by
  intro ht p
  have ht : bodiesTerminate arms = true := ht
  rw [lower, if_pos ht, List.append_nil]
  cases arms with
  | nil => exact ⟨_, .err, p, rfl, .inr rfl⟩
  | cons arm rest =>
    have hbodies := stops_lowerBodies h ht (List.cons_ne_nil _ _) p 0
    exact (hbodies.append [_]).append _

theorem codeStops_of_built {e : Expr} (h : Built e) : CodeStops e := by
  induction h with
  | int | bytes | named | txn | global | unary | binary | globalGet | localGet | globalPut
  | localPut | log => exact fun ht => nomatch ht
  | verdict => exact fun _ p => ⟨[_], .ret, p, rfl, .inl rfl⟩
  | seq _ ih => exact fun ht p => stops_lowerItems ih ht p 0
  | cond _ _ _ _ ihb => exact stops_cond ihb

/-! ### The listing of a tree -/

theorem laidOut_listing {root : Expr} (hb : Built root) (ht : root.terminates = true) (v : UInt8)
    (name : String) : (root.listing v name).LaidOut := by
  have hlab := labelled_lower hb (.root name)
  have hfit := codeFits_of_built hb (.root name)
  have hlines := lines_listing root v name
  constructor
  case numbered =>
    rw [hlines, labels_linesOf, map_nameIn hlab.nodup]
    exact ⟨_, rfl⟩
  case nodup =>
    rw [hlines]
    exact nodup_labels hlab.nodup
  case forward =>
    rw [hlines]
    exact fun _ _ _ he hk => label_mem_of_forward hlab.forward hfit _ he hk
  case last =>
    obtain ⟨before, op, p, he, hop⟩ := codeStops_of_built hb ht (.root name)
    refine ⟨linesOf (marks (root.lower (.root name))) before, op, ?_, hop⟩
    rw [hlines]
    generalize marks (root.lower (.root name)) = ms
    rw [he]
    exact List.map_append

/-! ## Top theorems -/

/-- A compiled listing is laid out in order, and the assembler takes its text for the same code: the
same version, and the same instructions in the same order, with each label replaced by the index of
the first instruction behind it. -/
theorem layout_of_compile {root : Expr} {v : UInt8} {name : String} {l : Listing} (hb : Built root)
    (hc : root.compile v name = .ok l) :
    l.version = v ∧ l.LaidOut ∧
      ∃ program, assemble l.text = .ok program ∧ program.version = v ∧
        program.size = l.instructionCount ∧
        List.Forall₂ (Listing.Resolves l.lines) (Listing.instructions l.lines)
          program.instructions ∧
        ∀ i ∈ program.instructions, ∀ t, i.imm = .target t → t < program.size := by
  obtain ⟨hs, -, ht, hk, -⟩ := (compile_eq_ok_iff hb).1 hc
  obtain ⟨rfl, ha⟩ := assemble_of_compile hb hc
  have hlaid := laidOut_listing hb ht v name
  have hreadable := readable_listing hb name hs hk
  have hclosed := closed_listing hb v name
  refine ⟨rfl, hlaid, _, ha, rfl, List.length_map _, Listing.resolves_linked hclosed, ?_⟩
  exact fun i hi t himm => hlaid.target_lt hreadable hclosed hi himm

/-- A program that logs a greeting: with the stored name if a stored flag asks for it, else with a
question mark. -/
def greeting : Expr :=
  .seq
    [.log (.binary .concat (.bytes [72, 105, 32])
      (.cond [(.globalGet [107] .int, .globalGet [110] .bytes), (.int 1, .bytes [63])])),
     .approve]

theorem built_greeting : Built greeting := by
  have hcond : Built
      (.cond [(.globalGet [107] .int, .globalGet [110] .bytes), (.int 1, .bytes [63])]) := by
    refine .cond ?_ ?_ (admitted_iff_fits.2 ?_)
    · simp [Built.globalGet, Built.int]
    · simp [Built.globalGet, Built.bytes]
    · simp [Fits, type, terminates, bodyType]
  have hconcat : Built (.binary .concat (.bytes [72, 105, 32]) _) :=
    .binary (.bytes _) hcond (admitted_iff_fits.2 ⟨.bytes, rfl, rfl, by decide⟩)
  refine .seq fun e he => ?_
  rcases List.mem_cons.1 he with rfl | he
  · exact .log hconcat (admitted_iff_fits.2 rfl)
  · cases List.mem_singleton.1 he
    exact .verdict true

theorem compile_greeting : greeting.compile 5 "approval" = .ok (greeting.listing 5 "approval") :=
  rfl

/-- The greeting has a read of bytes inside a choice, and below the choice an operand that waits on
the stack. -/
theorem layout_of_compile_greeting :
    (greeting.listing 5 "approval").LaidOut ∧
      ∃ program, assemble (greeting.listing 5 "approval").text = .ok program ∧
        program.size = 20 ∧ ∀ i ∈ program.instructions, ∀ t, i.imm = .target t → t < 20 := by
  obtain ⟨-, hlaid, program, ha, -, hsize, -, htargets⟩ :=
    layout_of_compile built_greeting compile_greeting
  have hcount : (greeting.listing 5 "approval").instructionCount = 20 := rfl
  rw [hcount] at hsize
  exact ⟨hlaid, program, ha, hsize, hsize ▸ htargets⟩

end Expr

end ContractBench
