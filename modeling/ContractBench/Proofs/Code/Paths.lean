import ContractBench.Proofs.Code.Layout
import ContractBench.Proofs.Machine.Paths
/-!
# Paths through compiled code

The pass over the depth looks at the items of a piece of code once and in order. Where the code is
placed, what the pass finds in front of an instruction is what every path leads there with: a jump
is recorded when it is passed, and the record is still there at its mark further down.

    KnownAt items a d → code[a]? = some i → i.Leads a b → KnownAt items b _       (KnownAt.leads)
    (root.listing v name).linked.DepthAt a d → KnownAt (root.lower _) a d       (knownAt_of_depthAt)

So paths that lead to one place agree on the depth, and if the tree terminates none of them leads to
the end of the program.
-/

namespace ContractBench

open Success

namespace DepthState

variable {s s' : DepthState} {d : Nat} {A : Arrivals} {l : Label}

/-! ## What the pass keeps -/

theorem run_append_eq_ok {xs ys : List Item} {s'' : DepthState} :
    s.run (xs ++ ys) = .ok s'' ↔ ∃ s', s.run xs = .ok s' ∧ s'.run ys = .ok s'' := by
  rw [run_append]
  exact bind_eq_ok

theorem run_cons_eq_ok {x : Item} {xs : List Item} {s'' : DepthState} :
    s.run (x :: xs) = .ok s'' ↔ ∃ s', s.step x = .ok s' ∧ s'.run xs = .ok s'' := by
  rw [run_cons]
  exact bind_eq_ok

/-- An arrival is recorded with its depth, and all that was recorded stays. -/
theorem lookup_arrive {p : NodePath} (h : s.arrive l d p = .ok s') :
    s'.arrivals.lookup l = some d ∧
      ∀ l' d', s.arrivals.lookup l' = some d' → s'.arrivals.lookup l' = some d' := by
  unfold arrive at h
  split at h
  · next known hl =>
    split at h
    · next he =>
      cases h
      exact ⟨he ▸ hl, fun _ _ hl' => hl'⟩
    · cases h
  · next hl =>
    cases h
    refine ⟨List.lookup_cons_self, fun l' d' hl' => ?_⟩
    have hne : (l' == l) = false := by
      rw [beq_eq_false_iff_ne]
      rintro rfl
      rw [hl] at hl'
      cases hl'
    rw [List.lookup_cons, hne]
    exact hl'

/-- In front of an instruction there is enough for what it takes. -/
theorem step_op {i : Instruction} {p : NodePath} (h : step ⟨some d, A⟩ (.op i p) = .ok s) :
    i.op.pops ≤ d ∧ (i.op.endsBlock = false → s.depth = some (d - i.op.pops + i.op.pushes)) := by
  simp only [step] at h
  split at h
  · cases h
  · next hle =>
    refine ⟨Nat.not_lt.1 hle, fun he => ?_⟩
    rw [if_neg (by simp [he])] at h
    cases h
    rfl

/-- A jump records at which depth it arrives. -/
theorem step_jump {op : Opcode} {p : NodePath} (h : step ⟨some d, A⟩ (.jump op l p) = .ok s) :
    op.pops ≤ d ∧ s.arrivals.lookup l = some (d - op.pops) ∧
      (op.endsBlock = false → s.depth = some (d - op.pops)) := by
  simp only [step] at h
  split at h
  · cases h
  · next hle =>
    obtain ⟨s₁, ha, h⟩ := bind_eq_ok.1 h
    cases h
    refine ⟨Nat.not_lt.1 hle, (lookup_arrive ha).1, fun he => ?_⟩
    exact if_neg (by simp [he])

/-- Behind a mark the depth is the one that is recorded for it. -/
theorem step_mark {p : NodePath} (h : s.step (.mark l p) = .ok s') :
    s'.depth = s'.arrivals.lookup l ∧
      ∀ l' d', s.arrivals.lookup l' = some d' → s'.arrivals.lookup l' = some d' := by
  simp only [step] at h
  cases hd : s.depth with
  | none =>
    rw [hd] at h
    cases h
    exact ⟨rfl, fun _ _ hl => hl⟩
  | some d' =>
    rw [hd] at h
    obtain ⟨s₁, ha, h⟩ := bind_eq_ok.1 h
    cases h
    exact ⟨rfl, (lookup_arrive ha).2⟩

/-- A mark does not change a depth that is known. -/
theorem step_mark_some {p : NodePath} (h : step ⟨some d, A⟩ (.mark l p) = .ok s) :
    s.depth = some d := by
  obtain ⟨s₁, ha, h⟩ := bind_eq_ok.1 h
  cases h
  exact (lookup_arrive ha).1

/-- What was recorded stays recorded. -/
theorem lookup_step {x : Item} (h : s.step x = .ok s') (hl : s.arrivals.lookup l = some d) :
    s'.arrivals.lookup l = some d := by
  cases x with
  | op i p =>
    simp only [step] at h
    split at h
    · cases h
      exact hl
    · split at h
      · cases h
      · split at h <;> cases h <;> exact hl
  | jump op l' p =>
    simp only [step] at h
    split at h
    · cases h
      exact hl
    · split at h
      · cases h
      · obtain ⟨s₁, ha, h⟩ := bind_eq_ok.1 h
        cases h
        exact (lookup_arrive ha).2 l d hl
  | mark l' p => exact (step_mark h).2 l d hl

theorem lookup_run {xs : List Item} (h : s.run xs = .ok s') (hl : s.arrivals.lookup l = some d) :
    s'.arrivals.lookup l = some d := by
  induction xs generalizing s with
  | nil =>
    cases h
    exact hl
  | cons x xs ih =>
    obtain ⟨s₁, h₁, h⟩ := run_cons_eq_ok.1 h
    exact ih h (lookup_step h₁ hl)

/-- Marks alone do not change a depth that is known. -/
theorem depth_of_marks {xs : List Item} (hx : Item.count xs = 0) (h : run ⟨some d, A⟩ xs = .ok s) :
    s.depth = some d := by
  induction xs generalizing A with
  | nil =>
    cases h
    rfl
  | cons x xs ih =>
    obtain ⟨⟨depth, A₁⟩, h₁, h⟩ := run_cons_eq_ok.1 h
    cases x with
    | op | jump => simp at hx
    | mark l p =>
      cases step_mark_some h₁
      exact ih hx h

/-- Marks behind a piece of code leave its depth as it is. -/
theorem depth_of_append {s₀ : DepthState} {xs ys : List Item} (hx : s₀.run xs = .ok ⟨some d, A⟩)
    (hy : Item.count ys = 0) (h : s₀.run (xs ++ ys) = .ok s) : s.depth = some d := by
  obtain ⟨s₁, h₁, hys⟩ := run_append_eq_ok.1 h
  cases hx.symm.trans h₁
  exact depth_of_marks hy hys

end DepthState

namespace Item

open DepthState

/-- The pass over a piece of code comes to an address with a depth. -/
inductive KnownAt (items : List Item) (a d : Nat) : Prop
  | intro (pre rest : List Item) {A : Arrivals} : items = pre ++ rest → count pre = a →
      DepthState.run {} pre = .ok ⟨some d, A⟩ → KnownAt items a d

/-! ## Where the items stand -/

variable {items : List Item} {code : List Instruction} {target : Label → Nat} {a d : Nat}
  {i : Instruction} {s : DepthState}

/-- In front of an instruction that is placed there are marks at most. -/
theorem Placed.split {rest : List Item} (h : Placed code target a rest) (hc : 0 < count rest)
    (hi : code[a]? = some i) :
    ∃ ms x rest', rest = ms ++ x :: rest' ∧ count ms = 0 ∧
      ((∃ p, x = .op i p) ∨ ∃ op l p, x = .jump op l p ∧ i = ⟨op, .target (target l)⟩) := by
  induction rest with
  | nil => cases hc
  | cons x rest ih =>
    cases x with
    | op i' p =>
      cases h.1.symm.trans hi
      exact ⟨[], _, rest, rfl, rfl, .inl ⟨p, rfl⟩⟩
    | jump op l p =>
      cases h.1.symm.trans hi
      exact ⟨[], _, rest, rfl, rfl, .inr ⟨op, l, p, rfl, rfl⟩⟩
    | mark l p =>
      obtain ⟨ms, x, rest', rfl, hms, hx⟩ := ih h.2 hc
      exact ⟨.mark l p :: ms, x, rest', rfl, hms, hx⟩

theorem pushes_of_label {op : Opcode} (h : op.immediateKind = .label) : op.pushes = 0 := by
  cases op <;> first | rfl | cases h

/-! ## What the pass finds -/

theorem KnownAt.start (items : List Item) : KnownAt items 0 0 :=
  .intro [] items rfl rfl rfl

/-- At one address the pass finds one depth. -/
theorem KnownAt.unique {d' : Nat} (h : KnownAt items a d) (h' : KnownAt items a d') : d = d' := by
  obtain ⟨pre, rest, he, hc, hr⟩ := h
  obtain ⟨pre', rest', he', hc', hr'⟩ := h'
  -- the longer of the two pieces has marks more, but no instruction
  rcases List.append_eq_append_iff.1 (he.symm.trans he') with ⟨xs, rfl, -⟩ | ⟨xs, rfl, -⟩
  · rw [count_append] at hc'
    have hdepth : some d' = some d := depth_of_append hr (by omega) hr'
    exact (Option.some.inj hdepth).symm
  · rw [count_append] at hc
    have hdepth : some d = some d' := depth_of_append hr' (by omega) hr
    exact Option.some.inj hdepth

/-- If the pass does not get behind a piece of code, no depth is found for its end. -/
theorem KnownAt.lt (hrun : DepthState.run {} items = .ok s) (hs : s.depth = none)
    (h : KnownAt items a d) : a < count items := by
  obtain ⟨pre, rest, rfl, rfl, hr⟩ := h
  rw [count_append]
  refine Nat.lt_add_of_pos_right (Nat.pos_of_ne_zero fun hc => ?_)
  have hdepth := depth_of_append hr hc hrun
  rw [hs] at hdepth
  cases hdepth

/-- A depth that is recorded for a label is found where its mark stands. -/
theorem KnownAt.of_recorded {pre rest : List Item} {s₀ : DepthState} {l : Label}
    (hp : Placed code target 0 (pre ++ rest)) (hrun : DepthState.run {} (pre ++ rest) = .ok s)
    (hpre : DepthState.run {} pre = .ok s₀) (hl : s₀.arrivals.lookup l = some d)
    (hm : l ∈ marks rest) : KnownAt (pre ++ rest) (target l) d := by
  obtain ⟨mid, p, ys, rfl⟩ := exists_of_mem_marks hm
  obtain ⟨s₁, h₁, hrest⟩ := run_append_eq_ok.1 hrun
  cases hpre.symm.trans h₁
  obtain ⟨s₂, h₂, hmark⟩ := run_append_eq_ok.1 hrest
  obtain ⟨⟨depth, A⟩, h₃, -⟩ := run_cons_eq_ok.1 hmark
  obtain ⟨hdepth, hkept⟩ := step_mark h₃
  cases hdepth.trans (hkept l d (lookup_run h₂ hl))
  have htarget : target l = 0 + count pre + count mid :=
    (Placed.append_iff.1 (Placed.append_iff.1 hp).2).2.1
  refine .intro (pre ++ mid ++ [.mark l p]) ys (A := A) (by simp) ?_ ?_
  · rw [htarget]
    simp
  · refine run_append_eq_ok.2 ⟨s₂, run_append_eq_ok.2 ⟨s₀, hpre, h₂⟩, ?_⟩
    exact run_cons_eq_ok.2 ⟨_, h₃, rfl⟩

/-- The pass comes right in front of the instruction at an address with the depth that it finds
there, and goes on over it. -/
theorem KnownAt.split (hp : Placed code target 0 items) (hlen : code.length = count items)
    (hrun : DepthState.run {} items = .ok s) (h : KnownAt items a d) (hi : code[a]? = some i) :
    ∃ pre x rest A s₁, items = pre ++ [x] ++ rest ∧ count pre = a ∧
      DepthState.run {} pre = .ok ⟨some d, A⟩ ∧ DepthState.step ⟨some d, A⟩ x = .ok s₁ ∧
        ((∃ p, x = .op i p) ∨ ∃ op l p, x = .jump op l p ∧ i = ⟨op, .target (target l)⟩) := by
  obtain ⟨pre, rest, rfl, rfl, hr⟩ := h
  have hlt : count pre < code.length := (List.getElem?_eq_some_iff.1 hi).1
  rw [hlen, count_append] at hlt
  have hprest := (Placed.append_iff.1 hp).2
  rw [Nat.zero_add] at hprest
  -- marks in front of the instruction leave the depth as it is
  obtain ⟨ms, x, rest', rfl, hms, hx⟩ := hprest.split (by omega) hi
  rw [← List.append_assoc] at hrun
  obtain ⟨⟨depth, A₁⟩, h₁, hrest⟩ := run_append_eq_ok.1 hrun
  cases depth_of_append hr hms h₁
  obtain ⟨s₂, h₂, -⟩ := run_cons_eq_ok.1 hrest
  refine ⟨pre ++ ms, x, rest', A₁, s₂, by simp, ?_, h₁, h₂, hx⟩
  rw [count_append, hms, Nat.add_zero]

/-- From an instruction for which a depth is found, the pass finds the depth for whatever it leads
to. -/
theorem KnownAt.leads (hp : Placed code target 0 items) (hlen : code.length = count items)
    (hf : Forward items) (hfit : AllFit items) (hrun : DepthState.run {} items = .ok s)
    (h : KnownAt items a d) (hi : code[a]? = some i) :
    i.op.pops ≤ d ∧ ∀ b, i.Leads a b → KnownAt items b (d - i.op.pops + i.op.pushes) := by
  obtain ⟨pre, x, rest, A, ⟨depth, A₁⟩, rfl, rfl, hpre, hstep, hx⟩ := h.split hp hlen hrun hi
  have hover : DepthState.run {} (pre ++ [x]) = .ok ⟨depth, A₁⟩ :=
    run_append_eq_ok.2 ⟨_, hpre, run_cons_eq_ok.2 ⟨_, hstep, rfl⟩⟩
  have hxfit : x.Fits := hfit x (by simp)
  rcases hx with ⟨p, rfl⟩ | ⟨op, l, p, rfl, rfl⟩
  · obtain ⟨hle, hnext⟩ := step_op hstep
    refine ⟨hle, fun b hb => ?_⟩
    cases hb with
    | next he =>
      cases hnext he
      exact .intro _ _ rfl (by simp) hover
    | jump hk => exact absurd hk hxfit.1
  · obtain ⟨hle, harrived, hnext⟩ := step_jump hstep
    have hpushes : op.pushes = 0 := pushes_of_label hxfit
    refine ⟨hle, fun b hb => ?_⟩
    show KnownAt _ b (d - op.pops + op.pushes)
    rw [hpushes, Nat.add_zero]
    cases hb with
    | next he =>
      cases hnext he
      exact .intro _ _ rfl (by simp) hover
    | jump _ himm =>
      cases himm
      have hmark : l ∈ marks rest := by
        rw [List.append_assoc] at hf
        exact hf.mem_marks_of_append.resolve_right id
      exact .of_recorded hp hrun hover harrived hmark

end Item

namespace Expr

open Item

/-! ## The executable of a tree -/

variable {root : Expr} {v : UInt8} {name : String} {a d : Nat}

/-- The pass finds the depth that a path leads to an address with, and there is enough for the
instruction that stands there. -/
theorem knownAt_of_depthAt (hb : Built root) (h : (root.listing v name).linked.DepthAt a d) :
    KnownAt (root.lower (.root name)) a d ∧
      ∀ i, (root.listing v name).linked.instructions[a]? = some i → i.op.pops ≤ d := by
  obtain ⟨A, hrun⟩ := run_lower hb (.root name) 0
  have hleads : ∀ {a d i}, KnownAt (root.lower (.root name)) a d →
      (root.listing v name).linked.instructions[a]? = some i → i.op.pops ≤ d ∧ ∀ b, i.Leads a b →
        KnownAt (root.lower (.root name)) b (d - i.op.pops + i.op.pushes) := fun hknown hi =>
    hknown.leads (placed_listing hb v name) (length_linked root v name) (labelled_lower hb _).forward
      (codeFits_of_built hb _) hrun hi
  have hknown : KnownAt (root.lower (.root name)) a d := by
    induction h with
    | start => exact .start _
    | step _ hi hl ih => exact (hleads ih hi).2 _ hl
  exact ⟨hknown, fun i hi => (hleads hknown hi).1⟩

/-- Paths that lead to one place agree on the depth. -/
theorem depthAt_unique (hb : Built root) {d' : Nat}
    (h : (root.listing v name).linked.DepthAt a d)
    (h' : (root.listing v name).linked.DepthAt a d') : d = d' :=
  (knownAt_of_depthAt hb h).1.unique (knownAt_of_depthAt hb h').1

theorem sufficient_linked (hb : Built root) (v : UInt8) (name : String) :
    (root.listing v name).linked.Sufficient :=
  fun _ _ i h hi => (knownAt_of_depthAt hb h).2 i hi

/-- No path leads to the end of the code of a tree that terminates. -/
theorem lt_of_depthAt (hb : Built root) (ht : root.terminates = true)
    (h : (root.listing v name).linked.DepthAt a d) : a < (root.listing v name).linked.size := by
  obtain ⟨A, hrun⟩ := run_lower hb (.root name) 0
  have hend : root.depthAfter 0 = none := by rw [depthAfter, if_pos ht]
  have hlt := (knownAt_of_depthAt hb h).1.lt hrun hend
  rwa [← length_linked root v name] at hlt

section Runs

variable {env : Environment} {ms : List Machine} {last : Except Fault Machine} {m : Machine}

/-- A run through the code of a tree that terminates does not end without a verdict. -/
theorem isSome_verdict_of_runs (hb : Built root) (ht : root.terminates = true)
    (hp : env.program = (root.listing v name).linked) (h : Machine.Runs env {} ms last)
    (hl : last = .ok m) : m.verdict.isSome := by
  cases hv : m.verdict with
  | some b => rfl
  | none =>
    obtain ⟨hle, hat⟩ := h.depthAt_end hl hv
    rw [hp] at hle hat
    exact absurd hle (Nat.not_le.2 (lt_of_depthAt hb ht hat))

/-- What a program made from a tree that terminates fails with is the fault of its run. -/
theorem last_of_run_error (hb : Built root) (ht : root.terminates = true)
    (hp : env.program = (root.listing v name).linked) (h : Machine.Runs env {} ms last)
    {e : Fault} (he : Except.bind last Machine.finish = .error e) : last = .error e := by
  rcases Machine.error_of_run he with hl | ⟨m, hl, hv, -⟩
  · exact hl
  · have hsome := isSome_verdict_of_runs hb ht hp h hl
    rw [hv] at hsome
    cases hsome

end Runs

/-! ## Top theorems -/

/-- The stack depth of compiled code does not depend on the path: one depth belongs to each address
that paths lead to, and every run has exactly that many values on its stack when it gets there,
enough for the instruction. So no run underflows its stack, and one that overflows it stopped at an
instruction behind which the depth is over the limit. -/
theorem level_of_compile {l : Listing} (hb : Built root) (hc : root.compile v name = .ok l) :
    ∃ program, assemble l.text = .ok program ∧
      ∃ depth : Nat → Option Nat, (∀ a d, depth a = some d ↔ program.DepthAt a d) ∧
        (∀ a d i, depth a = some d → program.instructions[a]? = some i → i.op.pops ≤ d) ∧
        ∀ env : Environment, env.program = program →
          ∃ ms last, Machine.Runs env {} ms last ∧ env.run = (last.bind Machine.finish, ms.length) ∧
            (∀ m ∈ ms, depth m.pc = some m.stack.length ∧
              ∃ i, program.instructions[m.pc]? = some i ∧ i.op.pops ≤ m.stack.length) ∧
            env.run.1 ≠ .error .stackUnderflow ∧
            (env.run.1 = .error .stackOverflow →
              ∃ a d i, depth a = some d ∧ program.instructions[a]? = some i ∧
                maxStackSize < d - i.op.pops + i.op.pushes) := by
  obtain ⟨rfl, ha⟩ := assemble_of_compile hb hc
  have hunique : ∀ {a d d'}, (root.listing v name).linked.DepthAt a d →
      (root.listing v name).linked.DepthAt a d' → d = d' := depthAt_unique hb
  obtain ⟨depth, hdepth⟩ := Executable.exists_depth hunique
  have hsuff := sufficient_linked hb v name
  refine ⟨_, ha, depth, hdepth, fun a d i hd => hsuff a d i ((hdepth a d).1 hd), fun env hp => ?_⟩
  obtain ⟨ms, last, hruns, hrun⟩ := Machine.runs_run env
  rw [← hp] at hsuff hdepth ⊢
  refine ⟨ms, last, hruns, hrun, fun m hm => ?_, ?_, ?_⟩
  · have hat := hruns.depthAt m hm
    obtain ⟨i, hn⟩ := hruns.next m hm
    have hget := Machine.getElem?_of_next? hn
    exact ⟨(hdepth _ _).2 hat, i, hget, hsuff _ _ i hat hget⟩
  · rw [hrun]
    intro he
    rcases Machine.error_of_run he with hl | ⟨m, -, -, hl⟩
    · exact hruns.ne_stackUnderflow hsuff hl
    · cases hl
  · rw [hrun]
    intro he
    rcases Machine.error_of_run he with hl | ⟨m, -, -, hl⟩
    · obtain ⟨a, d, i, hat, hget, hlt⟩ := hruns.overflow hl
      exact ⟨a, d, i, (hdepth a d).2 hat, hget, hlt⟩
    · cases hl

/-- Whatever is stored under the two keys of the greeting, it does not underflow. -/
theorem level_of_compile_greeting :
    ∃ program, assemble (greeting.listing 5 "approval").text = .ok program ∧
      ∀ env : Environment, env.program = program → env.run.1 ≠ .error .stackUnderflow := by
  obtain ⟨program, ha, depth, -, -, h⟩ := level_of_compile built_greeting compile_greeting
  refine ⟨program, ha, fun env hp => ?_⟩
  obtain ⟨ms, last, -, -, -, hunderflow, -⟩ := h env hp
  exact hunderflow

/-- Compiled code runs straight ahead: the positions of the attempts only go up, so no run costs
more than there are instructions, and a budget of that many is never used up. A run ends with a
return or fails at an instruction; it never gets to the end of the program. -/
theorem ascends_of_compile {l : Listing} (hb : Built root) (hc : root.compile v name = .ok l) :
    ∃ program, assemble l.text = .ok program ∧
      ∀ env : Environment, env.program = program →
        ∃ ms last, Machine.Runs env {} ms last ∧ env.run = (last.bind Machine.finish, ms.length) ∧
          (ms.map (·.pc)).Pairwise (· < ·) ∧
          env.run.2 ≤ l.instructionCount ∧
          (l.instructionCount ≤ env.context.costBudget.toNat →
            ∀ budget, env.run.1 ≠ .error (.costBudgetExceeded budget)) ∧
          (∀ e, env.run.1 = .error e → last = .error e) ∧
          ∀ m, last = .ok m → m.verdict.isSome ∧
            ∃ m' i, ms.getLast? = some m' ∧ program.instructions[m'.pc]? = some i ∧ i.op = .ret := by
  obtain ⟨-, -, ht, -, -⟩ := (compile_eq_ok_iff hb).1 hc
  obtain ⟨rfl, ha⟩ := assemble_of_compile hb hc
  refine ⟨_, ha, fun env hp => ?_⟩
  obtain ⟨ms, last, hruns, hrun⟩ := Machine.runs_run env
  have hsize : env.program.size = (root.listing v name).instructionCount := by
    rw [hp]
    exact List.length_map _
  have hstraight : env.program.Straight := hp ▸ straight_listing hb v name
  have hlen : 0 + ms.length ≤ env.program.size := hruns.length_le_size hstraight (Nat.zero_le _)
  rw [Nat.zero_add, hsize] at hlen
  have herror : ∀ e, env.run.1 = .error e → last = .error e := by
    rw [hrun]
    exact fun e he => last_of_run_error hb ht hp hruns he
  refine ⟨ms, last, hruns, hrun, hruns.ascends hstraight, by rw [hrun]; exact hlen, ?_, herror, ?_⟩
  · intro hbudget budget he
    exact hruns.ne_costBudgetExceeded (Nat.le_trans hlen hbudget) budget (herror _ he)
  · intro m hl
    have hverdict := isSome_verdict_of_runs hb ht hp hruns hl
    obtain ⟨m', i, hlast, hn, hop⟩ := hruns.returns rfl hl hverdict
    have hget := Machine.getElem?_of_next? hn
    rw [hp] at hget
    exact ⟨hverdict, m', i, hlast, hget, hop⟩

/-- A budget for 20 instructions is enough for the greeting. -/
theorem ascends_of_compile_greeting :
    ∃ program, assemble (greeting.listing 5 "approval").text = .ok program ∧
      ∀ env : Environment, env.program = program →
        env.run.2 ≤ 20 ∧ (env.context.costBudget = 20 →
          ∀ budget, env.run.1 ≠ .error (.costBudgetExceeded budget)) := by
  obtain ⟨program, ha, h⟩ := ascends_of_compile built_greeting compile_greeting
  refine ⟨program, ha, fun env hp => ?_⟩
  obtain ⟨ms, last, -, -, -, hcost, hbudget, -, -⟩ := h env hp
  have hcount : (greeting.listing 5 "approval").instructionCount = 20 := rfl
  rw [hcount] at hcost hbudget
  refine ⟨hcost, fun hb => hbudget ?_⟩
  rw [hb]
  decide

end Expr

end ContractBench
