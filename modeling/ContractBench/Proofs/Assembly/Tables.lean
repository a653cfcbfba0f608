import ContractBench.Assembly.Assembler
import ContractBench.Proofs.Assembly.Errors
/-!
# The tables of an assembler

Work on tables that starts with empty ones comes to the same end as reading and linking a listing
(`Assembler.ComesTo`). The lines are taken in one after the other (`Assembler.added`), until one
cannot be read; then the tables hold the instructions of the listing, the index behind each label,
and the jumps that wait for one, which get their targets in turn:

    ComesTo a (add each line) ((readLines .. xs).map fun lines => lines.foldl added a)
                                                                          (comesTo_addLines)
    a.instructions = (before ++ is).toArray → ComesTo a (resolve each jump of is)
      ((is.mapM (link a.labels)).map fun js => { a with instructions := .. js })   (comesTo_resolveAll)
    ((Assembler.assemble source).run.run a).1 = assemble source                    (fst_run_assemble)

So nothing that an earlier text left in the tables shows in the result for a later one.
-/

namespace ContractBench

open Success

namespace Assembler

/-! ## Algorithm -/

/-- Work on tables comes to the end a computation tells: the tables behind it, or its error. -/
inductive ComesTo (a : Assembler) (x : Work Unit) : Except AssemblyError Assembler → Prop
  | ok {a' : Assembler} : x.run.run a = (.ok (), a') → ComesTo a x (.ok a')
  | error {e : AssemblyError} {a' : Assembler} : x.run.run a = (.error e, a') →
      ComesTo a x (.error e)

/-- The tables with one line taken in. -/
def added (a : Assembler) : Line → Assembler
  | .op i => { a with
      instructions := a.instructions.push i
      pending := match i.imm with
        | .label name => a.pending.push (a.instructions.size, name)
        | _ => a.pending }
  | .label name => { a with labels := (name, a.instructions.size) :: a.labels }

/-- The jumps to a label among instructions, each with its index; `k` instructions came before. -/
def waiting (k : Nat) : List Instruction → List (Nat × String)
  | [] => []
  | i :: rest =>
    match i.imm with
    | .label name => (k, name) :: waiting (k + 1) rest
    | _ => waiting (k + 1) rest

/-! ## Lemmas -/

variable {a a' : Assembler}

namespace ComesTo

variable {x : Work Unit} {f : Unit → Work Unit} {r : Except AssemblyError Assembler}

theorem after (hx : x.run.run a = (.ok (), a')) (hf : ComesTo a' (f ()) r) :
    ComesTo a (x >>= f) r := by
  have hrun : (x >>= f).run.run a = (f ()).run.run a' := by rw [run_bind, hx]
  cases hf with
  | ok h => exact .ok (hrun.trans h)
  | error h => exact .error (hrun.trans h)

theorem fails {e : AssemblyError} (hx : x.run.run a = (.error e, a')) :
    ComesTo a (x >>= f) (.error e) :=
  .error (by rw [run_bind, hx])

end ComesTo

/-! ### Lines -/

section

variable {n : Nat} {cs : List Char} {line : Line}

/-- A line is read for the version of the tables, before anything is changed. -/
theorem run_addLine (a : Assembler) (n : Nat) (cs : List Char) :
    (addLine n cs).run.run a =
      match Source.readLine a.version n cs with
      | .error e => (.error e, a)
      | .ok (.op i) => (.ok (), a.added (.op i))
      | .ok (.label name) =>
        if (a.labels.lookup name).isSome then (.error (.duplicateLabel name), a)
        else (.ok (), a.added (.label name)) := by
  unfold addLine
  rw [run_bind]
  change (addLine.liftExcept (Source.readLine a.version n cs) >>= _).run.run a = _
  cases Source.readLine a.version n cs with
  | error e => rfl
  | ok line =>
    cases line with
    | op i => rfl
    | label name =>
      change (if (a.labels.lookup name).isSome then _ else _ : Work Unit).run.run a = _
      dsimp only
      split <;> rfl

theorem isSome_lookup_iff {l : List (String × Nat)} {name : String} :
    (l.lookup name).isSome ↔ name ∈ l.map Prod.fst := by
  rw [List.lookup_isSome_iff, List.mem_map]
  constructor
  · rintro ⟨e, he, hn⟩
    exact ⟨e, he, (beq_iff_eq.1 hn).symm⟩
  · rintro ⟨e, he, rfl⟩
    exact ⟨e, he, beq_self_eq_true _⟩

theorem run_addLine_of_new (h : Source.readLine a.version n cs = .ok line)
    (hn : line.New (a.labels.map Prod.fst)) : (addLine n cs).run.run a = (.ok (), a.added line) := by
  rw [run_addLine, h]
  cases line with
  | op i => rfl
  | label name => exact if_neg fun hs => hn (isSome_lookup_iff.1 hs)

theorem run_addLine_of_not_new (h : Source.readLine a.version n cs = .ok line)
    (hn : ¬ line.New (a.labels.map Prod.fst)) :
    ∃ name, line = .label name ∧ (addLine n cs).run.run a = (.error (.duplicateLabel name), a) := by
  rw [run_addLine, h]
  cases line with
  | op i => exact absurd trivial hn
  | label name => exact ⟨name, rfl, if_pos (isSome_lookup_iff.2 (not_not.1 hn))⟩

theorem defined_added (a : Assembler) (line : Line) :
    (a.added line).labels.map Prod.fst = line.definedBehind (a.labels.map Prod.fst) := by
  cases line <;> rfl

theorem version_added (a : Assembler) (line : Line) : (a.added line).version = a.version := by
  cases line <;> rfl

/-- Lines are taken in as they are read. -/
theorem comesTo_addLines (a : Assembler) (xs : List (Nat × List Char)) :
    ComesTo a (xs.forM fun (n, cs) => addLine n cs)
      ((Source.readLines a.version (a.labels.map Prod.fst) xs).map (·.foldl added a)) := by
  induction xs generalizing a with
  | nil => exact .ok rfl
  | cons x rest ih =>
    obtain ⟨n, cs⟩ := x
    change ComesTo a (addLine n cs >>= fun _ => rest.forM _) _
    cases hx : Source.readLine a.version n cs with
    | error e =>
      rw [Source.readLines_cons_error hx]
      exact .fails (by rw [run_addLine, hx])
    | ok line =>
      by_cases hn : line.New (a.labels.map Prod.fst)
      · have hrest := ih (a.added line)
        rw [version_added, defined_added] at hrest
        rw [Source.readLines_cons_of_new hx hn]
        refine .after (run_addLine_of_new hx hn) ?_
        cases hr : Source.readLines a.version (line.definedBehind (a.labels.map Prod.fst)) rest with
        | error e =>
          rw [hr] at hrest
          exact hrest
        | ok lines =>
          rw [hr] at hrest
          exact hrest
      · obtain ⟨name, rfl, hrun⟩ := run_addLine_of_not_new hx hn
        obtain ⟨name, ⟨⟩, he⟩ := Source.readLines_cons_of_not_new (x := (n, cs)) hx hn
        rw [he]
        exact .fails hrun

/-! ### Tables of a listing -/

variable (lines : List Line)

theorem version_foldl_added (a : Assembler) : (lines.foldl added a).version = a.version := by
  induction lines generalizing a with
  | nil => rfl
  | cons line rest ih => rw [List.foldl_cons, ih, version_added]

theorem instructions_foldl_added (a : Assembler) :
    (lines.foldl added a).instructions = a.instructions ++ Listing.instructions lines := by
  induction lines generalizing a with
  | nil => simp [Listing.instructions]
  | cons line rest ih =>
    rw [List.foldl_cons, ih]
    cases line with
    | op i => simp [added, Listing.instructions]
    | label name => rfl

/-- The labels of a listing with their targets, latest first. -/
theorem labels_foldl_added (a : Assembler) :
    (lines.foldl added a).labels =
      (Listing.targets a.instructions.size lines).reverse ++ a.labels := by
  induction lines generalizing a with
  | nil => rfl
  | cons line rest ih =>
    rw [List.foldl_cons, ih]
    cases line with
    | op i => simp [added, Listing.targets]
    | label name => simp [added, Listing.targets]

theorem pending_foldl_added (a : Assembler) :
    (lines.foldl added a).pending =
      a.pending ++ waiting a.instructions.size (Listing.instructions lines) := by
  induction lines generalizing a with
  | nil => simp [Listing.instructions, waiting]
  | cons line rest ih =>
    rw [List.foldl_cons, ih]
    cases line with
    | label name => rfl
    | op i =>
      have hinstructions : Listing.instructions (.op i :: rest) = i :: Listing.instructions rest := rfl
      rw [hinstructions, waiting]
      cases himm : i.imm <;> simp [added, himm]

/-! ### Jumps -/

theorem run_resolve (a : Assembler) (index : Nat) (name : String) :
    (resolve index name).run.run a =
      match a.labels.lookup name with
      | some t =>
        (.ok (), { a with
          instructions := a.instructions.modify index ({ · with imm := .target t }) })
      | none => (.error (.undefinedLabel name), a) := by
  unfold resolve
  rw [run_bind]
  change (match a.labels.lookup name with | some _ => _ | none => _ : Work Unit).run.run a = _
  cases a.labels.lookup name <;> rfl

theorem modify_append (before rest : List Instruction) (i : Instruction)
    (f : Instruction → Instruction) :
    (before ++ i :: rest).modify before.length f = before ++ f i :: rest := by
  induction before with
  | nil => rfl
  | cons j before ih => rw [List.cons_append, List.length_cons, List.modify_succ_cons, ih]; rfl

/-- Jumps get their targets where linking finds them. -/
theorem comesTo_resolveAll (a : Assembler) (before is : List Instruction)
    (h : a.instructions = (before ++ is).toArray) :
    ComesTo a ((waiting before.length is).forM fun (index, name) => resolve index name)
      ((is.mapM (Instruction.link a.labels)).map fun js =>
        { a with instructions := (before ++ js).toArray }) := by
  induction is generalizing a before with
  | nil =>
    obtain ⟨version, instructions, labels, pending⟩ := a
    cases h
    exact .ok rfl
  | cons i rest ih =>
    -- behind an instruction that is linked, the others are linked in the tables that hold it
    have hrest {j : Instruction} {a' : Assembler} (hj : i.link a.labels = .ok j)
        (ha' : a' = { a with instructions := (before ++ j :: rest).toArray }) :
        ComesTo a'
          ((waiting (before.length + 1) rest).forM fun (index, name) => resolve index name)
          (((i :: rest).mapM (Instruction.link a.labels)).map fun js =>
            { a with instructions := (before ++ js).toArray }) := by
      subst ha'
      have happend (js : List Instruction) : before ++ [j] ++ js = before ++ j :: js :=
        List.append_assoc before [j] js
      have hlater := ih { a with instructions := (before ++ j :: rest).toArray } (before ++ [j])
        (by rw [happend])
      rw [List.length_append, List.length_singleton] at hlater
      rw [List.mapM_cons, hj]
      cases hm : rest.mapM (Instruction.link a.labels) with
      | error e =>
        simp only [hm] at hlater
        exact hlater
      | ok js =>
        simp only [hm, happend] at hlater
        exact hlater
    rw [waiting]
    cases himm : i.imm with
    | label name =>
      change ComesTo a (resolve before.length name >>= fun _ => List.forM _ _) _
      cases ht : a.labels.lookup name with
      | none =>
        have hlink := Instruction.link_eq_error.2 ⟨name, himm, ht, rfl⟩
        rw [List.mapM_cons, hlink]
        exact .fails (by rw [run_resolve, ht])
      | some t =>
        have hlink : i.link a.labels = .ok { i with imm := .target t } := by
          simp only [Instruction.link, himm, ht]
        refine .after (by rw [run_resolve, ht]) (hrest hlink ?_)
        rw [h, List.modify_toArray, modify_append]
    | _ =>
      have hlink : i.link a.labels = .ok i := by simp only [Instruction.link, himm]
      exact hrest hlink (by rw [← h])

/-! ### Whole texts -/

variable {l : List (String × Nat)}

/-- Where every label stands once, the order of a table does not matter. -/
theorem lookup_reverse (h : (l.map Prod.fst).Nodup) (name : String) :
    l.reverse.lookup name = l.lookup name := by
  induction l with
  | nil => rfl
  | cons e rest ih =>
    obtain ⟨key, target⟩ := e
    obtain ⟨hnew, hrest⟩ := List.nodup_cons.1 h
    rw [List.reverse_cons, List.lookup_append, ih hrest]
    by_cases hn : name = key
    · subst hn
      have hnone : rest.lookup name = none := by
        rw [← Option.not_isSome_iff_eq_none, isSome_lookup_iff]
        exact hnew
      rw [hnone, List.lookup_cons_self, List.lookup_cons_self]
      rfl
    · have hb : (name == key) = false := by simpa using hn
      simp [List.lookup_cons, hb]

theorem link_congr {t t' : List (String × Nat)} (h : ∀ name, t.lookup name = t'.lookup name)
    (i : Instruction) : i.link t = i.link t' := by
  unfold Instruction.link
  simp only [h]

/-- The tables that a text of a version starts with. -/
def blank (version : UInt8) : Assembler := { version := version }

/-- Tables that hold a listing come to its executable, or miss the label that linking misses. -/
theorem comesTo_link (version : UInt8) {lines : List Line} (h : (Listing.labels lines).Nodup) :
    ComesTo (lines.foldl added (blank version))
      ((lines.foldl added (blank version)).pending.toList.forM fun (index, name) =>
        resolve index name)
      (((Listing.instructions lines).mapM (Instruction.link (Listing.targets 0 lines))).map
        fun js => { lines.foldl added (blank version) with instructions := js.toArray }) := by
  have hpending : (lines.foldl added (blank version)).pending.toList =
      waiting 0 (Listing.instructions lines) := by
    rw [pending_foldl_added]
    simp [blank]
  have hinstructions : (lines.foldl added (blank version)).instructions =
      (Listing.instructions lines).toArray := by
    rw [instructions_foldl_added]
    simp [blank]
  have hlabels : (lines.foldl added (blank version)).labels = (Listing.targets 0 lines).reverse := by
    rw [labels_foldl_added]
    simp [blank]
  have hlink : Instruction.link (lines.foldl added (blank version)).labels =
      Instruction.link (Listing.targets 0 lines) := by
    refine funext fun i => link_congr (fun name => ?_) i
    rw [hlabels, lookup_reverse (by rwa [Listing.map_fst_targets])]
  rw [hpending, ← hlink]
  exact comesTo_resolveAll _ [] _ hinstructions

/-- What counts behind the pragma is assembled as it is read and linked. -/
theorem fst_run_lines (version : UInt8) (rest : List (Nat × List Char)) :
    ((do
      rest.forM fun (n, cs) => addLine n cs
      (← get).pending.toList.forM fun (index, name) => resolve index name
      let a ← get
      return ⟨a.version, a.instructions.toList⟩ : Work Executable).run.run (blank version)).1 =
      (Source.readLines version [] rest >>= fun lines => Listing.link ⟨version, lines⟩) := by
  rw [run_bind]
  have hlines := comesTo_addLines (blank version) rest
  change ComesTo _ _ ((Source.readLines version [] rest).map _) at hlines
  cases hr : Source.readLines version [] rest with
  | error e =>
    rw [hr] at hlines
    cases hlines with | error h =>
    rw [h]
    rfl
  | ok lines =>
    rw [hr] at hlines
    cases hlines with | ok h =>
    rw [h]
    have hjumps := comesTo_link version (Source.readLines_eq_ok.1 hr).2.1
    change ((List.forM _ _ >>= _ : Work Executable).run.run (lines.foldl added (blank version))).1 =
      (Listing.instructions lines).mapM (Instruction.link (Listing.targets 0 lines)) >>= fun is =>
        pure ⟨version, is⟩
    rw [run_bind]
    cases hm : (Listing.instructions lines).mapM (Instruction.link (Listing.targets 0 lines)) with
    | error e =>
      rw [hm] at hjumps
      cases hjumps with | error h =>
      rw [h]
      rfl
    | ok js =>
      rw [hm] at hjumps
      cases hjumps with | ok h =>
      rw [h]
      exact congrArg (fun v => (.ok ⟨v, js⟩ : Except AssemblyError Executable))
        (version_foldl_added lines (blank version))

/-- Tables that an earlier text left do not show. -/
theorem fst_run_assemble (a : Assembler) (source : String) :
    ((assemble source).run.run a).1 = ContractBench.assemble source := by
  unfold assemble ContractBench.assemble Listing.ofText
  cases Source.contentLines source with
  | nil => rfl
  | cons x rest =>
    obtain ⟨n, first⟩ := x
    dsimp only
    cases Source.readPragma first with
    | error e => rfl
    | ok version =>
      refine Eq.trans ?_ ((fst_run_lines version rest).trans ?_)
      · rfl
      · change _ = (Source.readLines version [] rest >>= fun lines =>
          (pure ⟨version, lines⟩ : Except AssemblyError Listing)) >>= Listing.link
        cases Source.readLines version [] rest <;> rfl

end

/-! ## Top theorem -/

/-- Whatever was assembled before and wherever it failed, each text comes out as with fresh tables,
which is as it is read and linked. -/
theorem assembleAll_eq_map (a : Assembler) (sources : List String) :
    assembleAll a sources = sources.map (fun source => ((assemble source).run.run {}).1) ∧
      assembleAll a sources = sources.map ContractBench.assemble := by
  have hall : assembleAll a sources = sources.map ContractBench.assemble := by
    induction sources generalizing a with
    | nil => rfl
    | cons source rest ih =>
      have hcons : assembleAll a (source :: rest) = ((assemble source).run.run a).1 ::
          assembleAll ((assemble source).run.run a).2 rest := rfl
      rw [hcons, ih, fst_run_assemble, List.map_cons]
  refine ⟨hall.trans (List.map_congr_left fun source _ => ?_), hall⟩
  exact (fst_run_assemble {} source).symm

end Assembler

end ContractBench
