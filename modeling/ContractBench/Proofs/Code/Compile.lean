import ContractBench.Code.Compile
import ContractBench.Proofs.Code.Depth
import ContractBench.Proofs.Code.Versions
/-!
# When compilation succeeds

A built tree compiles to the lines of its code exactly if its version is supported, its keys
agree, it terminates, and its version is enough for every node that is lowered. The first of these
that fails, in this order, is the error; no other error comes up.

    compile v name = .ok l ↔ ... ∧ l = root.listing v name            (compile_eq_ok_iff)
-/

namespace ContractBench

namespace Expr

open Item KeyTypes

/-! ## Algorithm -/

/-- The lines of the code of a tree whose root goes by a name. -/
def namedCode (root : Expr) (name : String) : List (Line × NodePath) :=
  namedLines (root.lower (.root name))

/-- The listing of a tree, if nothing is wrong with it. -/
def listing (root : Expr) (version : UInt8) (name : String) : Listing :=
  ⟨version, (root.namedCode name).map (·.1)⟩

/-! ## Lemmas -/

theorem isSupported_iff (v : UInt8) : isSupported v = true ↔ 1 ≤ v ∧ v ≤ 8 := by
  unfold isSupported
  rw [Bool.and_eq_true, decide_eq_true_iff, decide_eq_true_iff]
  rfl

theorem compile_of_unsupported {v : UInt8} (hv : isSupported v = false) (name : String)
    (root : Expr) : root.compile v name = .error (.invalidVersion v) := by
  simp only [compile, hv]
  rfl

theorem code_of_clash {root : Expr} {name : String} {e : CompileError}
    (h : root.checkTypes (.root name) [] = .error e) : root.code name = .error e := by
  simp only [code, h]
  rfl

theorem code_of_goes_on {root : Expr} {name : String} {types : KeyTypes}
    (h : root.checkTypes (.root name) [] = .ok types) (ht : root.terminates = false) :
    root.code name = .error (.unreachableTerminal (root.fallThrough (.root name)).text) := by
  simp only [code, h, ht]
  rfl

/-- A built tree that passes the check of its keys and terminates is lowered; the check of the
depth has nothing to object to. -/
theorem code_of_terminates {root : Expr} (hb : Built root) {name : String} {types : KeyTypes}
    (h : root.checkTypes (.root name) [] = .ok types) (ht : root.terminates = true) :
    root.code name = .ok (root.lower (.root name)) := by
  obtain ⟨A, hd⟩ := checkDepth_of_built hb (.root name) 0
  have hd : root.checkDepth (.root name) {} = .ok ⟨root.depthAfter 0, A⟩ := hd
  simp only [code, h, ht, hd]
  rfl

theorem compile_of_code_error {root : Expr} {v : UInt8} {name : String} {e : CompileError}
    (hv : isSupported v = true) (h : root.code name = .error e) :
    root.compile v name = .error e := by
  simp only [compile, hv, h]
  rfl

/-- What is left of compiling once there is code: the version must know it. -/
theorem compile_of_code {root : Expr} (hb : Built root) {v : UInt8} {name : String}
    (hv : isSupported v = true) (h : root.code name = .ok (root.lower (.root name))) :
    root.compile v name = Listing.ofLines v (root.namedCode name) := by
  simp only [compile, hv, h, bind, Except.bind, lines_lower hb]
  rfl

/-- A tree that nothing is wrong with but perhaps its version. -/
theorem compile_of_keysAgree {root : Expr} (hb : Built root) {v : UInt8} {name : String}
    (hv : isSupported v = true) (hk : root.KeysAgree) (ht : root.terminates = true) :
    root.compile v name = Listing.ofLines v (root.namedCode name) := by
  rcases checkTypes_of_built hb (.root name) with ⟨-, types, hc⟩ | ⟨hn, -⟩
  · exact compile_of_code hb hv (code_of_terminates hb hc ht)
  · exact absurd hk hn

theorem ofLines_of_known {v : UInt8} {lines : List (Line × NodePath)}
    (h : ∀ i ∈ emitted lines, i.1.minVersion ≤ v) :
    Listing.ofLines v lines = .ok ⟨v, lines.map (·.1)⟩ := by
  have hn : Listing.firstUnsupported? v lines = none := by
    rw [Listing.firstUnsupported?_eq_find?, List.find?_eq_none]
    intro i hi
    simpa using h i hi
  simp only [Listing.ofLines, hn]

/-- The first instruction in the order of the lines that a version does not know is told. -/
theorem ofLines_of_unknown {v : UInt8} {lines : List (Line × NodePath)}
    (h : ¬ ∀ i ∈ emitted lines, i.1.minVersion ≤ v) :
    ∃ before i origin after, emitted lines = before ++ (i, origin) :: after ∧
      (∀ j ∈ before, j.1.minVersion ≤ v) ∧ v < i.minVersion ∧
        Listing.ofLines v lines =
          .error (.unsupportedAtVersion origin.text i.text i.minVersion v) := by
  cases hf : Listing.firstUnsupported? v lines with
  | none =>
    rw [Listing.firstUnsupported?_eq_find?, List.find?_eq_none] at hf
    exact absurd (fun i hi => by simpa using hf i hi) h
  | some x =>
    obtain ⟨i, origin⟩ := x
    have hs := hf
    rw [Listing.firstUnsupported?_eq_find?, List.find?_eq_some_iff_append] at hs
    obtain ⟨hi, before, after, he, hbefore⟩ := hs
    refine ⟨before, i, origin, after, he, fun j hj => ?_, by simpa using hi, ?_⟩
    · simpa using hbefore j hj
    · simp only [Listing.ofLines, hf]

/-- What compiling a built tree at a supported version comes to, in the order of the checks. -/
inductive Outcome (root : Expr) (v : UInt8) (name : String) : Except CompileError Listing → Prop
  | clash {node : NodePath} {k : StateKey} {t t' : ValueType} :
      ¬ root.KeysAgree → t ≠ t' → (k, t) ∈ root.keyUses → (k, t') ∈ root.keyUses →
        Outcome root v name (.error (KeyTypes.clash node k t t'))
  | goesOn : root.KeysAgree → root.terminates = false →
      Outcome root v name
        (.error (.unreachableTerminal (root.fallThrough (.root name)).text))
  | unknown {before after : List (Instruction × NodePath)} {i : Instruction} {origin : NodePath} :
      root.KeysAgree → root.terminates = true → ¬ (∀ n, Reached n root → n.requires ≤ v) →
        emitted (root.namedCode name) = before ++ (i, origin) :: after →
          (∀ j ∈ before, j.1.minVersion ≤ v) → v < i.minVersion →
            Outcome root v name (.error (.unsupportedAtVersion origin.text i.text i.minVersion v))
  | done : root.KeysAgree → root.terminates = true → (∀ n, Reached n root → n.requires ≤ v) →
      Outcome root v name (.ok (root.listing v name))

theorem outcome_compile {root : Expr} (h : Built root) {v : UInt8} (name : String)
    (hv : isSupported v = true) : Outcome root v name (root.compile v name) := by
  have hk := emitted_known_iff h ((isSupported_iff v).1 hv).1 (.root name)
  rcases checkTypes_of_built h (.root name) with ⟨ha, types, hc⟩ | ⟨hn, node, k, t, t', hd⟩
  · cases ht : root.terminates with
    | false =>
      rw [compile_of_code_error hv (code_of_goes_on hc ht)]
      exact .goesOn ha ht
    | true =>
      rw [compile_of_code h hv (code_of_terminates h hc ht)]
      by_cases hall : ∀ i ∈ emitted (root.namedCode name), i.1.minVersion ≤ v
      · rw [ofLines_of_known hall]
        exact .done ha ht (hk.1 hall)
      · obtain ⟨before, i, origin, after, he, hb, hi, ho⟩ := ofLines_of_unknown hall
        rw [ho]
        exact .unknown ha ht (fun hr => hall (hk.2 hr)) he hb hi
  · obtain ⟨hne, hu, hu', hc⟩ := hd
    rw [compile_of_code_error hv (code_of_clash hc)]
    exact .clash hn hne hu hu'

/-- The trees that compile, and what they compile to. -/
theorem compile_eq_ok_iff {root : Expr} (h : Built root) {v : UInt8} {name : String}
    {l : Listing} :
    root.compile v name = .ok l ↔
      isSupported v = true ∧ root.KeysAgree ∧ root.terminates = true ∧
        (∀ n, Reached n root → n.requires ≤ v) ∧ l = root.listing v name := by
  cases hv : isSupported v with
  | false => simp [compile_of_unsupported hv]
  | true =>
    have ho := outcome_compile h name hv
    generalize root.compile v name = r at ho
    cases ho with
    | clash ha => simp [ha]
    | goesOn _ ht => simp [ht]
    | unknown _ _ hr => simp [hr]
    | done ha ht hr =>
      constructor
      · intro hl
        cases hl
        exact ⟨rfl, ha, ht, hr, rfl⟩
      · rintro ⟨-, -, -, -, rfl⟩
        rfl

/-! ## Top theorems -/

/-- Compiling a built tree fails at an unsupported version, else at a key with two types, else
because the tree does not terminate, else at the first emitted instruction its version does not
know, and succeeds if it gets past all of these. The types that were recorded when the nodes were
built are those found again, so nothing else can go wrong. -/
theorem compile_outcome {root : Expr} (h : Built root) (v : UInt8) (name : String) :
    (∀ w, root.compile v name = .error (.invalidVersion w) ↔ w = v ∧ ¬ (1 ≤ v ∧ v ≤ 8)) ∧
    (1 ≤ v ∧ v ≤ 8 →
      ((∃ l, root.compile v name = .ok l) ↔
        root.KeysAgree ∧ root.terminates = true ∧ ∀ n, Reached n root → n.requires ≤ v) ∧
      (¬ root.KeysAgree → ∃ node k t t', t ≠ t' ∧ (k, t) ∈ root.keyUses ∧ (k, t') ∈ root.keyUses ∧
        root.compile v name = .error (clash node k t t')) ∧
      (root.KeysAgree → root.terminates = false →
        root.compile v name =
          .error (.unreachableTerminal (root.fallThrough (.root name)).text)) ∧
      (root.KeysAgree → root.terminates = true → ¬ (∀ n, Reached n root → n.requires ≤ v) →
        ∃ before i origin after, emitted (root.namedCode name) = before ++ (i, origin) :: after ∧
          (∀ j ∈ before, j.1.minVersion ≤ v) ∧ v < i.minVersion ∧
            root.compile v name =
              .error (.unsupportedAtVersion origin.text i.text i.minVersion v))) ∧
    (∀ e, root.compile v name = .error e →
      (∀ number, e ≠ .undefinedLabel number) ∧ (∀ node, e ≠ .missingValue node) ∧
        (∀ node expected actual, e ≠ .stackImbalance node expected actual) ∧
          ∀ node t t', e = .typeMismatch node t t' → ¬ root.KeysAgree) ∧
    ∀ n, Within n root → ∀ node, n.infer node = .ok (n.type, n.terminates) := by
  have hnodes : ∀ n, Within n root → ∀ node, n.infer node = .ok (n.type, n.terminates) :=
    fun n hn node => infer_of_built (h.of_within hn) node
  by_cases hv : 1 ≤ v ∧ v ≤ 8
  case neg =>
    have hu : isSupported v = false := by
      rw [← Bool.not_eq_true, isSupported_iff]
      exact hv
    rw [compile_of_unsupported hu]
    refine ⟨fun w => by simp [hv, eq_comm], fun hv' => absurd hv' hv, fun e he => ?_, hnodes⟩
    cases he
    simp
  case pos =>
    have ho := outcome_compile h name ((isSupported_iff v).2 hv)
    generalize root.compile v name = r at ho ⊢
    cases ho with
    | clash ha hne hu hu' =>
      refine ⟨fun w => by simp [clash, hv], fun _ => ⟨by simp [ha], fun _ => ?_, ?_, ?_⟩, ?_, hnodes⟩
      · exact ⟨_, _, _, _, hne, hu, hu', rfl⟩
      · exact fun ha' => absurd ha' ha
      · exact fun ha' => absurd ha' ha
      · rintro _ ⟨⟩
        simp [clash, ha]
    | goesOn ha ht =>
      refine ⟨fun w => by simp [hv], fun _ => ⟨by simp [ht], ?_, fun _ _ => rfl, ?_⟩, ?_, hnodes⟩
      · exact fun ha' => absurd ha ha'
      · exact fun _ ht' => by simp [ht] at ht'
      · rintro _ ⟨⟩
        simp
    | unknown ha ht hr he hb hi =>
      refine ⟨fun w => by simp [hv], fun _ => ⟨?_, ?_, ?_, fun _ _ _ => ?_⟩, ?_, hnodes⟩
      · exact iff_of_false (fun hl => nomatch hl.choose_spec) fun hl => hr hl.2.2
      · exact fun ha' => absurd ha ha'
      · exact fun _ ht' => by simp [ht] at ht'
      · exact ⟨_, _, _, _, he, hb, hi, rfl⟩
      · rintro _ ⟨⟩
        simp
    | done ha ht hr =>
      refine ⟨fun w => by simp [hv], fun _ => ⟨?_, ?_, ?_, ?_⟩, ?_, hnodes⟩
      · exact iff_of_true ⟨_, rfl⟩ ⟨ha, ht, hr⟩
      · exact fun ha' => absurd ha ha'
      · exact fun _ ht' => by simp [ht] at ht'
      · exact fun _ _ hr' => absurd hr hr'
      · exact fun _ he => nomatch he

/-- A log that nothing reaches. -/
def deadLog : Expr := .seq [.approve, .log (.bytes [])]

theorem built_deadLog : Built deadLog := by
  refine .seq fun e he => ?_
  rcases List.mem_cons.1 he with rfl | he
  · exact .verdict true
  · cases List.mem_singleton.1 he
    exact .log (.bytes []) (admitted_iff_fits.2 rfl)

/-- Version 2 has no logs, but the log is not lowered. -/
theorem compile_outcome_deadLog : ∃ l, deadLog.compile 2 "approval" = .ok l := by
  have hkeys : deadLog.KeysAgree := fun u hu => nomatch hu
  have hreached : ∀ n, Reached n deadLog → n.requires ≤ 2 := by
    rw [forall_reached_iff]
    refine ⟨by decide, fun c hc => ?_⟩
    cases List.mem_singleton.1 hc
    rw [forall_reached_iff]
    exact ⟨by decide, fun c hc => nomatch hc⟩
  have h := (compile_outcome built_deadLog 2 "approval").2.1 (by decide)
  exact h.1.2 ⟨hkeys, rfl, hreached⟩

end Expr

end ContractBench
