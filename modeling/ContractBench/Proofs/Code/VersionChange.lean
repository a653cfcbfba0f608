import ContractBench.Proofs.Code.Compile
/-!
# One tree at several versions

The checks of a tree, its code and the names of its labels are found without the version
(`Expr.codeLines`). The version only decides whether the lines become a listing, and a version that
knows an instruction knows it ever after:

    isSupported v → root.compile v name = root.codeLines name >>= Listing.ofLines v
                                                                              (compile_of_supported)
    Listing.ofLines v lines = .ok l ↔ (∀ i ∈ Item.emitted lines, i.1.minVersion ≤ v) ∧
      l = ⟨v, lines.map (·.1)⟩                                                   (ofLines_eq_ok)
    v ≤ w → root.compile v name = .ok l → root.compile w name = .ok ⟨w, l.lines⟩
                                                                           (compile_across_versions)
-/

namespace ContractBench

open Item Success

namespace Listing

variable {v w : UInt8} {lines : List (Line × NodePath)}

/-! ## Lines at a version -/

theorem ofLines_eq_ok {l : Listing} :
    ofLines v lines = .ok l ↔
      (∀ i ∈ emitted lines, i.1.minVersion ≤ v) ∧ l = ⟨v, lines.map (·.1)⟩ := by
  by_cases h : ∀ i ∈ emitted lines, i.1.minVersion ≤ v
  · rw [Expr.ofLines_of_known h]
    rw [Except.ok.injEq, and_iff_right h, eq_comm]
  · obtain ⟨before, i, origin, after, -, -, -, ho⟩ := Expr.ofLines_of_unknown h
    rw [ho]
    exact iff_of_false nofun fun hl => h hl.1

/-- Lines are refused for an instruction among them that the version does not know. -/
theorem ofLines_error {e : CompileError} (h : ofLines v lines = .error e) :
    ∃ i origin, (i, origin) ∈ emitted lines ∧ v < i.minVersion ∧
      e = .unsupportedAtVersion origin.text i.text i.minVersion v := by
  by_cases hk : ∀ i ∈ emitted lines, i.1.minVersion ≤ v
  · rw [Expr.ofLines_of_known hk] at h
    cases h
  · obtain ⟨before, i, origin, after, he, -, hi, ho⟩ := Expr.ofLines_of_unknown hk
    rw [ho] at h
    cases h
    exact ⟨i, origin, he ▸ List.mem_append_right _ List.mem_cons_self, hi, rfl⟩

/-- Lines that make a listing at a version make one at every later version. -/
theorem ofLines_mono {l : Listing} (hvw : v ≤ w) (h : ofLines v lines = .ok l) :
    ofLines w lines = .ok ⟨w, l.lines⟩ := by
  obtain ⟨hk, rfl⟩ := ofLines_eq_ok.1 h
  exact ofLines_eq_ok.2 ⟨fun i hi => UInt8.le_trans (hk i hi) hvw, rfl⟩

/-- An instruction that some version does not know is in the way of every version before the one
that it needs. -/
theorem ofLines_of_mem {i : Instruction} {origin : NodePath} (hi : (i, origin) ∈ emitted lines)
    (hw : w < i.minVersion) :
    ∃ node op required, w < required ∧
      ofLines w lines = .error (.unsupportedAtVersion node op required w) := by
  have hn : ¬ ∀ j ∈ emitted lines, j.1.minVersion ≤ w :=
    fun hk => UInt8.not_lt.2 (hk _ hi) hw
  obtain ⟨before, j, origin, after, -, -, hj, ho⟩ := Expr.ofLines_of_unknown hn
  exact ⟨_, _, _, hj, ho⟩

end Listing

namespace Expr

/-! ## What does not depend on the version -/

/-- The lines of a tree that passed the checks, each with the path of its node; no version is asked
for. -/
def codeLines (root : Expr) (name : String) : Except CompileError (List (Line × NodePath)) := do
  Item.lines (← root.code name)

variable {root : Expr} {name : String} {v w : UInt8}

/-- The version comes in last. -/
theorem compile_of_supported (hv : 1 ≤ v ∧ v ≤ 8) :
    root.compile v name = root.codeLines name >>= Listing.ofLines v := by
  have hs : isSupported v = true := (isSupported_iff v).2 hv
  simp only [compile, codeLines, hs, Bool.not_true, Bool.false_eq_true, if_false]
  cases root.code name <;> rfl

/-- A supported version is refused for the tree alone, or for its lines. -/
theorem compile_eq_error (hv : 1 ≤ v ∧ v ≤ 8) {e : CompileError} :
    root.compile v name = .error e ↔
      root.codeLines name = .error e ∨
        ∃ lines, root.codeLines name = .ok lines ∧ Listing.ofLines v lines = .error e := by
  rw [compile_of_supported hv, bind_eq_error]

/-- An error that tells of no version is the same at all versions. -/
theorem compile_error_of_tree (hv : 1 ≤ v ∧ v ≤ 8) (hw : 1 ≤ w ∧ w ≤ 8) {e : CompileError}
    (he : ∀ node op required available, e ≠ .unsupportedAtVersion node op required available)
    (h : root.compile v name = .error e) : root.compile w name = .error e := by
  rcases (compile_eq_error hv).1 h with htree | ⟨lines, -, hlines⟩
  · exact (compile_eq_error hw).2 (.inl htree)
  · obtain ⟨i, origin, -, -, hi⟩ := Listing.ofLines_error hlines
    exact absurd hi (he _ _ _ _)

/-! ## Top theorem -/

/-- What compiles at a version compiles to the same lines at every later version. A tree refused for
its types and keys, or because it does not terminate, is refused with the same error at every version;
one refused for an instruction that needs a later version is refused like this at every version before
that. -/
theorem compile_across_versions (hv : 1 ≤ v ∧ v ≤ 8) (hw : 1 ≤ w ∧ w ≤ 8) :
    (v ≤ w → ∀ l, root.compile v name = .ok l → root.compile w name = .ok ⟨w, l.lines⟩) ∧
    (∀ node expected found, root.compile v name = .error (.typeMismatch node expected found) →
      root.compile w name = .error (.typeMismatch node expected found)) ∧
    (∀ node, root.compile v name = .error (.unreachableTerminal node) →
      root.compile w name = .error (.unreachableTerminal node)) ∧
    ∀ node op required available,
      root.compile v name = .error (.unsupportedAtVersion node op required available) →
        w < required →
          ∃ node' op' required' available',
            root.compile w name =
              .error (.unsupportedAtVersion node' op' required' available') := by
  refine ⟨?_, ?_, ?_, ?_⟩
  · intro hvw l hl
    rw [compile_of_supported hv, bind_eq_ok] at hl
    obtain ⟨lines, hlines, hl⟩ := hl
    rw [compile_of_supported hw, bind_eq_ok]
    exact ⟨lines, hlines, Listing.ofLines_mono hvw hl⟩
  · intro node expected found h
    exact compile_error_of_tree hv hw nofun h
  · intro node h
    exact compile_error_of_tree hv hw nofun h
  · intro node op required available h hr
    rcases (compile_eq_error hv).1 h with htree | ⟨lines, hlines, ho⟩
    · exact ⟨_, _, _, _, (compile_eq_error hw).2 (.inl htree)⟩
    · obtain ⟨i, origin, hi, -, he⟩ := Listing.ofLines_error ho
      cases he
      obtain ⟨node', op', required', -, hw'⟩ := Listing.ofLines_of_mem hi hr
      exact ⟨_, _, _, _, (compile_eq_error hw).2 (.inr ⟨lines, hlines, hw'⟩)⟩

/-- A log needs version 5: version 4 is refused and so is version 2, and what version 5 gives version
8 gives as well. -/
theorem compile_across_versions_log :
    (∃ l, (Expr.seq [.log (.bytes []), .approve]).compile 5 "approval" = .ok l ∧
      (Expr.seq [.log (.bytes []), .approve]).compile 8 "approval" = .ok ⟨8, l.lines⟩) ∧
    ∃ node op required available,
      (Expr.seq [.log (.bytes []), .approve]).compile 2 "approval" =
        .error (.unsupportedAtVersion node op required available) := by
  constructor
  · have h : (Expr.seq [.log (.bytes []), .approve]).compile 5 "approval" =
        .ok ⟨5, [.op (.bytes []), .op (.plain .log), .op (.int 1), .op (.plain .ret)]⟩ := by rfl
    have hmono := (compile_across_versions (w := 8) (by decide) (by decide)).1 (by decide) _ h
    exact ⟨_, h, hmono⟩
  · have h : (Expr.seq [.log (.bytes []), .approve]).compile 4 "approval" =
        .error (.unsupportedAtVersion "approval / 0:log" "log" 5 4) := by decide +kernel
    exact (compile_across_versions (by decide) (by decide)).2.2.2 _ _ _ _ h (by decide)

end Expr

end ContractBench
