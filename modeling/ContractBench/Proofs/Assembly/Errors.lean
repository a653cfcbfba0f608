import ContractBench.Proofs.Assembly.Assemble
import ContractBench.Proofs.Assembly.FirstLines
import Mathlib.Data.List.Forall2
/-!
# Errors of the assembler

An error with a line number blames one line (`AssemblyError.line?`), and reading a line blames no other.
Lines are read in order, so the first that cannot be read is blamed whatever follows it, and a label
is asked for only once all lines are read (`Source.Spells`) and no label is defined twice:

    readLine version n cs = .error e → e.line? = some n                             (blames_readLine)
    readLines version defined xs = .error e → ∃ before x after, xs = before ++ x :: after ∧
      (∃ ls, readLines version defined before = .ok ls) ∧
      ∀ after', readLines version defined (before ++ x :: after') = .error e       (readLines_error)
    Listing.ofText s = .ok l ↔ Spells s l ∧ (labels l.lines).Nodup                   (ofText_eq_ok)
    l.link = .error e ↔ ∃ name, e = .undefinedLabel name ∧ l.FirstUndefined name     (link_eq_error)
-/

namespace ContractBench

open Success

/-! ## Algorithm -/

/-- The number of the line an error blames. -/
def AssemblyError.line? : AssemblyError → Option Nat
  | .unknownInstruction line _ | .invalidArgument line _ | .invalidNumber line _
  | .unknownField line _ | .notAvailable line _ _ => some line
  | .missingPragma | .unsupportedVersion _ | .undefinedLabel _ | .duplicateLabel _ => none

namespace Source

/-- Work on a line blames that line if it fails. -/
def Blames {α : Type} (n : Nat) (x : Except AssemblyError α) : Prop :=
  ∀ e, x = .error e → e.line? = some n

/-- A text is a listing line by line: the first line that counts declares the version, and each of
the others is read as a line of the listing. -/
def Spells (source : String) (l : Listing) : Prop :=
  ∃ first rest, contentLines source = first :: rest ∧ readPragma first.2 = .ok l.version ∧
    List.Forall₂ (fun x line => readLine l.version x.1 x.2 = .ok line) rest l.lines

end Source

/-- A line that defines no label again. -/
def Line.New (defined : List String) : Line → Prop
  | .op _ => True
  | .label name => name ∉ defined

/-- The labels that are defined behind a line. -/
def Line.definedBehind (defined : List String) : Line → List String
  | .op _ => defined
  | .label name => name :: defined

/-- The labels of lines are different ones, and none is defined before. -/
def Listing.Fresh (defined : List String) (lines : List Line) : Prop :=
  (labels lines).Nodup ∧ ∀ name ∈ labels lines, name ∉ defined

/-- The first jump of a listing that has no label, by the name it asks for. -/
def Listing.FirstUndefined (l : Listing) (name : String) : Prop :=
  ∃ before i after, instructions l.lines = before ++ i :: after ∧
    i.imm = .label name ∧ name ∉ labels l.lines ∧
      ∀ j ∈ before, ∀ m, j.imm = .label m → m ∈ labels l.lines

namespace Source

/-! ## Lemmas -/

/-! ### The line that is blamed -/

namespace Blames

variable {α β : Type} {n : Nat}

theorem ok {a : α} : Blames n (.ok a) := by
  intro e he
  cases he

theorem error {e : AssemblyError} (h : e.line? = some n) : Blames (α := α) n (.error e) := by
  rintro _ ⟨⟩
  exact h

theorem bind {x : Except AssemblyError α} {f : α → Except AssemblyError β} (hx : Blames n x)
    (hf : ∀ a, Blames n (f a)) : Blames n (x >>= f) := by
  intro e he
  rcases bind_eq_error.1 he with he | ⟨a, -, he⟩
  · exact hx e he
  · exact hf a e he

end Blames

variable (n : Nat)

theorem blames_readUint (cs : List Char) : Blames n (readUint n cs) := by
  unfold readUint
  split
  · exact .ok
  · dsimp only
    split
    · exact .ok
    · exact .error rfl

theorem blames_readBytes (cs : List Char) : Blames n (readBytes n cs) := by
  unfold readBytes
  dsimp only
  split
  · exact .ok
  · exact .error rfl

theorem blames_readTxnField (cs : List Char) : Blames n (readTxnField n cs) := by
  unfold readTxnField
  split
  · exact .ok
  · exact .error rfl

theorem blames_readGlobalField (cs : List Char) : Blames n (readGlobalField n cs) := by
  unfold readGlobalField
  split
  · exact .ok
  · exact .error rfl

theorem blames_readGroupField (line cs : List Char) : Blames n (readGroupField n line cs) := by
  unfold readGroupField
  split
  · exact .error rfl
  · split
    · exact .error rfl
    · exact (blames_readTxnField n _).bind fun _ => .ok

theorem blames_readLabel (mnemonic : String) (cs : List Char) :
    Blames n (readLabel n mnemonic cs) := by
  unfold readLabel
  split
  · exact .error rfl
  · exact .ok

theorem blames_readImmediate (line : List Char) (op : Opcode) (cs : List Char) :
    Blames n (readImmediate n line op cs) := by
  unfold readImmediate
  cases op.immediateKind with
  | absent =>
    dsimp only
    split
    · exact .ok
    · exact .error rfl
  | uint => exact blames_readUint n cs
  | bytes => exact (blames_readBytes n cs).bind fun _ => .ok
  | txnField => exact (blames_readTxnField n cs).bind fun _ => .ok
  | groupField => exact blames_readGroupField n line cs
  | globalField => exact (blames_readGlobalField n cs).bind fun _ => .ok
  | label => exact blames_readLabel n op.name cs

variable (version : UInt8)

theorem blames_readInstruction (line : List Char) :
    Blames n (readInstruction version n line) := by
  unfold readInstruction
  dsimp only
  split
  · exact .error rfl
  · refine (blames_readImmediate n line _ _).bind fun imm => ?_
    split
    · exact .error rfl
    · exact .ok

theorem blames_readLine (line : List Char) : Blames n (readLine version n line) := by
  unfold readLine
  split
  · split
    · exact .error rfl
    · exact .ok
  · exact (blames_readInstruction n version line).bind fun _ => .ok

/-! ### Line by line -/

variable {version : UInt8} {defined : List String} {x : Nat × List Char} {line : Line}

theorem readLines_cons_error {e : AssemblyError} (hx : readLine version x.1 x.2 = .error e)
    (rest : List (Nat × List Char)) : readLines version defined (x :: rest) = .error e := by
  simp only [readLines, hx, bind, Except.bind]

/-- Behind a new line that is read the others are read. -/
theorem readLines_cons_of_new (hx : readLine version x.1 x.2 = .ok line) (hn : line.New defined)
    (rest : List (Nat × List Char)) :
    readLines version defined (x :: rest) =
      readLines version (line.definedBehind defined) rest >>= fun ls => .ok (line :: ls) := by
  cases line with
  | op i =>
    simp only [readLines, hx, bind, Except.bind]
    rfl
  | label name =>
    have hd : name ∉ defined := hn
    have hc : defined.contains name = false := by simpa using hd
    simp only [readLines, hx, bind, Except.bind, hc]
    rfl

theorem readLines_cons_of_not_new (hx : readLine version x.1 x.2 = .ok line)
    (hn : ¬ line.New defined) :
    ∃ name, line = .label name ∧
      ∀ rest, readLines version defined (x :: rest) = .error (.duplicateLabel name) := by
  cases line with
  | op i => exact absurd trivial hn
  | label name =>
    have hd : name ∈ defined := not_not.1 hn
    have hc : defined.contains name = true := by simpa using hd
    refine ⟨name, rfl, fun rest => ?_⟩
    simp only [readLines, hx, bind, Except.bind, hc, if_true]
    rfl

/-- Lines that cannot be read are refused at the first one, whatever follows it: it cannot be read, or
its label is defined before. -/
theorem readLines_error {xs : List (Nat × List Char)} {e : AssemblyError}
    (h : readLines version defined xs = .error e) :
    ∃ before x after, xs = before ++ x :: after ∧
      (∃ ls, readLines version defined before = .ok ls) ∧
      (∀ after', readLines version defined (before ++ x :: after') = .error e) ∧
      (readLine version x.1 x.2 = .error e ∨ ∃ name, e = .duplicateLabel name) := by
  induction xs generalizing defined with
  | nil => cases h
  | cons x rest ih =>
    cases hx : readLine version x.1 x.2 with
    | error e' =>
      rw [readLines_cons_error hx] at h
      cases h
      exact ⟨[], x, rest, rfl, ⟨[], rfl⟩, readLines_cons_error hx, .inl hx⟩
    | ok line =>
      by_cases hn : line.New defined
      · rw [readLines_cons_of_new hx hn, bind_eq_error] at h
        obtain ⟨before, y, after, rfl, ⟨ls, hls⟩, hafter, hy⟩ := ih (h.resolve_right (by simp))
        refine ⟨x :: before, y, after, rfl, ⟨line :: ls, ?_⟩, fun after' => ?_, hy⟩
        · rw [readLines_cons_of_new hx hn, hls]
          rfl
        · rw [List.cons_append, readLines_cons_of_new hx hn, hafter]
          rfl
      · obtain ⟨name, -, he⟩ := readLines_cons_of_not_new hx hn
        rw [he] at h
        cases h
        exact ⟨[], x, rest, rfl, ⟨[], rfl⟩, he, .inr ⟨name, rfl⟩⟩

theorem fresh_cons {ls : List Line} :
    Listing.Fresh defined (line :: ls) ↔
      line.New defined ∧ Listing.Fresh (line.definedBehind defined) ls := by
  cases line with
  | op i => exact (and_iff_right trivial).symm
  | label name =>
    show (name :: Listing.labels ls).Nodup ∧ (∀ m ∈ name :: Listing.labels ls, m ∉ defined) ↔
      name ∉ defined ∧ (Listing.labels ls).Nodup ∧ ∀ m ∈ Listing.labels ls, m ∉ name :: defined
    rw [List.nodup_cons, List.forall_mem_cons]
    constructor
    · rintro ⟨⟨hname, hn⟩, hd, hnew⟩
      refine ⟨hd, hn, fun m hm hmd => ?_⟩
      rcases List.mem_cons.1 hmd with rfl | hmd
      · exact hname hm
      · exact hnew m hm hmd
    · rintro ⟨hd, hn, hnew⟩
      exact ⟨⟨fun hm => hnew name hm List.mem_cons_self, hn⟩, hd,
        fun m hm hmd => hnew m hm (List.mem_cons_of_mem _ hmd)⟩

/-- Lines are read if each of them is and every label is new. -/
theorem readLines_eq_ok {xs : List (Nat × List Char)} {ls : List Line} :
    readLines version defined xs = .ok ls ↔
      List.Forall₂ (fun x line => readLine version x.1 x.2 = .ok line) xs ls ∧
        Listing.Fresh defined ls := by
  induction xs generalizing defined ls with
  | nil =>
    constructor
    · rintro ⟨⟩
      exact ⟨.nil, List.nodup_nil, nofun⟩
    · rintro ⟨⟨⟩, -⟩
      rfl
  | cons x rest ih =>
    constructor
    · intro h
      cases hx : readLine version x.1 x.2 with
      | error e =>
        rw [readLines_cons_error hx] at h
        cases h
      | ok line =>
        by_cases hn : line.New defined
        · rw [readLines_cons_of_new hx hn, bind_eq_ok] at h
          obtain ⟨ls, hls, ⟨⟩⟩ := h
          obtain ⟨hall, hf⟩ := ih.1 hls
          exact ⟨.cons hx hall, fresh_cons.2 ⟨hn, hf⟩⟩
        · obtain ⟨name, -, he⟩ := readLines_cons_of_not_new hx hn
          rw [he] at h
          cases h
    · rintro ⟨hall, hf⟩
      cases hall with
      | cons hx hall =>
        obtain ⟨hn, hf⟩ := fresh_cons.1 hf
        rw [readLines_cons_of_new hx hn, ih.2 ⟨hall, hf⟩]
        rfl

end Source

/-! ### Texts -/

namespace Listing

open Source

/-- A text is read as a listing if it spells it and defines no label twice. -/
theorem ofText_eq_ok {source : String} {l : Listing} :
    ofText source = .ok l ↔ Spells source l ∧ (labels l.lines).Nodup := by
  unfold ofText Spells
  cases contentLines source with
  | nil =>
    refine iff_of_false nofun ?_
    rintro ⟨⟨first, rest, ⟨⟩, -⟩, -⟩
  | cons x rest =>
    dsimp only
    rw [bind_eq_ok]
    constructor
    · rintro ⟨version, hv, hl⟩
      obtain ⟨ls, hls, hl⟩ := bind_eq_ok.1 hl
      cases hl
      obtain ⟨hall, hn, -⟩ := readLines_eq_ok.1 hls
      exact ⟨⟨x, rest, rfl, hv, hall⟩, hn⟩
    · rintro ⟨⟨first, rest', he, hv, hall⟩, hn⟩
      cases he
      exact ⟨l.version, hv, bind_eq_ok.2
        ⟨l.lines, readLines_eq_ok.2 ⟨hall, hn, fun _ _ => List.not_mem_nil⟩, rfl⟩⟩

/-! ### Jumps without a label -/

theorem map_fst_targets (i : Nat) (lines : List Line) :
    (targets i lines).map Prod.fst = labels lines := by
  induction lines generalizing i with
  | nil => rfl
  | cons line rest ih =>
    cases line with
    | op _ => exact ih (i + 1)
    | label name => exact congrArg (name :: ·) (ih i)

theorem lookup_targets_eq_none {i : Nat} {lines : List Line} {name : String} :
    (targets i lines).lookup name = none ↔ name ∉ labels lines := by
  rw [List.lookup_eq_none_iff, ← map_fst_targets i lines, List.mem_map]
  constructor
  · rintro h ⟨x, hx, rfl⟩
    simpa using h x hx
  · intro h x hx
    simpa using fun he : name = x.1 => h ⟨x, hx, he.symm⟩

end Listing

namespace Instruction

variable {targets : List (String × Nat)} {i : Instruction}

theorem link_eq_error {e : AssemblyError} :
    i.link targets = .error e ↔
      ∃ name, i.imm = .label name ∧ targets.lookup name = none ∧ e = .undefinedLabel name := by
  unfold link
  split
  · next name himm =>
    split
    · next t ht =>
      refine iff_of_false nofun ?_
      rintro ⟨name', himm', hn, -⟩
      cases himm.symm.trans himm'
      rw [ht] at hn
      cases hn
    · next hn =>
      constructor
      · rintro ⟨⟩
        exact ⟨name, himm, hn, rfl⟩
      · rintro ⟨name', himm', -, rfl⟩
        cases himm.symm.trans himm'
        rfl
  · next hno =>
    refine iff_of_false nofun ?_
    rintro ⟨name, himm, -⟩
    exact hno name himm

/-- A jump is linked if there is a target for its label, and so is every other instruction. -/
theorem exists_link_iff :
    (∃ j, i.link targets = .ok j) ↔ ∀ name, i.imm = .label name → targets.lookup name ≠ none := by
  cases hl : i.link targets with
  | ok j =>
    refine iff_of_true ⟨j, rfl⟩ fun name himm hn => ?_
    rw [link_eq_error.2 ⟨name, himm, hn, rfl⟩] at hl
    cases hl
  | error e =>
    obtain ⟨name, himm, hn, -⟩ := link_eq_error.1 hl
    refine iff_of_false ?_ fun h => h name himm hn
    rintro ⟨j, hj⟩
    cases hj

end Instruction

namespace Listing

/-- Linking fails at the first jump without a label, and for nothing else. -/
theorem link_eq_error {l : Listing} {e : AssemblyError} :
    l.link = .error e ↔ ∃ name, e = .undefinedLabel name ∧ l.FirstUndefined name := by
  have hmap : l.link = .error e ↔
      (instructions l.lines).mapM (Instruction.link (targets 0 l.lines)) = .error e := by
    unfold link
    rw [bind_eq_error]
    simp [pure, Except.pure]
  have hknown : ∀ before : List Instruction,
      (∀ j ∈ before, ∃ j', j.link (targets 0 l.lines) = .ok j') ↔
        ∀ j ∈ before, ∀ m, j.imm = .label m → m ∈ labels l.lines := by
    intro before
    simp only [Instruction.exists_link_iff, ne_eq, lookup_targets_eq_none, not_not]
  rw [hmap, mapM_eq_error]
  constructor
  · rintro ⟨before, i, after, he, hb, hi⟩
    obtain ⟨name, himm, hn, rfl⟩ := Instruction.link_eq_error.1 hi
    exact ⟨name, rfl, before, i, after, he, himm, lookup_targets_eq_none.1 hn, (hknown before).1 hb⟩
  · rintro ⟨name, rfl, before, i, after, he, himm, hn, hb⟩
    exact ⟨before, i, after, he, (hknown before).2 hb,
      Instruction.link_eq_error.2 ⟨name, himm, lookup_targets_eq_none.2 hn, rfl⟩⟩

end Listing

/-! ### Where reading a text stops -/

namespace Source

theorem readPragma_error {line : List Char} {e : AssemblyError} (h : readPragma line = .error e) :
    e = .missingPragma ∨ ∃ text, e = .unsupportedVersion text := by
  unfold readPragma at h
  split at h
  · cases h
    exact .inl rfl
  · dsimp only at h
    split at h <;> cases h
    exact .inr ⟨_, rfl⟩

variable {s t : String} {first : Nat × List Char} {version : UInt8}

/-- Behind a pragma a text is read line by line. -/
theorem ofText_of_pragma {rest : List (Nat × List Char)} (hc : contentLines s = first :: rest)
    (hv : readPragma first.2 = .ok version) :
    Listing.ofText s = readLines version [] rest >>= fun ls => .ok ⟨version, ls⟩ := by
  simp only [Listing.ofText, hc, hv, bind, Except.bind]
  rfl

/-- A text that is no listing lacks a version, or has a first line that is not read. -/
theorem exists_of_ofText_error {e : AssemblyError} (h : Listing.ofText s = .error e) :
    (e = .missingPragma ∨ ∃ text, e = .unsupportedVersion text) ∨
    ∃ first before x after version, contentLines s = first :: (before ++ x :: after) ∧
      readPragma first.2 = .ok version ∧ (∃ ls, readLines version [] before = .ok ls) ∧
      (∀ after', readLines version [] (before ++ x :: after') = .error e) ∧
      (readLine version x.1 x.2 = .error e ∨ ∃ name, e = .duplicateLabel name) := by
  cases hc : contentLines s with
  | nil =>
    simp only [Listing.ofText, hc] at h
    cases h
    exact .inl (.inl rfl)
  | cons first rest =>
    cases hv : readPragma first.2 with
    | error e' =>
      simp only [Listing.ofText, hc, hv, bind, Except.bind] at h
      cases h
      exact .inl (readPragma_error hv)
    | ok version =>
      rw [ofText_of_pragma hc hv, bind_eq_error] at h
      obtain ⟨before, x, after, rfl, hb, hafter, hx⟩ := readLines_error (h.resolve_right (by simp))
      exact .inr ⟨first, before, x, after, version, rfl, hv, hb, hafter, hx⟩

theorem ofText_ne_undefinedLabel (name : String) :
    Listing.ofText s ≠ .error (.undefinedLabel name) := by
  intro h
  rcases exists_of_ofText_error h with (he | ⟨_, he⟩) | ⟨_, _, x, _, version, _, _, _, _, hx⟩
  · cases he
  · cases he
  · rcases hx with hx | ⟨_, he⟩
    · cases blames_readLine x.1 version x.2 _ hx
    · cases he

/-- Where reading blames a line, the lines in front of it are a listing, and no line behind it
matters. -/
theorem exists_of_blamed {e : AssemblyError} {n : Nat} (h : Listing.ofText s = .error e)
    (hn : e.line? = some n) :
    ∃ xs l ys, Text.lines s.toList = xs ++ l :: ys ∧ n = xs.length + 1 ∧
      (∀ t ys', Text.lines (String.toList t) = xs ++ l :: ys' → Listing.ofText t = .error e) ∧
      ∀ t, Text.lines (String.toList t) = xs → ∃ l, Listing.ofText t = .ok l := by
  rcases exists_of_ofText_error h with (rfl | ⟨_, rfl⟩) |
    ⟨first, before, x, after, version, hc, hv, ⟨ls, hls⟩, hafter, hx⟩
  · cases hn
  · cases hn
  rcases hx with hx | ⟨_, rfl⟩
  case inr => cases hn
  obtain ⟨m, cs⟩ := x
  have hm : e.line? = some m := blames_readLine m version cs e hx
  obtain rfl : n = m := Option.some.inj (hn.symm.trans hm)
  have hnumbered : numbered 1 (Text.lines s.toList) = (first :: before) ++ (n, cs) :: after := hc
  obtain ⟨xs, l, ys, hlines, hlen, hxs, hl⟩ := exists_of_numbered_eq hnumbered
  refine ⟨xs, l, ys, hlines, by omega, fun t ys' ht => ?_, fun t ht => ?_⟩
  · have hct : contentLines t = first :: (before ++ (n, cs) :: numbered (n + 1) ys') := by
      rw [contentLines, ht, numbered_append, ← hlen, hxs, hl]
      rfl
    rw [ofText_of_pragma hct hv, hafter]
    rfl
  · have hct : contentLines t = first :: before := by rw [contentLines, ht, hxs]
    rw [ofText_of_pragma hct hv, hls]
    exact ⟨_, rfl⟩

end Source

/-! ### Whole texts -/

theorem ofText_of_line {s : String} {n : Nat} {e : AssemblyError} (h : assemble s = .error e)
    (hn : e.line? = some n) : Listing.ofText s = .error e := by
  rcases bind_eq_error.1 h with h | ⟨l, -, h⟩
  · exact h
  · obtain ⟨name, rfl, -⟩ := Listing.link_eq_error.1 h
    cases hn

/-- Whatever is a listing is assembled, or lacks a label. -/
theorem assemble_of_ofText {s : String} {l : Listing} (h : Listing.ofText s = .ok l) :
    (∃ program, assemble s = .ok program) ∨ ∃ name, assemble s = .error (.undefinedLabel name) := by
  unfold assemble
  rw [h]
  cases hlink : l.link with
  | ok program => exact .inl ⟨program, hlink⟩
  | error e =>
    obtain ⟨name, rfl, -⟩ := Listing.link_eq_error.1 hlink
    exact .inr ⟨name, hlink⟩

theorem assemble_eq_undefinedLabel {s name : String} :
    assemble s = .error (.undefinedLabel name) ↔
      ∃ l, Source.Spells s l ∧ (Listing.labels l.lines).Nodup ∧ l.FirstUndefined name := by
  unfold assemble
  rw [bind_eq_error]
  constructor
  · rintro (h | ⟨l, hl, h⟩)
    · exact absurd h (Source.ofText_ne_undefinedLabel name)
    · obtain ⟨hs, hn⟩ := Listing.ofText_eq_ok.1 hl
      obtain ⟨_, ⟨⟩, hf⟩ := Listing.link_eq_error.1 h
      exact ⟨l, hs, hn, hf⟩
  · rintro ⟨l, hs, hn, hf⟩
    exact .inr ⟨l, Listing.ofText_eq_ok.2 ⟨hs, hn⟩, Listing.link_eq_error.2 ⟨name, rfl, hf⟩⟩

/-! ## Top theorem -/

/-- An error with a line number blames a line of the text, comes up for every text that begins with the
same lines up to that one, and does not come up without that line: what is in front of it is assembled,
or lacks a label only. A label is missed only where every line is right and no label is defined twice,
and it is the one that the first jump without a label asks for. -/
theorem first_offending_line (s : String) :
    (∀ n e, assemble s = .error e → e.line? = some n →
      (1 ≤ n ∧ n ≤ (Text.lines s.toList).length) ∧
      (∀ t : String, (Text.lines t.toList).take n = (Text.lines s.toList).take n →
        assemble t = .error e) ∧
      ((∃ program, assemble (String.ofList (Text.firstLines (n - 1) s.toList)) = .ok program) ∨
        ∃ name, assemble (String.ofList (Text.firstLines (n - 1) s.toList)) =
          .error (.undefinedLabel name))) ∧
    ∀ name, assemble s = .error (.undefinedLabel name) ↔
      ∃ l, Source.Spells s l ∧ (Listing.labels l.lines).Nodup ∧ l.FirstUndefined name := by
  refine ⟨fun n e h hn => ?_, fun name => assemble_eq_undefinedLabel⟩
  obtain ⟨xs, l, ys, hlines, rfl, hsame, hcut⟩ := Source.exists_of_blamed (ofText_of_line h hn) hn
  have htake : (Text.lines s.toList).take (xs.length + 1) = xs ++ [l] := by
    rw [hlines, List.append_cons, List.take_left' (by simp)]
  refine ⟨⟨by omega, by rw [hlines]; simp⟩, fun t ht => ?_, ?_⟩
  · have hrest := List.take_append_drop (xs.length + 1) (Text.lines t.toList)
    rw [ht, htake, List.append_assoc, List.singleton_append] at hrest
    exact bind_eq_error.2 (.inl (hsame t _ hrest.symm))
  · have hfirst : Text.lines (String.ofList (Text.firstLines xs.length s.toList)).toList = xs := by
      rw [String.toList_ofList, Text.lines_firstLines, hlines, List.take_left]
    obtain ⟨l', hl'⟩ := hcut _ hfirst
    rw [Nat.add_sub_cancel]
    exact assemble_of_ofText hl'

/-- Line 4 is blamed, comments and blank lines counted; without it the jump in line 3 lacks its label,
and with it no label behind it helps. -/
theorem first_offending_line_misspelt :
    assemble "// swap\n#pragma version 2\nb end\nintc 1\nend:\n" =
        .error (.unknownInstruction 4 "intc") ∧
      assemble "// swap\n#pragma version 2\nb end\nintc 1\nint x" =
        .error (.unknownInstruction 4 "intc") ∧
      ∃ l, Source.Spells "// swap\n#pragma version 2\nb end\n" l ∧ l.FirstUndefined "end" := by
  have h : assemble "// swap\n#pragma version 2\nb end\nintc 1\nend:\n" =
      .error (.unknownInstruction 4 "intc") := by decide +kernel
  have hcut : assemble "// swap\n#pragma version 2\nb end\n" =
      .error (.undefinedLabel "end") := by decide +kernel
  obtain ⟨-, hsame, -⟩ := (first_offending_line _).1 4 _ h rfl
  obtain ⟨l, hs, -, hf⟩ := ((first_offending_line _).2 "end").1 hcut
  exact ⟨h, hsame _ (by decide +kernel), l, hs, hf⟩

end ContractBench
