import ContractBench.Assembly.Assemble
import ContractBench.Proofs.Assembly.Line
import ContractBench.Success
/-!
# Assembling what was printed

A listing of a supported version whose lines fit it, with every label once, is read back from its
text, and linking it puts the number of instructions in front of a label for each jump to it:

    Listing.ofText l.text = .ok l                                          (ofText_text)
    assemble l.text = .ok l.linked                                         (assemble_text)
-/

namespace ContractBench

open Source Text

namespace Listing

/-! ## Algorithm -/

/-- The labels of the lines, in order. -/
def labels (lines : List Line) : List String :=
  lines.filterMap fun
    | .op _ => none
    | .label name => some name

/-- The number of instructions in front of a label. -/
def position (name : String) : List Line → Nat
  | [] => 0
  | .op _ :: rest => position name rest + 1
  | .label name' :: rest => if name' = name then 0 else position name rest

/-- An instruction that jumps to a position instead of a label. -/
def resolve (lines : List Line) (i : Instruction) : Instruction :=
  match i.imm with
  | .label name => { i with imm := .target (position name lines) }
  | _ => i

/-- The executable of a listing whose jumps all have their labels. -/
def linked (l : Listing) : Executable :=
  ⟨l.version, (instructions l.lines).map (resolve l.lines)⟩

/-- A listing that can be read back from its text. -/
structure Readable (l : Listing) : Prop where
  supported : isSupported l.version = true
  fits : ∀ line ∈ l.lines, line.Fits l.version
  nodup : (labels l.lines).Nodup

/-- Every jump of a listing has its label. -/
def Closed (l : Listing) : Prop :=
  ∀ i ∈ instructions l.lines, ∀ name, i.imm = .label name → name ∈ labels l.lines

/-! ## Lemmas -/

/-! ### Text -/

theorem toList_text (l : Listing) :
    l.text.toList =
      ((pragma l.version).toList :: l.lines.map fun x => x.text.toList).flatMap (· ++ ['\n']) := by
  rw [text, String.toList_join]
  simp [List.flatMap_map]

theorem toList_pragma (v : UInt8) :
    (pragma v).toList =
      "#pragma".toList ++ ' ' :: ("version".toList ++ ' ' :: (toString v).toList) := by
  have happ : ∀ a b d : List Char,
      (a ++ ' ' :: (b ++ [' '])) ++ d = a ++ ' ' :: (b ++ ' ' :: d) := by simp
  exact String.toList_append.trans (happ "#pragma".toList "version".toList _)

theorem token_version (v : UInt8) : Token (toString v).toList := by
  have hv : (toString v).toList = Nat.toDigits 10 v.toNat := toList_toString v.toNat
  rw [hv]
  exact token_digits v.toNat

theorem token_words (v : UInt8) : Token ("version".toList ++ ' ' :: (toString v).toList) :=
  (token_version v).behind (by decide) (forall_mem_of_all (by decide))

theorem token_pragma (v : UInt8) : Token (pragma v).toList := by
  rw [toList_pragma]
  exact (token_words v).behind (by decide) (forall_mem_of_all (by decide))

theorem trim_blank_cons {cs : List Char} (h : Token cs) : trim (' ' :: cs) = cs := by
  have hd : (' ' :: cs).dropWhile isBlank = cs.dropWhile isBlank := rfl
  have ht := trim_of_ends h.head h.last
  rw [trim] at ht ⊢
  rw [hd, ht]

theorem readPragma_pragma {v : UInt8} (h : isSupported v = true) :
    readPragma (pragma v).toList = .ok v := by
  have h1 : dropStart? "#pragma".toList (pragma v).toList =
      some (' ' :: ("version".toList ++ ' ' :: (toString v).toList)) := by
    rw [toList_pragma]
    exact dropStart?_append _ _
  have h2 : dropStart? "version".toList ("version".toList ++ ' ' :: (toString v).toList) =
      some (' ' :: (toString v).toList) := dropStart?_append _ _
  simp only [readPragma, h1, Option.bind_some, trim_blank_cons (token_words v), h2,
    trim_blank_cons (token_version v), byte?_toString, Option.filter_some, h, if_true]

/-! ### Lines -/

theorem readLines_text {version : UInt8} {lines : List Line} {defined : List String}
    (h : ∀ x ∈ lines, x.Fits version) (hn : (labels lines).Nodup)
    (hd : ∀ name ∈ labels lines, name ∉ defined) (n : Nat) :
    readLines version defined (numbered n (lines.map fun x => x.text.toList)) = .ok lines := by
  induction lines generalizing defined n with
  | nil => rfl
  | cons x rest ih =>
    rw [List.forall_mem_cons] at h
    rw [List.map_cons, numbered_cons (plain_line h.1), readLines, readLine_text h.1]
    cases x with
    | op i =>
      have hr := ih h.2 hn hd (n + 1)
      simp only [bind, Except.bind, hr]
      rfl
    | label name =>
      have hn : name ∉ labels rest ∧ (labels rest).Nodup := List.nodup_cons.1 hn
      have hc : defined.contains name = false := by
        simpa using hd name List.mem_cons_self
      have hdr : ∀ m ∈ labels rest, m ∉ name :: defined := by
        intro m hm
        rw [List.mem_cons, not_or]
        exact ⟨fun e => hn.1 (e ▸ hm), hd m (List.mem_cons_of_mem _ hm)⟩
      have hr := ih h.2 hn.2 hdr (n + 1)
      simp only [bind, Except.bind, hc, hr]
      rfl

theorem contentLines_text {l : Listing} (h : l.Readable) :
    contentLines l.text =
      (1, (pragma l.version).toList) :: numbered 2 (l.lines.map fun x => x.text.toList) := by
  have hlines : Text.lines l.text.toList =
      (pragma l.version).toList :: l.lines.map fun x => x.text.toList := by
    rw [toList_text]
    refine lines_flatMap fun cs hcs => ?_
    have hp : Plain cs := by
      rcases List.mem_cons.1 hcs with rfl | hcs
      · exact (token_pragma l.version).toPlain
      · obtain ⟨x, hx, rfl⟩ := List.mem_map.1 hcs
        exact plain_line (h.fits x hx)
    exact ⟨hp.noLineFeed, hp.noReturn⟩
  rw [contentLines, hlines, numbered_cons (token_pragma l.version).toPlain]

theorem ofText_text {l : Listing} (h : l.Readable) : Listing.ofText l.text = .ok l := by
  simp only [ofText, contentLines_text h, readPragma_pragma h.supported, bind, Except.bind,
    readLines_text h.fits h.nodup (fun _ _ => List.not_mem_nil) 2]
  rfl

/-! ### Linking -/

theorem lookup_targets {lines : List Line} {name : String} (h : name ∈ labels lines) (i : Nat) :
    (targets i lines).lookup name = some (i + position name lines) := by
  induction lines generalizing i with
  | nil => cases h
  | cons x rest ih =>
    cases x with
    | op _ =>
      rw [targets, position, ih h]
      congr 1
      omega
    | label name' =>
      rw [targets, position]
      by_cases he : name' = name
      · simp [he]
      · have hm : name ∈ labels rest := (List.mem_cons.1 h).resolve_left (Ne.symm he)
        have hb : (name == name') = false := by simpa using Ne.symm he
        rw [List.lookup_cons, hb, if_neg he]
        exact ih hm i

theorem link_of_closed {l : Listing} (h : l.Closed) : l.link = .ok l.linked := by
  have hall : (instructions l.lines).mapM (Instruction.link (targets 0 l.lines)) =
      .ok ((instructions l.lines).map (resolve l.lines)) := by
    refine Success.mapM_eq_ok fun i hi => ?_
    unfold Instruction.link resolve
    cases himm : i.imm with
    | label name =>
      have hl := lookup_targets (h i hi name himm) 0
      rw [Nat.zero_add] at hl
      simp only [hl]
    | _ => rfl
  simp only [link, hall]
  rfl

/-- A readable listing whose jumps all have their labels is assembled from its text. -/
theorem assemble_text {l : Listing} (h : l.Readable) (hc : l.Closed) :
    assemble l.text = .ok l.linked := by
  simp only [assemble, ofText_text h, bind, Except.bind, link_of_closed hc]

end Listing

end ContractBench
