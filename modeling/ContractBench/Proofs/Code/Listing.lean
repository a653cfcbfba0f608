import ContractBench.Proofs.Assembly.Assemble
import ContractBench.Proofs.Code.Compile
/-!
# The listing of a tree

Every instruction that lowering makes has an immediate of the kind of its opcode, and only jumps
have labels (`Item.Fits`). So the listing a tree compiles to is read back from its text, and all
its jumps have their labels:

    root.compile v name = .ok l → assemble l.text = .ok l.linked          (assemble_of_compile)
-/

namespace ContractBench

open Source

/-! ## Items -/

namespace Item

/-- An item that lowering makes: the immediate is of the kind of the opcode, a label only in a
jump. -/
def Fits : Item → Prop
  | .op i _ => i.op.immediateKind ≠ .label ∧ i.op.immediateKind.Takes i.imm
  | .jump opcode _ _ => opcode.immediateKind = .label
  | .mark _ _ => True

/-- All items of a piece of code fit. -/
def AllFit (items : List Item) : Prop := ∀ item ∈ items, item.Fits

variable {p : NodePath} {xs ys : List Item}

@[simp] theorem allFit_nil : AllFit [] := fun _ h => nomatch h

@[simp] theorem allFit_append : AllFit (xs ++ ys) ↔ AllFit xs ∧ AllFit ys :=
  List.forall_mem_append

@[simp] theorem allFit_cons {x : Item} : AllFit (x :: xs) ↔ x.Fits ∧ AllFit xs :=
  List.forall_mem_cons

@[simp] theorem fits_plain {opcode : Opcode} :
    (Item.op (.plain opcode) p).Fits ↔ opcode.immediateKind = .absent := by
  constructor
  · rintro ⟨-, h⟩
    have h : opcode.immediateKind.Takes .absent := h
    generalize opcode.immediateKind = k at h
    cases h
    rfl
  · intro h
    show opcode.immediateKind ≠ _ ∧ opcode.immediateKind.Takes .absent
    rw [h]
    exact ⟨by decide, .absent⟩

@[simp] theorem fits_int {n : UInt64} : (Item.op (.int n) p).Fits :=
  ⟨fun h => (nomatch h), .uint n⟩

@[simp] theorem fits_named {c : NamedConst} : (Item.op (.named c) p).Fits :=
  ⟨fun h => (nomatch h), .named c⟩

@[simp] theorem fits_bytes {b : Bytes} : (Item.op (.bytes b) p).Fits :=
  ⟨fun h => (nomatch h), .bytes b⟩

@[simp] theorem fits_txn {f : TxnField} : (Item.op ⟨.txn, .txn f⟩ p).Fits :=
  ⟨fun h => (nomatch h), .txn f⟩

@[simp] theorem fits_gtxn {n : UInt8} {f : TxnField} : (Item.op ⟨.gtxn, .gtxn n f⟩ p).Fits :=
  ⟨fun h => (nomatch h), .gtxn n f⟩

@[simp] theorem fits_global {f : GlobalField} : (Item.op ⟨.global, .global f⟩ p).Fits :=
  ⟨fun h => (nomatch h), .global f⟩

@[simp] theorem fits_jump {opcode : Opcode} {l : Label} :
    (Item.jump opcode l p).Fits ↔ opcode.immediateKind = .label := Iff.rfl

@[simp] theorem fits_mark {l : Label} : (Item.mark l p).Fits := trivial

end Item

namespace Expr

open Item

/-! ## The code of a tree -/

/-- All items of a tree's code fit. -/
def CodeFits (e : Expr) : Prop := ∀ p, AllFit (e.lower p)

theorem allFit_lowerRead (p : NodePath) (key : Bytes) (type : ValueType) (get getEx : Opcode)
    (hg : get.immediateKind = .absent) (hx : getEx.immediateKind = .absent) :
    AllFit (lowerRead p key type get getEx) := by
  have hpop : Opcode.immediateKind .pop = .absent := rfl
  have hbnz : Opcode.immediateKind .bnz = .label := rfl
  cases type <;> simp [lowerRead, hg, hx, hpop, hbnz]

theorem allFit_lowerItems {items : List Expr} (h : ∀ e ∈ items, CodeFits e) (p : NodePath)
    (i : Nat) : AllFit (lowerItems p i items) := by
  have hpop : Opcode.immediateKind .pop = .absent := rfl
  induction items generalizing i with
  | nil => simp [lowerItems]
  | cons e rest ih =>
    rw [List.forall_mem_cons] at h
    cases he : e.terminates with
    | true =>
      rw [lowerItems_of_terminates he]
      exact h.1 _
    | false =>
      have hd : AllFit (dropValue p e rest) := by
        unfold dropValue
        split <;> simp [hpop]
      rw [lowerItems_of_goes_on he]
      simp [h.1 _, hd, ih h.2 (i + 1)]

theorem allFit_lowerTests {arms : List (Expr × Expr)} (h : ∀ arm ∈ arms, CodeFits arm.1)
    (p : NodePath) (i : Nat) : AllFit (lowerTests p i arms) := by
  have hbnz : Opcode.immediateKind .bnz = .label := rfl
  induction arms generalizing i with
  | nil => simp [lowerTests]
  | cons arm rest ih =>
    rw [List.forall_mem_cons] at h
    rw [lowerTests]
    simp [h.1 _, hbnz, ih h.2 (i + 1)]

theorem allFit_lowerBodies {arms : List (Expr × Expr)} (h : ∀ arm ∈ arms, CodeFits arm.2)
    (p : NodePath) (i : Nat) : AllFit (lowerBodies p i arms) := by
  have hjump : Opcode.immediateKind .jump = .label := rfl
  induction arms generalizing i with
  | nil => simp [lowerBodies]
  | cons arm rest ih =>
    rw [List.forall_mem_cons] at h
    rw [lowerBodies]
    have hend : AllFit (if arm.2.terminates then [] else [.jump .jump (.done p.roles) p]) := by
      split <;> simp [hjump]
    simp [h.1 _, hend, ih h.2 (i + 1)]

theorem codeFits_of_built {e : Expr} (h : Built e) : CodeFits e := by
  intro p
  induction h generalizing p with
  | int | bytes | named | global => simp [lower]
  | txn source => cases source <;> simp [lower]
  | verdict => simp [lower, Opcode.immediateKind]
  | unary _ _ ih => simp [lower, ih _, Opcode.immediateKind]
  | binary _ _ _ ihl ihr => simp [lower, ihl _, ihr _, Opcode.immediateKind]
  | globalGet key type => exact allFit_lowerRead p key type _ _ rfl rfl
  | @localGet account key type _ _ ih =>
    simp [lower, ih _, allFit_lowerRead p key type .appLocalGet .appLocalGetEx rfl rfl]
  | globalPut _ _ ih => simp [lower, ih _, Opcode.immediateKind]
  | localPut _ _ _ iha ihv => simp [lower, iha _, ihv _, Opcode.immediateKind]
  | log _ _ ih => simp [lower, ih _, Opcode.immediateKind]
  | seq _ ih => exact allFit_lowerItems ih p 0
  | @cond arms _ _ _ iht ihb =>
    have hend : AllFit (if bodiesTerminate arms then [] else [.mark (.done p.roles) p]) := by
      split <;> simp
    simp [lower, allFit_lowerTests iht p 0, allFit_lowerBodies ihb p 0, hend, Opcode.immediateKind]

end Expr

/-! ## Lines -/

namespace Item

/-- The lines of a piece of code, given all marks. -/
abbrev linesOf (marks : List Label) (items : List Item) : List Line :=
  items.map (namedLine marks)

theorem labels_linesOf (all : List Label) (items : List Item) :
    Listing.labels (linesOf all items) = (marks items).map (nameIn all) := by
  induction items with
  | nil => rfl
  | cons item rest ih =>
    cases item with
    | op | jump => exact ih
    | mark l p => exact congrArg (nameIn all l :: ·) ih

theorem nodup_labels {items : List Item} (h : (marks items).Nodup) :
    (Listing.labels (linesOf (marks items) items)).Nodup := by
  rw [labels_linesOf]
  refine List.pairwise_map.2 (h.imp_of_mem fun hl hl' hne he => ?_)
  exact hne (nameIn_inj hl hl' he)

theorem labelText_labelName (n : Nat) : LabelText (labelName n) := by
  have hc : ∀ c ∈ (labelName n).toList, c ∈ "main_l".toList ∨ c.isDigit := by
    intro c hc
    rw [labelName, String.toList_append, List.mem_append] at hc
    refine hc.imp id fun hd => ?_
    rw [Text.toList_toString] at hd
    exact Text.isDigit_of_mem_toDigits hd
  have hw : ∀ c ∈ "main_l".toList, Text.isBlank c = false ∧ c ≠ ':' ∧ c ≠ '/' :=
    Text.forall_mem_of_all (by decide)
  have hall : ∀ c ∈ (labelName n).toList, Text.isBlank c = false ∧ c ≠ ':' ∧ c ≠ '/' := by
    intro c hm
    rcases hc c hm with hm | hd
    · exact hw c hm
    · exact ⟨Text.isBlank_of_isDigit hd, ne_of_isDigit hd (by decide), ne_of_isDigit hd (by decide)⟩
  refine ⟨?_, fun c hm => ⟨(hall c hm).1, (hall c hm).2.1⟩,
    Token.not_slashes_of_not_mem fun hm => (hall '/' hm).2.2 rfl⟩
  intro he
  have := congrArg String.length he
  rw [labelName, String.length_append] at this
  have h6 : "main_l".length = 6 := by decide
  simp [h6] at this

theorem fits_namedLine {v : UInt8} {item : Item} (h : item.Fits) (hv : item.minVersion ≤ v)
    (all : List Label) : (item.namedLine all).Fits v := by
  cases item with
  | op i p => exact ⟨h.2, hv⟩
  | jump opcode l p =>
    have hk : opcode.immediateKind = .label := h
    refine ⟨?_, ?_⟩
    · show opcode.immediateKind.Takes _
      rw [hk]
      exact .label (labelText_labelName _)
    · rw [Instruction.minVersion_label]
      exact hv
  | mark l p => exact labelText_labelName _

end Item

namespace Expr

open Item

theorem lines_listing (root : Expr) (v : UInt8) (name : String) :
    (root.listing v name).lines =
      linesOf (marks (root.lower (.root name))) (root.lower (.root name)) := by
  simp [listing, namedCode, namedLines]

/-- The listing of a tree is read back from its text. -/
theorem readable_listing {root : Expr} (h : Built root) {v : UInt8} (name : String)
    (hs : isSupported v = true) (hk : ∀ n, Reached n root → n.requires ≤ v) :
    (root.listing v name).Readable where
  supported := hs
  fits := by
    have hv := (codeKnown_of_built h ((isSupported_iff v).1 hs).1 (.root name)).2 hk
    rw [lines_listing]
    intro line hl
    obtain ⟨item, hi, rfl⟩ := List.mem_map.1 hl
    exact fits_namedLine (codeFits_of_built h _ item hi) (hv item hi) _
  nodup := by
    rw [lines_listing]
    exact nodup_labels (labelled_lower h _).nodup

theorem closed_listing {root : Expr} (h : Built root) (v : UInt8) (name : String) :
    (root.listing v name).Closed := by
  intro i hi label himm
  rw [lines_listing] at hi ⊢
  obtain ⟨line, hl, he⟩ := List.mem_filterMap.1 hi
  obtain ⟨item, hitem, rfl⟩ := List.mem_map.1 hl
  cases item with
  | mark l p => cases he
  | op i' p =>
    cases he
    obtain ⟨hne, ht⟩ := codeFits_of_built h _ _ hitem
    rw [himm] at ht
    generalize i.op.immediateKind = k at ht hne
    cases ht
    exact absurd rfl hne
  | jump opcode l p =>
    cases he
    cases himm
    have hm : l ∈ marks (root.lower (.root name)) :=
      (labelled_lower h _).forward.mem_marks (List.mem_filterMap.2 ⟨_, hitem, rfl⟩)
    rw [labels_linesOf]
    exact List.mem_map_of_mem hm

/-- What a tree compiles to is assembled from its text. -/
theorem assemble_of_compile {root : Expr} (h : Built root) {v : UInt8} {name : String}
    {l : Listing} (hc : root.compile v name = .ok l) :
    l = root.listing v name ∧ assemble l.text = .ok l.linked := by
  obtain ⟨hs, -, -, hk, rfl⟩ := (compile_eq_ok_iff h).1 hc
  exact ⟨rfl, Listing.assemble_text (readable_listing h name hs hk) (closed_listing h v name)⟩

end Expr

end ContractBench
