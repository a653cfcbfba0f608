import ContractBench.Assembly.Line
import ContractBench.Proofs.Assembly.Source
import ContractBench.Proofs.Text.Number
/-!
# Immediates written and read

The text of an immediate is read back by the reader of its kind, and it is a token: text that can
end a line, since it stands as it is and does not end in a colon.

    readUint n (toString v).toList = .ok (.uint v)                      (readUint_toString)
    readBytes n b.readable.toList = .ok b                                (readBytes_readable)
    readGroupField n line (toString i ++ " " ++ f.name).toList = .ok (.gtxn i f)
                                                                         (readGroupField_text)
-/

namespace ContractBench

namespace Source

open Text

/-! ## Tokens -/

/-- Text that can stand at the end of an instruction. -/
structure Token (cs : List Char) : Prop extends Plain cs where
  noColon : cs.getLast? ≠ some ':'

namespace Token

variable {cs : List Char}

theorem of_no_blanks (hne : cs ≠ []) (hb : ∀ c ∈ cs, isBlank c = false ∧ c ≠ ':')
    (hs : ¬ ['/', '/'] <:+: cs) : Token cs where
  toPlain := .of_no_blanks hne (fun c hc => (hb c hc).1) hs
  noColon := fun hc => (hb ':' (List.mem_of_getLast? hc)).2 rfl

theorem not_slashes_of_not_mem (h : '/' ∉ cs) : ¬ ['/', '/'] <:+: cs :=
  fun hi => h (hi.subset (by simp))

theorem of_all (hne : cs ≠ []) (h : cs.all (fun c => !isBlank c && c != ':' && c != '/') = true) :
    Token cs := by
  have hc : ∀ c ∈ cs, isBlank c = false ∧ c ≠ ':' ∧ c ≠ '/' := by
    intro c hm
    have := List.all_eq_true.1 h c hm
    simpa [and_assoc] using this
  exact .of_no_blanks hne (fun c hm => ⟨(hc c hm).1, (hc c hm).2.1⟩)
    (not_slashes_of_not_mem fun hm => (hc '/' hm).2.2 rfl)

theorem getLast?_behind (word : List Char) (h : cs ≠ []) :
    (word ++ ' ' :: cs).getLast? = cs.getLast? := by
  cases cs with
  | nil => exact absurd rfl h
  | cons c cs => simp [List.getLast?_append, List.getLast?_cons]

/-- A token behind a word and a blank. -/
theorem behind {word : List Char} (h : Token cs) (hne : word ≠ [])
    (hw : ∀ c ∈ word, isBlank c = false ∧ c ≠ '/' ∧ c ≠ '"') : Token (word ++ ' ' :: cs) where
  nonempty := by simp
  noLineFeed := by
    have hn : '\n' ∉ word := fun hm => by
      have := (hw '\n' hm).1
      revert this
      decide
    simp [hn, h.noLineFeed]
  noComment := by
    have hd : dropComment false (' ' :: cs) = ' ' :: dropComment false cs := by
      simp [dropComment]
    rw [dropComment_append (fun c hc => (hw c hc).2), hd, h.noComment]
  head := fun c hc => by
    cases word with
    | nil => exact absurd rfl hne
    | cons d ds => exact (hw c (by cases hc; exact List.mem_cons_self)).1
  last := fun c hc => h.last c (by rwa [getLast?_behind word h.nonempty] at hc)
  noColon := by
    rw [getLast?_behind word h.nonempty]
    exact h.noColon

end Token

/-! ## Numbers -/

theorem ne_of_isDigit {c d : Char} (hc : c.isDigit) (hd : d.isDigit = false) : c ≠ d := by
  rintro rfl
  rw [hd] at hc
  cases hc

theorem token_digits (n : Nat) : Token (Nat.toDigits 10 n) := by
  have hd : ∀ c ∈ Nat.toDigits 10 n, c.isDigit := fun c hc => isDigit_of_mem_toDigits hc
  refine .of_no_blanks (by simp) (fun c hc => ⟨isBlank_of_isDigit (hd c hc), ?_⟩)
    (Token.not_slashes_of_not_mem fun hm => ?_)
  · exact ne_of_isDigit (hd c hc) (by decide)
  · exact ne_of_isDigit (hd _ hm) (by decide) rfl

theorem name_of_ofName? {s : String} {c : NamedConst} (h : NamedConst.ofName? s = some c) :
    c.name = s := by
  rw [NamedConst.ofName?, Option.or_eq_some_iff] at h
  rcases h with h | ⟨-, h⟩
  · obtain ⟨t, ht, rfl⟩ := Option.map_eq_some_iff.1 h
    exact eq_of_beq (List.find?_some (p := fun t => TransactionType.name t == s) ht)
  · obtain ⟨t, ht, rfl⟩ := Option.map_eq_some_iff.1 h
    exact eq_of_beq (List.find?_some (p := fun t => OnComplete.name t == s) ht)

/-- No constant is named by digits. -/
theorem ofName?_digits (n : Nat) :
    NamedConst.ofName? (String.ofList (Nat.toDigits 10 n)) = none := by
  have hname : ∀ c : NamedConst, c.name.toList.all Char.isDigit = false := by
    rintro (t | c)
    · cases t <;> decide
    · cases c <;> decide
  cases h : NamedConst.ofName? (String.ofList (Nat.toDigits 10 n)) with
  | none => rfl
  | some c =>
    have hall : c.name.toList.all Char.isDigit = true := by
      rw [name_of_ofName? h, String.toList_ofList, List.all_eq_true]
      exact fun d hd => isDigit_of_mem_toDigits hd
    rw [hname c] at hall
    cases hall

theorem dropStart?_digits (n : Nat) (start : List Char) {x : Char} (hx : x ∈ start)
    (hd : x.isDigit = false) : dropStart? start (Nat.toDigits 10 n) = none := by
  cases h : dropStart? start (Nat.toDigits 10 n) with
  | none => rfl
  | some rest =>
    have hm : x ∈ Nat.toDigits 10 n := by
      rw [eq_append_of_dropStart? h]
      exact List.mem_append_left _ hx
    exact absurd rfl (ne_of_isDigit (isDigit_of_mem_toDigits hm) hd)

theorem readUint_toString (n : Nat) (v : UInt64) :
    readUint n (toString v).toList = .ok (.uint v) := by
  have hv : (toString v).toList = Nat.toDigits 10 v.toNat := toList_toString v.toNat
  have hw := word?_toString v
  rw [hv] at hw ⊢
  simp only [readUint, ofName?_digits, hw,
    dropStart?_digits v.toNat ['0', 'x'] (by simp : 'x' ∈ _) (by decide),
    dropStart?_digits v.toNat ['0', 'X'] (by simp : 'X' ∈ _) (by decide), Option.or_none]

theorem readUint_name (n : Nat) (c : NamedConst) : readUint n c.name.toList = .ok (.named c) := by
  simp only [readUint, String.ofList_toList, NamedConst.ofName?_name]

/-! ## Byte strings -/

theorem plain_char_of_lt : ∀ n, n < 256 → Bytes.isPlain (UInt8.ofNat n) = true →
    Char.ofNat n ∉ ['"', '\\', '\n'] ∧
      String.utf8EncodeChar (Char.ofNat n) = [UInt8.ofNat n] := by
  decide +kernel

/-- A plain byte is neither a quote nor a backslash nor the end of a line, and it is its own
character. -/
theorem plain_char {x : UInt8} (h : Bytes.isPlain x = true) :
    Char.ofNat x.toNat ∉ ['"', '\\', '\n'] ∧
      String.utf8EncodeChar (Char.ofNat x.toNat) = [x] := by
  have hx : UInt8.ofNat x.toNat = x := UInt8.ofNat_toNat
  have := plain_char_of_lt x.toNat x.toNat_lt (by rwa [hx])
  rwa [hx] at this

/-- The characters of plain bytes. -/
def plainChars (b : Bytes) : List Char := b.map fun x => Char.ofNat x.toNat

theorem not_mem_plainChars {b : Bytes} (h : b.all Bytes.isPlain = true) {c : Char}
    (hc : c ∈ ['"', '\\', '\n']) : c ∉ plainChars b := by
  intro hm
  obtain ⟨x, hx, rfl⟩ := List.mem_map.1 hm
  exact (plain_char (List.all_eq_true.1 h x hx)).1 hc

theorem utf8_plainChars {b : Bytes} (h : b.all Bytes.isPlain = true) :
    utf8 (String.ofList (plainChars b)) = b := by
  rw [utf8, String.toList_ofList, plainChars, List.flatMap_map]
  induction b with
  | nil => rfl
  | cons x b ih =>
    rw [List.all_cons, Bool.and_eq_true] at h
    rw [List.flatMap_cons, (plain_char h.1).2, ih h.2]
    rfl

theorem toList_readable_of_plain {b : Bytes} (h : b.all Bytes.isPlain = true) :
    b.readable.toList = '"' :: (plainChars b ++ ['"']) := by
  rw [Bytes.readable, if_pos h, String.toList_ofList]
  rfl

theorem toList_readable_of_not_plain {b : Bytes} (h : ¬ b.all Bytes.isPlain = true) :
    b.readable.toList = '0' :: 'x' :: Hex.digits b := by
  simp [Bytes.readable, h, Hex.encode]

theorem readBytes_readable (n : Nat) (b : Bytes) : readBytes n b.readable.toList = .ok b := by
  by_cases h : b.all Bytes.isPlain = true
  · have hu : unquoted? ('"' :: (plainChars b ++ ['"'])) = some (plainChars b) := by
      simp [unquoted?]
    have hq : '"' ∉ plainChars b := not_mem_plainChars h (by simp)
    have hs : '\\' ∉ plainChars b := not_mem_plainChars h (by simp)
    rw [toList_readable_of_plain h]
    simp [readBytes, hu, hq, hs, utf8_plainChars h]
  · have hu : unquoted? ('0' :: 'x' :: Hex.digits b) = none := rfl
    have hd : dropStart? ['0', 'x'] ('0' :: 'x' :: Hex.digits b) = some (Hex.digits b) := by
      simp [dropStart?]
    rw [toList_readable_of_not_plain h]
    simp [readBytes, hu, hd, Hex.decode?_digits]

theorem hex_digit : ∀ n, n < 16 →
    isBlank (Hex.digit n) = false ∧ Hex.digit n ≠ ':' ∧ Hex.digit n ≠ '/' := by
  decide

theorem of_mem_digits {b : Bytes} {c : Char} (h : c ∈ Hex.digits b) :
    isBlank c = false ∧ c ≠ ':' ∧ c ≠ '/' := by
  obtain ⟨n, hn, rfl⟩ := Hex.exists_of_mem_digits h
  exact hex_digit n hn

theorem token_readable (b : Bytes) : Token b.readable.toList := by
  by_cases h : b.all Bytes.isPlain = true
  · have hq : '"' ∉ plainChars b := not_mem_plainChars h (by simp)
    have hn : '\n' ∉ plainChars b := not_mem_plainChars h (by simp)
    have hlast : ('"' :: (plainChars b ++ ['"'])).getLast? = some '"' := by
      simp [List.getLast?_cons]
    rw [toList_readable_of_plain h]
    refine ⟨⟨by simp, by simp [hn], ?_, ?_, ?_⟩, by simp [hlast]⟩
    · have hd : dropComment false ('"' :: (plainChars b ++ ['"'])) =
          '"' :: dropComment true (plainChars b ++ ['"']) := rfl
      rw [hd, dropComment_quoted hq]
    · rintro c ⟨⟩
      decide
    · intro c hc
      rw [hlast] at hc
      cases hc
      decide
  · rw [toList_readable_of_not_plain h]
    have hall : ∀ c ∈ '0' :: 'x' :: Hex.digits b, isBlank c = false ∧ c ≠ ':' ∧ c ≠ '/' := by
      intro c hc
      rcases List.mem_cons.1 hc with rfl | hc
      · decide
      · rcases List.mem_cons.1 hc with rfl | hc
        · decide
        · exact of_mem_digits hc
    exact .of_no_blanks (by simp) (fun c hc => ⟨(hall c hc).1, (hall c hc).2.1⟩)
      (Token.not_slashes_of_not_mem fun hm => (hall '/' hm).2.2 rfl)

/-! ## Names -/

theorem token_txnField (f : TxnField) : Token f.name.toList := by
  cases f <;> exact .of_all (by decide) (by decide)

theorem token_globalField (f : GlobalField) : Token f.name.toList := by
  cases f <;> exact .of_all (by decide) (by decide)

theorem token_named (c : NamedConst) : Token c.name.toList := by
  rcases c with t | c
  · cases t <;> exact .of_all (by decide) (by decide)
  · cases c <;> exact .of_all (by decide) (by decide)

theorem readTxnField_name (n : Nat) (f : TxnField) : readTxnField n f.name.toList = .ok f := by
  simp only [readTxnField, String.ofList_toList, TxnField.ofName?_name]

theorem readGlobalField_name (n : Nat) (f : GlobalField) :
    readGlobalField n f.name.toList = .ok f := by
  simp only [readGlobalField, String.ofList_toList, GlobalField.ofName?_name]

theorem readGroupField_text (n : Nat) (line : List Char) (index : UInt8) (f : TxnField) :
    readGroupField n line ((toString index).toList ++ ' ' :: f.name.toList) =
      .ok (.gtxn index f) := by
  have hi : (toString index).toList = Nat.toDigits 10 index.toNat := toList_toString index.toNat
  have hs : splitBlank? ((toString index).toList ++ ' ' :: f.name.toList) =
      some ((toString index).toList, f.name.toList) := by
    rw [hi]
    exact splitBlank?_append (fun c hc => isBlank_of_isDigit (isDigit_of_mem_toDigits hc)) _
  have ht : trim f.name.toList = f.name.toList :=
    trim_of_ends (token_txnField f).head (token_txnField f).last
  simp only [readGroupField, hs, byte?_toString, ht, readTxnField_name]
  rfl

theorem token_group (index : UInt8) (f : TxnField) :
    Token ((toString index).toList ++ ' ' :: f.name.toList) := by
  have hi : (toString index).toList = Nat.toDigits 10 index.toNat := toList_toString index.toNat
  rw [hi]
  refine (token_txnField f).behind (by simp) fun c hc => ?_
  have hd := isDigit_of_mem_toDigits hc
  exact ⟨isBlank_of_isDigit hd, ne_of_isDigit hd (by decide), ne_of_isDigit hd (by decide)⟩

/-! ## Labels -/

/-- A name that can stand for a label. -/
structure LabelText (name : String) : Prop where
  nonempty : name ≠ ""
  chars : ∀ c ∈ name.toList, isBlank c = false ∧ c ≠ ':'
  noComment : ¬ ['/', '/'] <:+: name.toList

namespace LabelText

variable {name : String}

theorem toList_ne_nil (h : LabelText name) : name.toList ≠ [] := by
  intro hn
  exact h.nonempty (String.toList_inj.1 hn)

theorem token (h : LabelText name) : Token name.toList :=
  .of_no_blanks h.toList_ne_nil h.chars h.noComment

theorem readLabel_eq (h : LabelText name) (n : Nat) (mnemonic : String) :
    readLabel n mnemonic name.toList = .ok (.label name) := by
  have hb : name.toList.any isBlank = false := by
    rw [List.any_eq_false]
    intro c hc
    simp [(h.chars c hc).1]
  simp [readLabel, h.nonempty, hb]

end LabelText

end Source

end ContractBench
