import ContractBench.Address
/-!
# Addresses in any spelling

Whoever writes an address by hand may write its digits in any mix of cases and put white space around
them (`Text.Respelled`). No digit changes its value with its case and no white space is a digit, so
the address is read as if it had been written as it is shown, and not taken for a label:

    Hex.value? c.toLower = Hex.value? c                                        (value?_toLower)
    trim (before ++ cs ++ after) = cs                                             (trim_between)
    Text.Respelled a.toHex text → Address.ofText text = .ok a               (ofText_of_respelled)
-/

namespace ContractBench

/-! ## Algorithm -/

/-- A lowercase text in any mix of cases, with white space around it. -/
def Text.Respelled (s text : String) : Prop :=
  ∃ before cs after, text.toList = before ++ cs ++ after ∧ (∀ c ∈ before, isBlank c = true) ∧
    (∀ c ∈ after, isBlank c = true) ∧ cs.map Char.toLower = s.toList

/-! ## Lemmas -/

/-! ### Cases -/

/-- What does not tell a capital from its small letter does not tell a character from its lowercase. -/
theorem apply_toLower {α : Type} {f : Char → α}
    (h : ∀ n, n < 26 → f (Char.ofNat (65 + n)).toLower = f (Char.ofNat (65 + n))) (c : Char) :
    f c.toLower = f c := by
  by_cases hc : c.val ≥ 'A'.val ∧ c.val ≤ 'Z'.val
  · have hlow : 65 ≤ c.toNat := UInt32.le_iff_toNat_le.1 hc.1
    have hhigh : c.toNat ≤ 90 := UInt32.le_iff_toNat_le.1 hc.2
    have hn : Char.ofNat (65 + (c.toNat - 65)) = c := by
      rw [Nat.add_sub_cancel' hlow, Char.ofNat_toNat]
    have hf := h (c.toNat - 65) (by omega)
    rwa [hn] at hf
  · have hsame : c.toLower = c := dif_neg hc
    rw [hsame]

namespace Hex

theorem value?_toLower (c : Char) : value? c.toLower = value? c :=
  apply_toLower (by decide) c

theorem decode?_map_toLower (cs : List Char) : decode? (cs.map Char.toLower) = decode? cs := by
  induction cs using decode?.induct with
  | case1 => rfl
  | case2 c => rfl
  | case3 hi lo rest ih =>
    rw [List.map_cons, List.map_cons, decode?, decode?, value?_toLower, value?_toLower, ih]

theorem toLower_digit : ∀ n, n < 16 → (digit n).toLower = digit n := by decide

/-- Digits are shown in lowercase. -/
theorem map_toLower_digits (b : Bytes) : (digits b).map Char.toLower = digits b := by
  refine (List.map_congr_left fun c hc => ?_).trans (List.map_id _)
  obtain ⟨n, hn, rfl⟩ := exists_of_mem_digits hc
  exact toLower_digit n hn

end Hex

namespace Text

theorem isBlank_toLower (c : Char) : isBlank c.toLower = isBlank c :=
  apply_toLower (by decide) c

/-! ### White space around -/

/-- White space around a text that has none is taken away, and nothing else is. -/
theorem trim_between {before cs after : List Char} (hb : ∀ c ∈ before, isBlank c = true)
    (ha : ∀ c ∈ after, isBlank c = true) (hcs : ∀ c ∈ cs, isBlank c = false) :
    trim (before ++ cs ++ after) = cs := by
  unfold trim
  rw [List.append_assoc, List.dropWhile_append_of_pos hb]
  cases cs with
  | nil =>
    rw [List.nil_append, ← List.append_nil after, List.dropWhile_append_of_pos ha]
    rfl
  | cons c cs =>
    have hc : ¬ isBlank c = true := by simp [hcs c]
    have hafter : ∀ d ∈ after.reverse, isBlank d = true := by simpa using ha
    have hrev : ∀ d ∈ (c :: cs).reverse, isBlank d = false :=
      fun d hd => hcs d (List.mem_reverse.1 hd)
    rw [List.cons_append, List.dropWhile_cons_of_neg hc, ← List.cons_append, List.reverse_append,
      List.dropWhile_append_of_pos hafter, dropWhile_isBlank_of_none hrev, List.reverse_reverse]

end Text

/-! ### Addresses -/

namespace Address

variable {a : Address}

theorem toList_toHex (a : Address) : a.toHex.toList = Hex.digits a.bytes := String.toList_ofList

/-- An address is read alike in every spelling. -/
theorem ofText_of_respelled {text : String} (h : Text.Respelled a.toHex text) :
    ofText text = .ok a := by
  obtain ⟨before, cs, after, htext, hb, ha, hcs⟩ := h
  rw [toList_toHex] at hcs
  have hblank : ∀ c ∈ cs, Text.isBlank c = false := by
    intro c hc
    rw [← Text.isBlank_toLower]
    exact isBlank_of_mem_digits (hcs ▸ List.mem_map_of_mem hc)
  have htrim : Text.trim text.toList = cs := by
    rw [htext]
    exact Text.trim_between hb ha hblank
  have hdecode : Hex.decode? cs = some a.bytes := by
    rw [← Hex.decode?_map_toLower, hcs, Hex.decode?_digits]
  have hne : cs ≠ [] := by
    rintro rfl
    exact a.digits_bytes_ne_nil hcs.symm
  simp [ofText, htrim, hne, hdecode, ofBytes?_bytes]

/-- The way an address is shown is one of its spellings. -/
theorem respelled_toHex (a : Address) : Text.Respelled a.toHex a.toHex := by
  refine ⟨[], a.toHex.toList, [], by simp, by simp, by simp, ?_⟩
  rw [toList_toHex]
  exact Hex.map_toLower_digits a.bytes

end Address

end ContractBench
