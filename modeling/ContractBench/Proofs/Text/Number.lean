import ContractBench.Text.Blank
import ContractBench.Text.Number
/-!
# Numbers written and read

A number written in decimal is read back, as a word and as a byte:

    word? (toString v).toList = some v                               (word?_toString)
    byte? (toString v).toList = some v                               (byte?_toString)
-/

namespace ContractBench.Text

/-! ## Digits -/

theorem digitValue?_of_isDigit {c : Char} (h : c.isDigit) :
    digitValue? 10 c = some (c.toNat - '0'.toNat) := by
  have h0 : '0' ≤ c ∧ c ≤ '9' := by
    simpa [Char.isDigit, Char.le_def] using h
  have hn : c.toNat ≤ 57 := h0.2
  have hb : c.toNat - 48 < 10 := by omega
  have hz : ('0' : Char).toNat = 48 := rfl
  simp [digitValue?, Hex.value?, h0, hz, Option.filter, hb]

theorem digitsFrom_of_isDigit {cs : List Char} (h : ∀ c ∈ cs, c.isDigit) (acc : Nat) :
    digitsFrom 10 acc cs = some (Nat.ofDigitChars 10 cs acc) := by
  induction cs generalizing acc with
  | nil => simp [digitsFrom]
  | cons c cs ih =>
    rw [List.forall_mem_cons] at h
    rw [digitsFrom, digitValue?_of_isDigit h.1, Nat.ofDigitChars_cons, Nat.mul_comm 10 acc]
    exact ih h.2 _

theorem digitsFrom_eq_none {base acc : Nat} {c : Char} (hc : digitValue? base c = none)
    {cs : List Char} (h : c ∈ cs) : digitsFrom base acc cs = none := by
  induction cs generalizing acc with
  | nil => cases h
  | cons d cs ih =>
    rw [digitsFrom]
    cases hd : digitValue? base d with
    | none => rfl
    | some n =>
      rcases List.mem_cons.1 h with rfl | h
      · rw [hc] at hd
        cases hd
      · exact ih h

theorem isDigit_of_mem_toDigits {n : Nat} {c : Char} (h : c ∈ Nat.toDigits 10 n) : c.isDigit :=
  Nat.isDigit_of_mem_toDigits (by decide) (by decide) h

theorem digits?_toDigits (n : Nat) : digits? 10 (Nat.toDigits 10 n) = some n := by
  have hne : (Nat.toDigits 10 n).isEmpty = false := by simp
  rw [digits?, if_neg (by simp [hne]), digitsFrom_of_isDigit fun c => isDigit_of_mem_toDigits,
    Nat.ofDigitChars_ten_toDigits]

/-! ## Decimal numbers -/

theorem unsigned?_toDigits {n bound : Nat} (h : n < bound) :
    unsigned? 10 bound (Nat.toDigits 10 n) = some n := by
  have hp : ∀ rest, Nat.toDigits 10 n ≠ '+' :: rest := by
    intro rest e
    have := isDigit_of_mem_toDigits (n := n) (c := '+') (by simp [e])
    simp at this
  unfold unsigned?
  split
  · next rest e => exact absurd e (hp rest)
  · simp [digits?_toDigits, Option.filter, h]

theorem toList_toString (n : Nat) : (toString n).toList = Nat.toDigits 10 n := by
  simp

theorem word?_toString (v : UInt64) : word? (toString v).toList = some v := by
  show word? (toString v.toNat).toList = some v
  rw [toList_toString, word?, unsigned?_toDigits v.toNat_lt, Option.map_some, UInt64.ofNat_toNat]

theorem byte?_toString (v : UInt8) : byte? (toString v).toList = some v := by
  show byte? (toString v.toNat).toList = some v
  rw [toList_toString, byte?, unsigned?_toDigits v.toNat_lt, Option.map_some, UInt8.ofNat_toNat]

theorem toString_inj {m n : Nat} (h : toString m = toString n) : m = n := by
  have hd : Nat.toDigits 10 m = Nat.toDigits 10 n := by
    rw [← toList_toString, ← toList_toString, h]
  have := congrArg (digits? 10) hd
  rw [digits?_toDigits, digits?_toDigits] at this
  exact Option.some.inj this

theorem isBlank_of_isDigit {c : Char} (h : c.isDigit) : isBlank c = false := by
  have h0 : '0' ≤ c ∧ c ≤ '9' := by
    simpa [Char.isDigit, Char.le_def] using h
  have hl : 48 ≤ c.toNat := h0.1
  have hn : c.toNat ≤ 57 := h0.2
  rw [isBlank, List.any_eq_false]
  intro r hr
  have hout : r.2 < 48 ∨ 57 < r.1 := by
    revert r
    decide
  simp only [Bool.and_eq_true, decide_eq_true_eq]
  omega

/-- A number holds no slash. -/
theorem slash_not_mem_of_byte? {cs : List Char} {v : UInt8} (h : byte? cs = some v) : '/' ∉ cs := by
  intro hs
  have hdigits : ∀ ds : List Char, '/' ∈ ds → digits? 10 ds = none := by
    intro ds hds
    unfold digits?
    rw [if_neg (by simpa using List.ne_nil_of_mem hds)]
    exact digitsFrom_eq_none (by decide) hds
  have hnone : unsigned? 10 UInt8.size cs = none := by
    unfold unsigned?
    split
    · next rest => rw [hdigits rest ((List.mem_cons.1 hs).resolve_left (by decide))]; rfl
    · rw [hdigits cs hs]; rfl
  rw [byte?, hnone] at h
  cases h

end ContractBench.Text
