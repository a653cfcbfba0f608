import ContractBench.Bytes
import Mathlib.Data.List.Induction
import Mathlib.Data.Nat.Digits.Defs
/-!
# The number a byte string writes

A byte string writes a number in base 256, most significant byte first. Together with its length the
number determines the byte string, and zeros in front of it do not count. Words and half words are
written in bytes that write their numbers, so different ones are written differently. The word that
is read from a byte string is its number modulo 2^64, so nothing is lost from eight bytes or fewer:

    a.length = b.length → a.value = b.value → a = b                        (eq_of_value)
    (ofWord n).value = n.toNat                                             (value_ofWord)
    (ofWord n).toWord = n                                                  (toWord_ofWord)
    b.toWord = b.foldl (fun acc x => acc <<< 8 ||| x.toUInt64) 0           (toWord_eq_foldl_shift)
    b.toWord.toNat = b.value % 2 ^ 64                                      (toNat_toWord)
    b.length ≤ 8 → ofWord b.toWord = b.leftpad 8 0                         (ofWord_toWord)
-/

namespace ContractBench.Bytes

/-! ## Algorithm -/

/-- The number a byte string writes in base 256, most significant byte first. -/
def value (b : Bytes) : Nat := Nat.ofDigits 256 (b.reverse.map UInt8.toNat)

/-! ## Lemmas -/

theorem value_concat (b : Bytes) (x : UInt8) : value (b ++ [x]) = b.value * 256 + x.toNat := by
  rw [value, List.reverse_concat, List.map_cons, Nat.ofDigits_cons, ← value]
  omega

theorem digit_lt {b : Bytes} : ∀ d ∈ b.reverse.map UInt8.toNat, d < 256 := by
  intro d hd
  obtain ⟨x, -, rfl⟩ := List.mem_map.1 hd
  exact x.toNat_lt

theorem value_lt (b : Bytes) : b.value < 256 ^ b.length := by
  have h := Nat.ofDigits_lt_base_pow_length (by decide : 1 < 256) b.digit_lt
  rwa [List.length_map, List.length_reverse] at h

/-- Byte strings of one length that write the same number are the same. -/
theorem eq_of_value {a b : Bytes} (hl : a.length = b.length) (h : a.value = b.value) : a = b := by
  have hd : a.reverse.map UInt8.toNat = b.reverse.map UInt8.toNat :=
    Nat.ofDigits_inj_of_len_eq (by decide) (by simp [hl]) digit_lt digit_lt h
  have hr : a.reverse = b.reverse := (List.map_inj_right fun _ _ => UInt8.toNat_inj.1).1 hd
  exact List.reverse_inj.1 hr

/-- Zeros in front do not count. -/
theorem value_leftpad (width : Nat) (b : Bytes) : value (b.leftpad width 0) = b.value := by
  rw [value, List.leftpad, List.reverse_append, List.reverse_replicate, List.map_append,
    List.map_replicate]
  exact Nat.ofDigits_append_replicate_zero _

/-- The digits of a number up to a width write what is left of it by that width. -/
theorem ofDigits_range (n width : Nat) :
    Nat.ofDigits 256 ((List.range width).map fun k => n / 256 ^ k % 256) = n % 256 ^ width := by
  induction width with
  | zero => exact (Nat.mod_one n).symm
  | succ width ih =>
    rw [List.range_succ, List.map_append, Nat.ofDigits_append, ih, List.length_map,
      List.length_range, List.map_singleton, Nat.ofDigits_singleton, Nat.mod_pow_succ]

/-! ### Words and half words -/

theorem digits_ofWord (n : UInt64) :
    (ofWord n).reverse.map UInt8.toNat = (List.range 8).map fun k => n.toNat / 256 ^ k % 256 := by
  have hrange : List.range 8 = [0, 1, 2, 3, 4, 5, 6, 7] := rfl
  have hreverse : (ofWord n).reverse = [n.toUInt8, (n >>> 8).toUInt8, (n >>> 16).toUInt8,
    (n >>> 24).toUInt8, (n >>> 32).toUInt8, (n >>> 40).toUInt8, (n >>> 48).toUInt8,
    (n >>> 56).toUInt8] := rfl
  simp only [hrange, hreverse, List.map_cons, List.map_nil, UInt64.toNat_toUInt8,
    UInt64.toNat_shiftRight, Nat.shiftRight_eq_div_pow, UInt64.reduceToNat, Nat.reduceMod,
    Nat.reducePow, Nat.div_one]

theorem digits_ofHalf (n : UInt32) :
    (ofHalf n).reverse.map UInt8.toNat = (List.range 4).map fun k => n.toNat / 256 ^ k % 256 := by
  have hrange : List.range 4 = [0, 1, 2, 3] := rfl
  have hreverse : (ofHalf n).reverse = [n.toUInt8, (n >>> 8).toUInt8, (n >>> 16).toUInt8,
    (n >>> 24).toUInt8] := rfl
  simp only [hrange, hreverse, List.map_cons, List.map_nil, UInt32.toNat_toUInt8,
    UInt32.toNat_shiftRight, Nat.shiftRight_eq_div_pow, UInt32.reduceToNat, Nat.reduceMod,
    Nat.reducePow, Nat.div_one]

theorem value_ofWord (n : UInt64) : (ofWord n).value = n.toNat := by
  rw [value, digits_ofWord, ofDigits_range]
  exact Nat.mod_eq_of_lt n.toNat_lt

theorem value_ofHalf (n : UInt32) : (ofHalf n).value = n.toNat := by
  rw [value, digits_ofHalf, ofDigits_range]
  exact Nat.mod_eq_of_lt n.toNat_lt

theorem ofWord_inj {m n : UInt64} (h : ofWord m = ofWord n) : m = n :=
  UInt64.toNat_inj.1 (by rw [← value_ofWord, h, value_ofWord])

theorem ofHalf_inj {m n : UInt32} (h : ofHalf m = ofHalf n) : m = n :=
  UInt32.toNat_inj.1 (by rw [← value_ofHalf, h, value_ofHalf])

/-! ### Words read -/

theorem toWord_concat (b : Bytes) (x : UInt8) :
    toWord (b ++ [x]) = b.toWord * 256 + x.toUInt64 := by
  rw [toWord, List.foldl_append]
  rfl

/-- A byte fills the bits that a shift has cleared, so nothing is carried. -/
theorem shiftLeft_or (acc : UInt64) (x : UInt8) :
    acc <<< 8 ||| x.toUInt64 = acc * 256 + x.toUInt64 := by
  have hx : x.toNat < 2 ^ 8 := x.toNat_lt
  have hshift : (acc <<< 8).toNat = 2 ^ 8 * (acc.toNat % 2 ^ 56) := by
    rw [UInt64.toNat_shiftLeft, Nat.shiftLeft_eq]
    show acc.toNat * 2 ^ 8 % 2 ^ 64 = _
    omega
  apply UInt64.toNat_inj.1
  rw [UInt64.toNat_or, hshift, UInt8.toNat_toUInt64, ← Nat.two_pow_add_eq_or_of_lt hx,
    UInt64.toNat_add, UInt64.toNat_mul, UInt8.toNat_toUInt64]
  show _ = (acc.toNat * 256 % 2 ^ 64 + x.toNat) % 2 ^ 64
  omega

/-- A word is read by shifting the bytes in one after the other. -/
theorem toWord_eq_foldl_shift (b : Bytes) :
    b.toWord = b.foldl (fun (acc : UInt64) x => acc <<< 8 ||| x.toUInt64) 0 := by
  simp only [toWord, shiftLeft_or]

/-- A word holds as much of the number as fits. -/
theorem toNat_toWord (b : Bytes) : b.toWord.toNat = b.value % 2 ^ 64 := by
  induction b using List.reverseRecOn with
  | nil => rfl
  | append_singleton b x ih =>
    rw [toWord_concat, value_concat, UInt64.toNat_add, UInt64.toNat_mul, UInt8.toNat_toUInt64, ih]
    show (value b % 2 ^ 64 * 256 % 2 ^ 64 + x.toNat) % 2 ^ 64 = _
    omega

/-- Eight bytes write a number that fits. -/
theorem toNat_toWord_of_length {b : Bytes} (h : b.length ≤ 8) : b.toWord.toNat = b.value := by
  have hlt : b.value < 2 ^ 64 := calc
    b.value < 256 ^ b.length := b.value_lt
    _ ≤ 256 ^ 8 := Nat.pow_le_pow_right (by decide) h
    _ = 2 ^ 64 := by decide
  rw [toNat_toWord, Nat.mod_eq_of_lt hlt]

theorem toWord_ofWord (n : UInt64) : (ofWord n).toWord = n := by
  apply UInt64.toNat_inj.1
  rw [toNat_toWord_of_length (Nat.le_of_eq (length_ofWord n)), value_ofWord]

/-- A short byte string is read and written back with zeros in front. -/
theorem ofWord_toWord {b : Bytes} (h : b.length ≤ 8) : ofWord b.toWord = b.leftpad 8 0 := by
  apply eq_of_value
  · rw [length_ofWord, List.length_leftpad, Nat.max_eq_left h]
  · rw [value_ofWord, value_leftpad, toNat_toWord_of_length h]

end ContractBench.Bytes
