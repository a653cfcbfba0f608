/-!
# Byte strings

Words are written as bytes with the most significant first, text as UTF-8, and bytes are
shown as lowercase hex. The byte strings of a fixed width are read back by their inverses:

    Hex.decode? (Hex.digits b) = some b                 (Hex.decode?_digits)
    utf8 s = utf8 t ↔ s = t                             (utf8_inj)
-/

namespace ContractBench

/-- A byte string. -/
abbrev Bytes := List UInt8

/-- The UTF-8 bytes of a text. -/
def utf8 (s : String) : Bytes := s.toList.flatMap String.utf8EncodeChar

theorem utf8_eq_data (s : String) : utf8 s = s.toByteArray.data.toList := by
  rw [← String.utf8Encode_toList]
  simp [utf8, List.utf8Encode]

theorem utf8_inj {s t : String} : utf8 s = utf8 t ↔ s = t := by
  constructor
  · intro h
    rw [utf8_eq_data, utf8_eq_data] at h
    exact String.toByteArray_inj.1 (ByteArray.ext (Array.toList_inj.1 h))
  · rintro rfl; rfl

namespace Bytes

/-- The eight bytes of a word, most significant first. -/
def ofWord (n : UInt64) : Bytes :=
  [(n >>> 56).toUInt8, (n >>> 48).toUInt8, (n >>> 40).toUInt8, (n >>> 32).toUInt8,
   (n >>> 24).toUInt8, (n >>> 16).toUInt8, (n >>> 8).toUInt8, n.toUInt8]

/-- The number a byte string writes in base 256, modulo 2^64. -/
def toWord (b : Bytes) : UInt64 := b.foldl (fun acc x => acc * 256 + x.toUInt64) 0

/-- The four bytes of a half word, most significant first. -/
def ofHalf (n : UInt32) : Bytes :=
  [(n >>> 24).toUInt8, (n >>> 16).toUInt8, (n >>> 8).toUInt8, n.toUInt8]

/-- A byte string behind its length; the length is written in four bytes. -/
def sized (b : Bytes) : Bytes := ofHalf (UInt32.ofNat b.length) ++ b

@[simp] theorem length_ofWord (n : UInt64) : (ofWord n).length = 8 := rfl

@[simp] theorem length_ofHalf (n : UInt32) : (ofHalf n).length = 4 := rfl

end Bytes

namespace Hex

/-- The lowercase digit of a number below 16. -/
def digit (n : Nat) : Char :=
  if n < 10 then Char.ofNat (48 + n) else Char.ofNat (87 + n)

/-- The value of a hex digit of either case. -/
def value? (c : Char) : Option Nat :=
  if '0' ≤ c ∧ c ≤ '9' then some (c.toNat - 48)
  else if 'a' ≤ c ∧ c ≤ 'f' then some (c.toNat - 87)
  else if 'A' ≤ c ∧ c ≤ 'F' then some (c.toNat - 55)
  else none

/-- Two digits for each byte. -/
def digits (b : Bytes) : List Char :=
  b.flatMap fun x => [digit (x.toNat / 16), digit (x.toNat % 16)]

/-- Two lowercase digits for each byte. -/
def encode (b : Bytes) : String := String.ofList (digits b)

/-- The bytes written by pairs of digits; nothing for an odd number of digits. -/
def decode? : List Char → Option Bytes
  | [] => some []
  | [_] => none
  | hi :: lo :: rest => do
    let h ← value? hi
    let l ← value? lo
    return UInt8.ofNat (16 * h + l) :: (← decode? rest)

theorem length_digits (b : Bytes) : (digits b).length = 2 * b.length := by
  induction b with
  | nil => rfl
  | cons x r ih =>
    simp only [digits, List.flatMap_cons, List.length_append, List.length_cons,
      List.length_nil] at ih ⊢
    omega

/-- Digits are digits of numbers below 16. -/
theorem exists_of_mem_digits {b : Bytes} {c : Char} (h : c ∈ digits b) :
    ∃ n < 16, c = digit n := by
  obtain ⟨x, -, hc⟩ := List.mem_flatMap.1 h
  have hx := x.toNat_lt
  rcases List.mem_cons.1 hc with hhi | hlo
  · exact ⟨x.toNat / 16, by omega, hhi⟩
  · exact ⟨x.toNat % 16, by omega, List.mem_singleton.1 hlo⟩

theorem value?_digit : ∀ n, n < 16 → value? (digit n) = some n := by decide

theorem decode?_digits (b : Bytes) : decode? (digits b) = some b := by
  induction b with
  | nil => rfl
  | cons x r ih =>
    have h1 : x.toNat / 16 < 16 := by have := x.toNat_lt; omega
    have h2 : x.toNat % 16 < 16 := by omega
    have hx : UInt8.ofNat (16 * (x.toNat / 16) + x.toNat % 16) = x := by
      rw [Nat.div_add_mod]; simp
    unfold digits at ih ⊢
    simp only [List.flatMap_cons, List.cons_append, List.nil_append, decode?]
    rw [value?_digit _ h1, value?_digit _ h2, ih]
    show some (UInt8.ofNat (16 * (x.toNat / 16) + x.toNat % 16) :: r) = _
    rw [hx]

end Hex

end ContractBench
