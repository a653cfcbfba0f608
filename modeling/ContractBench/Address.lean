import ContractBench.Sha256
import ContractBench.Text.Blank
import ContractBench.Transaction.Error
/-!
# Account addresses

An address is 32 bytes, shown as lowercase hex. In documents an account may also be named by a
label: any text that is not 64 hex digits stands for the digest of that text.
-/

namespace ContractBench

open Std

structure Address where
  bytes : Bytes
  length_eq : bytes.length = 32

namespace Address

theorem ext_bytes {a b : Address} (h : a.bytes = b.bytes) : a = b := by
  cases a; cases b; cases h; rfl

instance : DecidableEq Address := fun a b =>
  if h : a.bytes = b.bytes then isTrue (ext_bytes h)
  else isFalse fun e => h (congrArg bytes e)

/-! ## Order -/

instance : Ord Address := ⟨fun a b => compare a.bytes b.bytes⟩

instance : TransOrd Address where
  eq_swap := by intro a b; exact OrientedOrd.eq_swap (α := Bytes)
  isLE_trans := by intro a b c; exact TransOrd.isLE_trans (α := Bytes)

instance : LawfulEqOrd Address where
  eq_of_compare h := ext_bytes (LawfulEqOrd.eq_of_compare h)
  compare_self := ReflOrd.compare_self (α := Bytes)

/-! ## Making addresses -/

def zero : Address := ⟨List.replicate 32 0, rfl⟩

instance : Inhabited Address := ⟨zero⟩

def ofDigest (d : Digest) : Address := ⟨d.bytes, d.length_eq⟩

/-- The bytes as an address, if there are 32 of them. -/
def ofBytes? (b : Bytes) : Option Address :=
  if h : b.length = 32 then some ⟨b, h⟩ else none

/-- What is hashed for a label. -/
def labelMessage (label : String) : Bytes := taggedMessage "ADDR" (utf8 label)

/-- The address a digest function gives to a label. -/
def deriveBy (digest : Bytes → Digest) (label : String) : Address :=
  ofDigest (digest (labelMessage label))

/-- The address of a label. -/
def derive (label : String) : Address := deriveBy sha256 label

/-- An address written as 64 hex digits of either case, or the address of the label the text is;
white space around it does not count. -/
def ofText (text : String) : Except TransactionError Address :=
  let cs := Text.trim text.toList
  if cs.isEmpty then .error (.invalidAddress text)
  else
    match (Hex.decode? cs).bind ofBytes? with
    | some a => .ok a
    | none => .ok (derive (String.ofList cs))

/-! ## Showing addresses -/

def toHex (a : Address) : String := Hex.encode a.bytes

/-- The hex digits of the first four bytes. -/
def short (a : Address) : String := Hex.encode (a.bytes.take 4)

/-! ## Lemmas -/

theorem ofBytes?_bytes (a : Address) : ofBytes? a.bytes = some a := by
  simp [ofBytes?, a.length_eq]

theorem isBlank_digit : ∀ n, n < 16 → Text.isBlank (Hex.digit n) = false := by decide

theorem isBlank_of_mem_digits {b : Bytes} {c : Char} (h : c ∈ Hex.digits b) :
    Text.isBlank c = false := by
  obtain ⟨n, hn, rfl⟩ := Hex.exists_of_mem_digits h
  exact isBlank_digit n hn

theorem digits_bytes_ne_nil (a : Address) : Hex.digits a.bytes ≠ [] := by
  intro he
  have hlen := congrArg List.length he
  rw [Hex.length_digits, a.length_eq] at hlen
  cases hlen

end Address

end ContractBench
