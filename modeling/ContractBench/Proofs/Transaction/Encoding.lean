import ContractBench.Proofs.Bytes.Value
import ContractBench.Transaction.Encoding
/-!
# Canonical bytes show where they end

A value is written so that it can be told from another, and its end found, whatever bytes stand
behind it (`Delimited`). Words have a fixed width, texts stand behind their lengths, lists behind
their counts, and the name of its type comes first in a transaction and tells what its last part
holds. So two transactions never have the same bytes:

    Delimited ofWord m n                                                   (delimited_ofWord)
    k.type = k'.type → Delimited TransactionKind.encode k k'               (delimited_kind)
    Delimited Transaction.encode t t'                                  (delimited_transaction)
    t.encode = t'.encode ↔ t = t'                                               (encode_inj)
-/

namespace ContractBench

open Bytes

/-! ## Algorithm -/

/-- Two values are written so that their bytes tell them apart and show where they end, whatever
stands behind them. -/
def Delimited {α : Type} (write : α → Bytes) (a b : α) : Prop :=
  ∀ r s, write a ++ r = write b ++ s → a = b ∧ r = s

/-- A text whose length fits the four bytes it is written in. -/
def Short (text : String) : Prop := (utf8 text).length < 2 ^ 32

/-- A list behind its count. -/
def counted {α : Type} (write : α → Bytes) (xs : List α) : Bytes :=
  ofWord (UInt64.ofNat xs.length) ++ xs.flatMap write

/-- The bytes of the account a payment closes to, if there is one. -/
def closing (close : Option Address) : Bytes := (close.map Address.bytes).getD []

namespace TransactionKind

/-- The arguments of an application call; other kinds have none. -/
def args : TransactionKind → List String
  | .applicationCall _ _ args _ => args
  | _ => []

/-- The accounts an application call lists; other kinds have none. -/
def accounts : TransactionKind → List Address
  | .applicationCall _ _ _ accounts => accounts
  | _ => []

/-- Every argument has a length that fits. No list in memory has more items than a word counts. -/
structure Measured (k : TransactionKind) : Prop where
  short_args : ∀ arg ∈ k.args, Short arg
  length_args : k.args.length < 2 ^ 64
  length_accounts : k.accounts.length < 2 ^ 64

end TransactionKind

/-- The note and every argument have lengths that fit. -/
structure Transaction.Measured (t : Transaction) : Prop extends t.kind.Measured where
  short_note : Short t.note

/-! ## Lemmas -/

/-! ### Delimited pieces -/

namespace Delimited

variable {α β : Type} {write : α → Bytes}

/-- What has a fixed width is delimited if its bytes tell it from others. -/
theorem of_length {a b : α} (hl : (write a).length = (write b).length)
    (hi : write a = write b → a = b) : Delimited write a b := by
  intro r s h
  obtain ⟨ha, hr⟩ := List.append_inj h hl
  exact ⟨hi ha, hr⟩

/-- What is written through something delimited that determines it. -/
theorem comp {f : β → α} {a b : β} (h : Delimited write (f a) (f b)) (hf : f a = f b → a = b) :
    Delimited (fun x => write (f x)) a b := by
  intro r s he
  obtain ⟨ha, hr⟩ := h r s he
  exact ⟨hf ha, hr⟩

/-- Delimited items in a row, as many on both sides. -/
theorem flatMap {xs ys : List α} (h : ∀ x ∈ xs, ∀ y ∈ ys, Delimited write x y)
    (hl : xs.length = ys.length) : ∀ r s, xs.flatMap write ++ r = ys.flatMap write ++ s →
      xs = ys ∧ r = s := by
  induction xs generalizing ys with
  | nil =>
    cases List.length_eq_zero_iff.1 hl.symm
    exact fun r s he => ⟨rfl, he⟩
  | cons x xs ih =>
    cases ys with
    | nil => cases hl
    | cons y ys =>
      intro r s he
      rw [List.flatMap_cons, List.flatMap_cons, List.append_assoc, List.append_assoc] at he
      obtain ⟨rfl, hrest⟩ := h x List.mem_cons_self y List.mem_cons_self _ _ he
      have htail : ∀ x ∈ xs, ∀ y ∈ ys, Delimited write x y := fun x hx y hy =>
        h x (List.mem_cons_of_mem _ hx) y (List.mem_cons_of_mem _ hy)
      obtain ⟨rfl, hr⟩ := ih htail (Nat.succ.inj hl) r s hrest
      exact ⟨rfl, hr⟩

end Delimited

theorem delimited_ofWord (m n : UInt64) : Delimited ofWord m n :=
  .of_length (by rw [length_ofWord, length_ofWord]) ofWord_inj

theorem delimited_sized {a b : Bytes} (ha : a.length < 2 ^ 32) (hb : b.length < 2 ^ 32) :
    Delimited sized a b := by
  intro r s h
  simp only [sized, List.append_assoc] at h
  obtain ⟨hsize, h⟩ := List.append_inj h (by rw [length_ofHalf, length_ofHalf])
  have hl : a.length = b.length := by
    have hn := congrArg UInt32.toNat (ofHalf_inj hsize)
    rwa [UInt32.toNat_ofNat', UInt32.toNat_ofNat', Nat.mod_eq_of_lt ha, Nat.mod_eq_of_lt hb] at hn
  exact List.append_inj h hl

theorem delimited_text {a b : String} (ha : Short a) (hb : Short b) :
    Delimited (fun text => sized (utf8 text)) a b :=
  (delimited_sized ha hb).comp utf8_inj.1

theorem Address.length_lt (a : Address) : a.bytes.length < 2 ^ 32 := by
  rw [a.length_eq]
  decide

theorem Address.bytes_ne_nil (a : Address) : a.bytes ≠ [] := by
  intro h
  have hl := a.length_eq
  rw [h] at hl
  cases hl

theorem delimited_address (a b : Address) : Delimited (fun x : Address => sized x.bytes) a b :=
  (delimited_sized a.length_lt b.length_lt).comp Address.ext_bytes

/-- A list is told by its count and its items. -/
theorem delimited_counted {α : Type} {write : α → Bytes} {xs ys : List α}
    (hx : xs.length < 2 ^ 64) (hy : ys.length < 2 ^ 64)
    (h : ∀ x ∈ xs, ∀ y ∈ ys, Delimited write x y) : Delimited (counted write) xs ys := by
  intro r s he
  simp only [counted, List.append_assoc] at he
  obtain ⟨hcount, he⟩ := delimited_ofWord _ _ _ _ he
  have hl : xs.length = ys.length := by
    have hn := congrArg UInt64.toNat hcount
    rwa [UInt64.toNat_ofNat', UInt64.toNat_ofNat', Nat.mod_eq_of_lt hx, Nat.mod_eq_of_lt hy] at hn
  exact Delimited.flatMap h hl r s he

/-! ### Transactions -/

theorem TransactionType.name_inj {a b : TransactionType} (h : a.name = b.name) : a = b := by
  have hf := congrArg ofName? h
  rw [ofName?_name, ofName?_name] at hf
  exact Option.some.inj hf

theorem TransactionType.short_name (t : TransactionType) : Short t.name := by
  unfold Short
  cases t <;> decide

theorem OnComplete.code_inj {a b : OnComplete} (h : a.code = b.code) : a = b := by
  cases a <;> cases b <;> first | rfl | exact absurd h (by decide)

theorem delimited_action (a b : OnComplete) : Delimited (fun x => ofWord x.code) a b :=
  (delimited_ofWord a.code b.code).comp OnComplete.code_inj

theorem delimited_flag (a b : Bool) : Delimited (fun x => [if x then 1 else 0]) a b :=
  .of_length rfl (by cases a <;> cases b <;> decide)

/-- Whether a payment closes to an account is told by the length of what is written for it. -/
theorem closing_inj {a b : Option Address} (h : closing a = closing b) : a = b := by
  rcases a with _ | a <;> rcases b with _ | b
  · rfl
  · exact absurd h.symm b.bytes_ne_nil
  · exact absurd h a.bytes_ne_nil
  · exact congrArg some (Address.ext_bytes h)

theorem delimited_closing (a b : Option Address) : Delimited (fun x => sized (closing x)) a b := by
  have hl : ∀ close, (closing close).length < 2 ^ 32 := by
    rintro (_ | a)
    · exact Nat.two_pow_pos 32
    · exact a.length_lt
  exact (delimited_sized (hl a) (hl b)).comp closing_inj

theorem TransactionKind.encode_payment (receiver : Address) (amount : UInt64)
    (close : Option Address) : (payment receiver amount close).encode =
      sized receiver.bytes ++ ofWord amount ++ sized (closing close) := by
  cases close <;> rfl

theorem TransactionKind.encode_applicationCall (appId : UInt64) (action : OnComplete)
    (args : List String) (accounts : List Address) :
    (applicationCall appId action args accounts).encode =
      ofWord appId ++ (ofWord action.code ++
        (counted (fun arg => sized (utf8 arg)) args ++
          counted (fun a : Address => sized a.bytes) accounts)) := by
  simp only [TransactionKind.encode, counted, List.append_assoc]

/-- Within one type the data of two kinds are delimited. -/
theorem delimited_kind {k k' : TransactionKind} (ht : k.type = k'.type) (h : k.Measured)
    (h' : k'.Measured) : Delimited TransactionKind.encode k k' := by
  intro r s he
  cases k with
  | payment receiver amount close =>
    cases k' with
    | payment receiver' amount' close' =>
      simp only [TransactionKind.encode_payment, List.append_assoc] at he
      obtain ⟨hreceiver, he⟩ := delimited_address _ _ _ _ he
      obtain ⟨hamount, he⟩ := delimited_ofWord _ _ _ _ he
      obtain ⟨hclose, hr⟩ := delimited_closing _ _ _ _ he
      exact ⟨by rw [hreceiver, hamount, hclose], hr⟩
    | _ => cases ht
  | keyRegistration =>
    cases k' with
    | keyRegistration => exact ⟨rfl, he⟩
    | _ => cases ht
  | assetConfig assetId =>
    cases k' with
    | assetConfig assetId' =>
      obtain ⟨hasset, hr⟩ := delimited_ofWord _ _ _ _ he
      exact ⟨by rw [hasset], hr⟩
    | _ => cases ht
  | assetTransfer assetId receiver amount =>
    cases k' with
    | assetTransfer assetId' receiver' amount' =>
      simp only [TransactionKind.encode, List.append_assoc] at he
      obtain ⟨hasset, he⟩ := delimited_ofWord _ _ _ _ he
      obtain ⟨hreceiver, he⟩ := delimited_address _ _ _ _ he
      obtain ⟨hamount, hr⟩ := delimited_ofWord _ _ _ _ he
      exact ⟨by rw [hasset, hreceiver, hamount], hr⟩
    | _ => cases ht
  | assetFreeze assetId target frozen =>
    cases k' with
    | assetFreeze assetId' target' frozen' =>
      simp only [TransactionKind.encode, List.append_assoc] at he
      obtain ⟨hasset, he⟩ := delimited_ofWord _ _ _ _ he
      obtain ⟨htarget, he⟩ := delimited_address _ _ _ _ he
      obtain ⟨hfrozen, hr⟩ := delimited_flag _ _ _ _ he
      exact ⟨by rw [hasset, htarget, hfrozen], hr⟩
    | _ => cases ht
  | applicationCall appId action args accounts =>
    cases k' with
    | applicationCall appId' action' args' accounts' =>
      have htexts : Delimited (counted fun arg => sized (utf8 arg)) args args' :=
        delimited_counted h.length_args h'.length_args fun x hx y hy =>
          delimited_text (h.short_args x hx) (h'.short_args y hy)
      have haddresses : Delimited (counted fun a : Address => sized a.bytes) accounts accounts' :=
        delimited_counted h.length_accounts h'.length_accounts fun x _ y _ =>
          delimited_address x y
      simp only [TransactionKind.encode_applicationCall, List.append_assoc] at he
      obtain ⟨happ, he⟩ := delimited_ofWord _ _ _ _ he
      obtain ⟨haction, he⟩ := delimited_action _ _ _ _ he
      obtain ⟨hargs, he⟩ := htexts _ _ he
      obtain ⟨haccounts, hr⟩ := haddresses _ _ he
      exact ⟨by rw [happ, haction, hargs, haccounts], hr⟩
    | _ => cases ht

/-- A transaction is delimited: its type comes first and tells how the rest is laid out. -/
theorem delimited_transaction {t t' : Transaction} (h : t.Measured) (h' : t'.Measured) :
    Delimited Transaction.encode t t' := by
  intro r s he
  simp only [Transaction.encode, List.append_assoc] at he
  obtain ⟨hname, he⟩ := delimited_text t.type.short_name t'.type.short_name _ _ he
  obtain ⟨hsender, he⟩ := delimited_address _ _ _ _ he
  obtain ⟨hfee, he⟩ := delimited_ofWord _ _ _ _ he
  obtain ⟨hfirst, he⟩ := delimited_ofWord _ _ _ _ he
  obtain ⟨hlast, he⟩ := delimited_ofWord _ _ _ _ he
  obtain ⟨hnote, he⟩ := delimited_text h.short_note h'.short_note _ _ he
  have ht : t.kind.type = t'.kind.type := TransactionType.name_inj hname
  obtain ⟨hkind, hr⟩ := delimited_kind ht h.toMeasured h'.toMeasured _ _ he
  refine ⟨?_, hr⟩
  cases t
  cases t'
  congr

namespace Transaction

variable {t t' : Transaction}

theorem eq_of_encode (h : t.Measured) (h' : t'.Measured) (he : t.encode = t'.encode) : t = t' :=
  (delimited_transaction h h' [] [] (congrArg (· ++ []) he)).1

/-! ## Top theorems -/

/-- Transactions are told apart by their canonical bytes: every field counts, whether a payment
closes to an account, and the order of arguments and accounts. -/
theorem encode_inj (h : t.Measured) (h' : t'.Measured) : t.encode = t'.encode ↔ t = t' :=
  ⟨eq_of_encode h h', congrArg encode⟩

/-- A call of application 7 by the zero account. -/
def callWith (args : List String) : Transaction := (appCall .zero 7 .noOp).withArgs args

theorem measured_callWith {args : List String} (h : ∀ arg ∈ args, Short arg)
    (hl : args.length < 2 ^ 64) : (callWith args).Measured where
  short_args := h
  length_args := hl
  length_accounts := Nat.two_pow_pos 64
  short_note := Nat.two_pow_pos 32

/-- Arguments that make up the same text are told apart by where they are cut. -/
theorem encode_inj_callWith :
    (callWith ["a", "bc"]).Measured ∧ (callWith ["ab", "c"]).Measured ∧
      (callWith ["a", "bc"]).encode ≠ (callWith ["ab", "c"]).encode := by
  have h : (callWith ["a", "bc"]).Measured := measured_callWith (by unfold Short; decide) (by decide)
  have h' : (callWith ["ab", "c"]).Measured := measured_callWith (by unfold Short; decide) (by decide)
  exact ⟨h, h', fun he => absurd ((encode_inj h h').1 he) (by decide)⟩

end Transaction

end ContractBench
