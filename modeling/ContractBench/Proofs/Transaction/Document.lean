import ContractBench.Proofs.Transaction.Spelling
import ContractBench.Transaction.Document
import ContractBench.Transaction.Encoding
import Mathlib.Data.List.Forall2
import Mathlib.Data.List.Nodup
/-!
# Transactions come back from their objects

A transaction is written as one object in which every key of its head and its type stands once
(`map_fst_fields`, `nodup_keys`). What a record has under these keys decides what is read, so the
order of the fields does not count, no default is taken, and addresses may be spelt in any way
(`Transaction.Respelled`). The data of each type is read back from its fields, and with the head the
whole transaction:

    f.Holds k.toFields → ofFields? f k.type = some k                       (ofFields?_of_holds)
    (∀ keys, j.fields? keys = some f) → f.Holds t.fields → …               (ofJson?_of_holds)
    t.Respelled j → ofJson? j = some t                                    (ofJson?_of_respelled)
    t.Respelled t.toJson                                                      (respelled_toJson)
-/

namespace ContractBench

open Json (Fields)

/-! ## Algorithm -/

/-- A value of addresses with each of them respelled. -/
inductive Json.Respelled : Json → Json → Prop
  | null : Respelled .null .null
  | str {s text : String} (h : Text.Respelled s text) : Respelled (.str s) (.str text)
  | list {ss texts : List String} (h : List.Forall₂ Text.Respelled ss texts) :
    Respelled (.list .str ss) (.list .str texts)

namespace Transaction

/-- The keys that hold addresses. -/
def addressKeys : List String := ["sender", "receiver", "close_remainder_to", "target", "accounts"]

/-- A value under a key, with its addresses respelled if the key holds addresses. -/
def RespelledUnder (key : String) (v j : Json) : Prop :=
  if key ∈ addressKeys then v.Respelled j else j = v

/-- The fields a transaction is written with. -/
def fields (t : Transaction) : List (String × Json) :=
  [("sender", t.sender.toJson), ("fee", .word t.fee), ("first_valid", .word t.firstValid),
    ("last_valid", .word t.lastValid), ("note", .str t.note),
    ("type", .str (TransactionKind.tag t.type))] ++ t.kind.toFields

/-- An object with the keys of a transaction in some order and their values, addresses in any
spelling. -/
inductive Respelled (t : Transaction) : Json → Prop
  | obj {fs : List (String × Json)} (keys : (fs.map Prod.fst).Perm (t.fields.map Prod.fst))
    (values : ∀ g ∈ t.fields, ∃ j, (g.1, j) ∈ fs ∧ RespelledUnder g.1 g.2 j) : Respelled t (.obj fs)

end Transaction

open Transaction

/-- A record has the values of some fields under their keys, addresses in any spelling. -/
def Json.Fields.Holds (f : Fields) (fs : List (String × Json)) : Prop :=
  ∀ g ∈ fs, ∃ j, f g.1 = some j ∧ RespelledUnder g.1 g.2 j

/-! ## Lemmas -/

/-! ### Objects -/

namespace Json

@[simp] theorem word?_word (n : UInt64) : (word n).word? = some n := by
  have hn : n.toNat < UInt64.size := n.toNat_lt_size
  simp [word, word?, nat?, hn]

/-- A list is read item by item. -/
theorem list?_of_forall₂ {α : Type} {decode : Json → Option α} {js : List Json} {items : List α}
    (h : List.Forall₂ (fun j a => decode j = some a) js items) :
    list? decode (.arr js) = some items := by
  show js.mapM decode = some items
  induction h with
  | nil => rfl
  | cons ha _ ih => simp [List.mapM_cons, ha, ih]

theorem list?_list_str (ss : List String) : list? string? (list .str ss) = some ss := by
  refine list?_of_forall₂ (List.forall₂_map_left_iff.2 ?_)
  exact List.forall₂_same.2 fun s _ => rfl

theorem areReadable_iff {items : List Json} :
    areReadable items = true ↔ ∀ j ∈ items, j.isReadable = true := by
  induction items with
  | nil => simp [areReadable]
  | cons j items ih => simp [areReadable, ih]

theorem haveReadable_iff {fs : List (String × Json)} :
    haveReadable fs = true ↔ ∀ g ∈ fs, g.2.isReadable = true := by
  induction fs with
  | nil => simp [haveReadable]
  | cons g fs ih => simp [haveReadable, ih]

theorem isReadable_list_str (ss : List String) : (list .str ss).isReadable = true := by
  rw [list, isReadable, areReadable_iff]
  intro j hj
  obtain ⟨s, -, rfl⟩ := List.mem_map.1 hj
  rfl

theorem Respelled.isReadable {v w : Json} (h : v.Respelled w) : w.isReadable = true := by
  cases h with
  | null => rfl
  | str => rfl
  | list => exact isReadable_list_str _

/-- Among fields with different keys each is found under its key. -/
theorem lookup_of_mem {fs : List (String × Json)} (hn : (fs.map Prod.fst).Nodup)
    {g : String × Json} (hg : g ∈ fs) : fs.lookup g.1 = some g.2 := by
  induction fs with
  | nil => cases hg
  | cons f fs ih =>
    rw [List.map_cons, List.nodup_cons] at hn
    rcases List.mem_cons.1 hg with rfl | hg'
    · exact List.lookup_cons_self
    · have hne : (g.1 == f.1) = false := by
        rw [beq_eq_false_iff_ne]
        intro he
        exact hn.1 (he ▸ List.mem_map_of_mem hg')
      rw [List.lookup_cons, hne]
      exact ih hn.2 hg'

/-- An object without repeated keys has fields, whatever keys are known. -/
theorem fields?_of_nodup {fs : List (String × Json)} (hn : (fs.map Prod.fst).Nodup)
    (keys : List String) : (obj fs).fields? keys = some fun k => fs.lookup k := by
  have hcount : ∀ k, fs.countP (·.1 == k) ≤ 1 := by
    intro k
    have hk := List.nodup_iff_count_le_one.1 hn k
    rwa [List.count, List.countP_map] at hk
  simp [fields?, hcount]

end Json

/-! ### Addresses -/

namespace Address

theorem ofJson?_of_respelled {a : Address} {j : Json} (h : a.toJson.Respelled j) :
    ofJson? j = some a := by
  cases h with
  | str h =>
    rw [ofJson?, Json.string?]
    simp [ofText_of_respelled h, Except.toOption]

theorem list_toJson (as : List Address) : Json.list toJson as = .list .str (as.map toHex) := by
  simp [Json.list, toJson]

theorem respelled_toJson (a : Address) : a.toJson.Respelled a.toJson := .str a.respelled_toHex

theorem respelled_list_toJson (as : List Address) :
    (Json.list toJson as).Respelled (Json.list toJson as) := by
  rw [list_toJson]
  refine .list (List.forall₂_same.2 fun s hs => ?_)
  obtain ⟨a, -, rfl⟩ := List.mem_map.1 hs
  exact a.respelled_toHex

theorem list?_of_respelled {as : List Address} {j : Json}
    (h : (Json.list toJson as).Respelled j) : Json.list? ofJson? j = some as := by
  rw [list_toJson] at h
  generalize hv : Json.list .str (as.map toHex) = v at h
  cases h with
  | null => cases hv
  | str h => cases hv
  | @list ss texts h =>
    have hstr : Function.Injective Json.str := fun s t he => by injection he
    obtain rfl : as.map toHex = ss := List.map_injective_iff.2 hstr (by injection hv)
    rw [List.forall₂_map_left_iff] at h
    refine Json.list?_of_forall₂ (List.forall₂_map_left_iff.2 ?_)
    exact h.flip.imp fun text a ha => ofJson?_of_respelled (.str ha)

end Address

/-! ### Reading single fields -/

namespace Json.Fields.Holds

variable {f : Fields} {fs : List (String × Json)} {key : String} {v : Json}

theorem get (h : f.Holds fs) (hm : (key, v) ∈ fs) (hk : key ∉ addressKeys) : f key = some v := by
  obtain ⟨j, hj, hr⟩ := h _ hm
  obtain rfl : j = v := by rwa [RespelledUnder, if_neg hk] at hr
  exact hj

theorem getAddress (h : f.Holds fs) (hm : (key, v) ∈ fs) (hk : key ∈ addressKeys) :
    ∃ j, f key = some j ∧ v.Respelled j := by
  obtain ⟨j, hj, hr⟩ := h _ hm
  rw [RespelledUnder, if_pos hk] at hr
  exact ⟨j, hj, hr⟩

theorem required {α : Type} {decode : Json → Option α} {x : α} (h : f.Holds fs)
    (hx : decode v = some x) (hm : (key, v) ∈ fs) (hk : key ∉ addressKeys) :
    f.required key decode = some x := by
  rw [Fields.required, h.get hm hk, Option.bind_some, hx]

/-- A field that is there does not stand for its default. -/
theorem withDefault {α : Type} {decode : Json → Option α} {x : α} (h : f.Holds fs) (default : α)
    (hx : decode v = some x) (hm : (key, v) ∈ fs) (hk : key ∉ addressKeys) :
    f.withDefault key decode default = some x := by
  rw [Fields.withDefault, h.get hm hk]
  exact hx

theorem required_address {a : Address} (h : f.Holds fs) (hm : (key, a.toJson) ∈ fs)
    (hk : key ∈ addressKeys) : f.required key Address.ofJson? = some a := by
  obtain ⟨j, hj, hr⟩ := h.getAddress hm hk
  rw [Fields.required, hj, Option.bind_some]
  exact Address.ofJson?_of_respelled hr

theorem optional_null (h : f.Holds fs) (hm : (key, .null) ∈ fs) (hk : key ∈ addressKeys) :
    f.optional key Address.ofJson? = some none := by
  obtain ⟨j, hj, hr⟩ := h.getAddress hm hk
  cases hr with
  | null => rw [Fields.optional, hj]

theorem optional_address {a : Address} (h : f.Holds fs) (hm : (key, a.toJson) ∈ fs)
    (hk : key ∈ addressKeys) : f.optional key Address.ofJson? = some (some a) := by
  obtain ⟨j, hj, hr⟩ := h.getAddress hm hk
  have ha : Address.ofJson? j = some a := Address.ofJson?_of_respelled hr
  cases hr with
  | str => simp only [Fields.optional, hj, ha, Option.map_some]

theorem withDefault_addresses {as : List Address} (h : f.Holds fs)
    (hm : (key, .list Address.toJson as) ∈ fs) (hk : key ∈ addressKeys) :
    f.withDefault key (list? Address.ofJson?) [] = some as := by
  obtain ⟨j, hj, hr⟩ := h.getAddress hm hk
  rw [Fields.withDefault, hj]
  exact Address.list?_of_respelled hr

end Json.Fields.Holds

/-! ### Data of each type -/

namespace TransactionKind

theorem tag?_tag (type : TransactionType) : tag? (.str (tag type)) = some type := by
  cases type <;> rfl

theorem ofField?_toJson (action : OnComplete) : OnComplete.ofField? action.toJson = some action :=
  OnComplete.ofName?_name action

theorem map_fst_toFields (k : TransactionKind) : k.toFields.map Prod.fst = keys k.type := by
  cases k <;> rfl

/-- The data of a type is read from a record that holds its fields. -/
theorem ofFields?_of_holds {f : Fields} (k : TransactionKind) (h : f.Holds k.toFields) :
    ofFields? f k.type = some k := by
  cases k with
  | payment receiver amount close =>
    have hreceiver : f.required "receiver" Address.ofJson? = some receiver :=
      h.required_address (by simp [toFields]) (by decide)
    have hamount : f.required "amount" Json.word? = some amount :=
      h.required (Json.word?_word amount) (by simp [toFields]) (by decide)
    have hclose : f.optional "close_remainder_to" Address.ofJson? = some close := by
      cases close with
      | none => exact h.optional_null (by simp [toFields]) (by decide)
      | some a => exact h.optional_address (by simp [toFields]) (by decide)
    simp [ofFields?, type, hreceiver, hamount, hclose]
  | keyRegistration => rfl
  | assetConfig assetId =>
    have hasset : f.withDefault "asset_id" Json.word? 0 = some assetId :=
      h.withDefault 0 (Json.word?_word assetId) (by simp [toFields]) (by decide)
    simp [ofFields?, type, hasset]
  | assetTransfer assetId receiver amount =>
    have hasset : f.required "asset_id" Json.word? = some assetId :=
      h.required (Json.word?_word assetId) (by simp [toFields]) (by decide)
    have hreceiver : f.required "receiver" Address.ofJson? = some receiver :=
      h.required_address (by simp [toFields]) (by decide)
    have hamount : f.required "amount" Json.word? = some amount :=
      h.required (Json.word?_word amount) (by simp [toFields]) (by decide)
    simp [ofFields?, type, hasset, hreceiver, hamount]
  | assetFreeze assetId target frozen =>
    have hasset : f.required "asset_id" Json.word? = some assetId :=
      h.required (Json.word?_word assetId) (by simp [toFields]) (by decide)
    have htarget : f.required "target" Address.ofJson? = some target :=
      h.required_address (by simp [toFields]) (by decide)
    have hfrozen : f.required "frozen" Json.bool? = some frozen :=
      h.required (v := .bool frozen) rfl (by simp [toFields]) (by decide)
    simp [ofFields?, type, hasset, htarget, hfrozen]
  | applicationCall appId action args accounts =>
    have happ : f.withDefault "app_id" Json.word? 0 = some appId :=
      h.withDefault 0 (Json.word?_word appId) (by simp [toFields]) (by decide)
    have haction : f.withDefault "on_completion" OnComplete.ofField? .noOp = some action :=
      h.withDefault .noOp (ofField?_toJson action) (by simp [toFields]) (by decide)
    have hargs : f.withDefault "args" (Json.list? Json.string?) [] = some args :=
      h.withDefault [] (Json.list?_list_str args) (by simp [toFields]) (by decide)
    have haccounts : f.withDefault "accounts" (Json.list? Address.ofJson?) [] = some accounts :=
      h.withDefault_addresses (by simp [toFields]) (by decide)
    simp [ofFields?, type, happ, haction, hargs, haccounts]

end TransactionKind

/-! ### Transactions -/

namespace Transaction

variable {t : Transaction} {j : Json}

theorem toJson_eq (t : Transaction) : t.toJson = .obj t.fields := rfl

/-- Written out, every key of the head and of the type is there. -/
theorem map_fst_fields (t : Transaction) :
    t.fields.map Prod.fst = headKeys ++ TransactionKind.keys t.type := by
  rw [fields, List.map_append, TransactionKind.map_fst_toFields]
  rfl

/-- No type has a key of the head. -/
theorem nodup_keys (type : TransactionType) : (headKeys ++ TransactionKind.keys type).Nodup := by
  cases type <;> decide

theorem haveReadable_toFields (k : TransactionKind) : Json.haveReadable k.toFields = true := by
  cases k with
  | payment receiver amount close => cases close <;> rfl
  | applicationCall appId action args accounts =>
    simp [TransactionKind.toFields, Json.haveReadable, Json.isReadable_list_str,
      Address.list_toJson, Json.word, OnComplete.toJson, Json.isReadable]
  | _ => rfl

theorem isReadable_of_mem_fields {g : String × Json} (hg : g ∈ t.fields) :
    g.2.isReadable = true := by
  rcases List.mem_append.1 hg with hhead | hkind
  · exact Json.haveReadable_iff.1 rfl g hhead
  · exact Json.haveReadable_iff.1 (haveReadable_toFields t.kind) g hkind

theorem isReadable_of_respelledUnder {key : String} {v j : Json} (h : RespelledUnder key v j)
    (hv : v.isReadable = true) : j.isReadable = true := by
  by_cases hk : key ∈ addressKeys
  · rw [RespelledUnder, if_pos hk] at h
    exact h.isReadable
  · rw [RespelledUnder, if_neg hk] at h
    exact h ▸ hv

section

variable {fs : List (String × Json)} (hkeys : (fs.map Prod.fst).Perm (t.fields.map Prod.fst))
  (hvalues : ∀ g ∈ t.fields, ∃ j, (g.1, j) ∈ fs ∧ RespelledUnder g.1 g.2 j)

include hkeys

theorem nodup_of_perm : (fs.map Prod.fst).Nodup := by
  rw [hkeys.nodup_iff, map_fst_fields]
  exact nodup_keys t.type

include hvalues

theorem holds_of_respelled : Fields.Holds (fun k => fs.lookup k) t.fields := by
  intro g hg
  obtain ⟨j, hj, hr⟩ := hvalues g hg
  exact ⟨j, Json.lookup_of_mem (nodup_of_perm hkeys) hj, hr⟩

theorem isReadable_of_respelled : (Json.obj fs).isReadable = true := by
  rw [Json.isReadable, Json.haveReadable_iff]
  intro f hf
  obtain ⟨g, hg, hgf⟩ := List.mem_map.1 (hkeys.mem_iff.1 (List.mem_map_of_mem hf))
  obtain ⟨j, hj, hr⟩ := hvalues g hg
  rw [hgf] at hj
  -- under one key there is one value
  have hfound := Json.lookup_of_mem (nodup_of_perm hkeys) hf
  rw [Json.lookup_of_mem (nodup_of_perm hkeys) hj] at hfound
  obtain rfl : j = f.2 := Option.some.inj hfound
  exact isReadable_of_respelledUnder hr (isReadable_of_mem_fields hg)

end

/-- An object without repeated keys is read by what stands under the keys of a transaction. -/
theorem ofJson?_of_holds {f : Fields} (hr : j.isReadable = true)
    (hf : ∀ keys, j.fields? keys = some f) (h : f.Holds t.fields) : ofJson? j = some t := by
  have hsender : f.required "sender" Address.ofJson? = some t.sender :=
    h.required_address (by simp [fields]) (by decide)
  have hfee : f.withDefault "fee" Json.word? minTransactionFee = some t.fee :=
    h.withDefault _ (Json.word?_word t.fee) (by simp [fields]) (by decide)
  have hfirst : f.withDefault "first_valid" Json.word? 0 = some t.firstValid :=
    h.withDefault _ (Json.word?_word t.firstValid) (by simp [fields]) (by decide)
  have hlast : f.withDefault "last_valid" Json.word? defaultValidity = some t.lastValid :=
    h.withDefault _ (Json.word?_word t.lastValid) (by simp [fields]) (by decide)
  have hnote : f.withDefault "note" Json.string? "" = some t.note :=
    h.withDefault (v := .str t.note) _ rfl (by simp [fields]) (by decide)
  have htype : f.required "type" TransactionKind.tag? = some t.type :=
    h.required (TransactionKind.tag?_tag t.type) (by simp [fields]) (by decide)
  have hkind : TransactionKind.ofFields? f t.type = some t.kind :=
    TransactionKind.ofFields?_of_holds t.kind fun g hg => h g (List.mem_append_right _ hg)
  have hguard : (guard (j.isReadable = true) : Option Unit) = some () := if_pos hr
  simp [ofJson?, ↓hguard, hf, hsender, hfee, hfirst, hlast, hnote, htype, hkind]

/-- A transaction is read from every object that spells it. -/
theorem ofJson?_of_respelled (h : t.Respelled j) : ofJson? j = some t := by
  cases h with
  | obj hkeys hvalues =>
    have hn := nodup_of_perm hkeys
    exact ofJson?_of_holds (isReadable_of_respelled hkeys hvalues) (Json.fields?_of_nodup hn)
      (holds_of_respelled hkeys hvalues)

theorem respelled_toFields (k : TransactionKind) :
    ∀ g ∈ k.toFields, g.1 ∈ addressKeys → g.2.Respelled g.2 := by
  cases k with
  | payment receiver amount close =>
    cases close with
    | none =>
      simp [TransactionKind.toFields, addressKeys, Address.respelled_toJson, Json.Respelled.null]
    | some a => simp [TransactionKind.toFields, addressKeys, Address.respelled_toJson]
  | applicationCall appId action args accounts =>
    simp [TransactionKind.toFields, addressKeys, Address.respelled_list_toJson]
  | _ => simp [TransactionKind.toFields, addressKeys, Address.respelled_toJson]

theorem respelled_fields (t : Transaction) :
    ∀ g ∈ t.fields, g.1 ∈ addressKeys → g.2.Respelled g.2 := by
  rw [fields, List.forall_mem_append]
  refine ⟨?_, respelled_toFields t.kind⟩
  simp [addressKeys, Address.respelled_toJson]

/-- The object a transaction is written as is one of its spellings. -/
theorem respelled_toJson (t : Transaction) : t.Respelled t.toJson := by
  rw [toJson_eq]
  refine .obj (.refl _) fun g hg => ⟨g.2, hg, ?_⟩
  by_cases hk : g.1 ∈ addressKeys
  · rw [RespelledUnder, if_pos hk]
    exact respelled_fields t g hg hk
  · rw [RespelledUnder, if_neg hk]

/-- **A transaction comes back from its object**, and so do its bytes and its id, in whatever spelling
the object gives the addresses. -/
theorem objects_read_back (t : Transaction) :
    ofJson? t.toJson = some t ∧
      ∀ j, t.Respelled j → ofJson? j = some t ∧ (ofJson? j).map encode = some t.encode ∧
        (ofJson? j).map id = some t.id := by
  refine ⟨ofJson?_of_respelled t.respelled_toJson, fun j hj => ?_⟩
  have hread := ofJson?_of_respelled hj
  rw [hread]
  exact ⟨rfl, rfl, rfl⟩

/-- An address of one repeated byte, written in capitals behind a blank. -/
theorem objects_read_back_capitals :
    let a : Address := ⟨List.replicate 32 0xab, rfl⟩
    let t : Transaction := (appCall Address.zero 7 .optIn).withAccounts [a]
    ofJson? (.obj [("accounts", .arr [.str
        " ABABABABABABABABABABABABABABABABABABABABABABABABABABABABABABABAB"]),
      ("args", .arr []), ("on_completion", .str "OptIn"), ("app_id", .nat 7),
      ("type", .str "application_call"), ("note", .str ""), ("last_valid", .nat 1000),
      ("first_valid", .nat 0), ("fee", .nat 1000), ("sender", Address.zero.toJson)]) = some t := by
  intro a t
  have ha : Text.Respelled a.toHex
      " ABABABABABABABABABABABABABABABABABABABABABABABABABABABABABABABAB" :=
    ⟨[' '], "ABABABABABABABABABABABABABABABABABABABABABABABABABABABABABABABAB".toList, [],
      by decide +kernel, List.forall_mem_singleton.2 (by decide), by simp, by decide +kernel⟩
  have haccounts : (Json.list Address.toJson [a]).Respelled (.list .str
      [" ABABABABABABABABABABABABABABABABABABABABABABABABABABABABABABABAB"]) :=
    .list (.cons ha .nil)
  refine ((objects_read_back t).2 _ (.obj ?_ ?_)).1
  · decide
  · simp only [t, appCall, withAccounts, fields, type, TransactionKind.type, TransactionKind.tag,
      TransactionKind.toFields, RespelledUnder, addressKeys, List.cons_append, List.nil_append,
      List.mem_cons, List.not_mem_nil, Prod.mk.injEq, String.reduceEq, forall_eq_or_imp, forall_eq,
      exists_eq_left, exists_eq, true_and, false_and, false_or, or_false, or_true, or_self, and_self,
      ↓reduceIte]
    exact ⟨Address.zero.respelled_toJson, rfl, rfl, rfl, rfl, rfl, rfl, haccounts⟩

end Transaction

end ContractBench
