import ContractBench.Proofs.Transaction.Encoding
import ContractBench.Transaction.Group
/-!
# Ids collide only where digests do

Ids of transactions and groups and addresses of labels are digests of messages that start with a
tag of their kind. No tag is the start of another, a transaction has bytes of its own, and the ids
that make up the message of a group all have one width. So whatever goes by one digest without being
the same was hashed from two messages that collide (`Collision`), whichever function the digests come
from:

    taggedMessage tag data ≠ taggedMessage tag' data'                      (taggedMessage_ne)
    g.idMessageBy digest = g'.idMessageBy digest →
      g.members.map (·.idBy digest) = g'.members.map (·.idBy digest)      (map_idBy_of_message)
-/

namespace ContractBench

/-! ## Algorithm -/

/-- Two messages that a digest function does not tell apart. -/
structure Collision (digest : Bytes → Digest) (m m' : Bytes) : Prop where
  ne : m ≠ m'
  eq : digest m = digest m'

/-! ## Lemmas -/

variable {digest : Bytes → Digest}

theorem Digest.ext_bytes {a b : Digest} (h : a.bytes = b.bytes) : a = b := by
  cases a
  cases b
  cases h
  rfl

/-! ### Tagged messages -/

theorem taggedMessage_inj {tag : String} {data data' : Bytes} :
    taggedMessage tag data = taggedMessage tag data' ↔ data = data' :=
  List.append_right_inj _

/-- Messages behind tags neither of which starts the other differ. -/
theorem taggedMessage_ne {tag tag' : String} (h : ¬ utf8 tag <+: utf8 tag')
    (h' : ¬ utf8 tag' <+: utf8 tag) (data data' : Bytes) :
    taggedMessage tag data ≠ taggedMessage tag' data' := by
  intro he
  have hp : utf8 tag <+: taggedMessage tag' data' := ⟨data, he⟩
  rcases List.prefix_or_prefix_of_prefix hp ⟨data', rfl⟩ with hs | hs
  · exact h hs
  · exact h' hs

theorem idMessage_ne_group (t : Transaction) (g : Group) : t.idMessage ≠ g.idMessageBy digest :=
  taggedMessage_ne (by decide) (by decide) _ _

theorem idMessage_ne_label (t : Transaction) (label : String) :
    t.idMessage ≠ Address.labelMessage label :=
  taggedMessage_ne (by decide) (by decide) _ _

theorem groupMessage_ne_label (g : Group) (label : String) :
    g.idMessageBy digest ≠ Address.labelMessage label :=
  taggedMessage_ne (by decide) (by decide) _ _

/-! ### Each kind by itself -/

theorem collision_of_transactions {t t' : Transaction} (h : t.Measured) (h' : t'.Measured)
    (hne : t ≠ t') (hid : t.idBy digest = t'.idBy digest) :
    Collision digest t.idMessage t'.idMessage :=
  ⟨fun he => hne (Transaction.eq_of_encode h h' (taggedMessage_inj.1 he)), hid⟩

theorem collision_of_labels {label label' : String} (hne : label ≠ label')
    (ha : Address.deriveBy digest label = Address.deriveBy digest label') :
    Collision digest (Address.labelMessage label) (Address.labelMessage label') :=
  ⟨fun he => hne (utf8_inj.1 (taggedMessage_inj.1 he)),
    Digest.ext_bytes (congrArg Address.bytes ha)⟩

/-- Digests in a row can be cut apart, as each has 32 bytes. -/
theorem eq_of_flatMap_bytes {ds ds' : List Digest}
    (h : ds.flatMap Digest.bytes = ds'.flatMap Digest.bytes) : ds = ds' := by
  have hlen : ∀ xs : List Digest, (xs.flatMap Digest.bytes).length = 32 * xs.length := by
    intro xs
    induction xs with
    | nil => rfl
    | cons d rest ih =>
      rw [List.flatMap_cons, List.length_append, ih, d.length_eq, List.length_cons, Nat.mul_succ,
        Nat.add_comm]
  have hcount : ds.length = ds'.length := by
    have hl := congrArg List.length h
    rw [hlen, hlen] at hl
    exact Nat.eq_of_mul_eq_mul_left (by decide) hl
  have hwidth : ∀ d ∈ ds, ∀ d' ∈ ds', Delimited Digest.bytes d d' := fun d _ d' _ =>
    .of_length (d.length_eq.trans d'.length_eq.symm) Digest.ext_bytes
  exact (Delimited.flatMap hwidth hcount [] [] (congrArg (· ++ []) h)).1

/-- The message of a group tells the ids of its members, in order. -/
theorem map_idBy_of_message {g g' : Group}
    (h : g.idMessageBy digest = g'.idMessageBy digest) :
    g.members.map (·.idBy digest) = g'.members.map (·.idBy digest) := by
  refine eq_of_flatMap_bytes ?_
  rw [List.flatMap_map, List.flatMap_map]
  exact taggedMessage_inj.1 h

/-- Lists that differ although a function takes them to one list differ in some place. -/
theorem exists_ne_of_map_eq {α β : Type} {f : α → β} {xs ys : List α} (hne : xs ≠ ys)
    (h : xs.map f = ys.map f) :
    ∃ (i : Nat) (x y : α), xs[i]? = some x ∧ ys[i]? = some y ∧ x ≠ y ∧ f x = f y := by
  induction xs generalizing ys with
  | nil => exact absurd (List.map_eq_nil_iff.1 h.symm).symm hne
  | cons x xs ih =>
    cases ys with
    | nil => cases h
    | cons y ys =>
      obtain ⟨hf, hrest⟩ := List.cons.inj h
      by_cases hxy : x = y
      · have hne' : xs ≠ ys := fun he => hne (by rw [hxy, he])
        obtain ⟨i, x', y', hx, hy, hdiff⟩ := ih hne' hrest
        exact ⟨i + 1, x', y', hx, hy, hdiff⟩
      · exact ⟨0, x, y, rfl, rfl, hxy, hf⟩

/-- Two groups that go by one id collide, or two of their members in one place do. -/
theorem collision_of_groups {g g' : Group} (h : ∀ t ∈ g.members, t.Measured)
    (h' : ∀ t ∈ g'.members, t.Measured) (hne : g.members ≠ g'.members)
    (hid : g.idBy digest = g'.idBy digest) :
    Collision digest (g.idMessageBy digest) (g'.idMessageBy digest) ∨
      ∃ (i : Nat) (t t' : Transaction), g.members[i]? = some t ∧ g'.members[i]? = some t' ∧ t ≠ t' ∧
        Collision digest t.idMessage t'.idMessage := by
  by_cases hm : g.idMessageBy digest = g'.idMessageBy digest
  · obtain ⟨i, t, t', ht, ht', hdiff, hids⟩ := exists_ne_of_map_eq hne (map_idBy_of_message hm)
    have hmeasured := h t (List.mem_of_getElem? ht)
    have hmeasured' := h' t' (List.mem_of_getElem? ht')
    exact .inr ⟨i, t, t', ht, ht', hdiff,
      collision_of_transactions hmeasured hmeasured' hdiff hids⟩
  · exact .inl ⟨hm, hid⟩

/-! ## Top theorems -/

/-- Whatever function digests come from, two things that go by one digest were hashed from messages
that collide: an id of a transaction, an id of a group and the address of a label are never equal
otherwise, nor are the ids of two transactions or the addresses of two labels. If two groups of
different transactions, or of the same in another order, have one id, then their messages collide, or
those of two members in one place. -/
theorem ids_collide_as_digests (digest : Bytes → Digest) :
    (∀ (t : Transaction) (g : Group), t.idBy digest = g.idBy digest →
      Collision digest t.idMessage (g.idMessageBy digest)) ∧
    (∀ (t : Transaction) label, (t.idBy digest).bytes = (Address.deriveBy digest label).bytes →
      Collision digest t.idMessage (Address.labelMessage label)) ∧
    (∀ (g : Group) label, (g.idBy digest).bytes = (Address.deriveBy digest label).bytes →
      Collision digest (g.idMessageBy digest) (Address.labelMessage label)) ∧
    (∀ t t' : Transaction, t.Measured → t'.Measured → t ≠ t' → t.idBy digest = t'.idBy digest →
      Collision digest t.idMessage t'.idMessage) ∧
    (∀ label label', label ≠ label' →
      Address.deriveBy digest label = Address.deriveBy digest label' →
        Collision digest (Address.labelMessage label) (Address.labelMessage label')) ∧
    ∀ g g' : Group, (∀ t ∈ g.members, t.Measured) → (∀ t ∈ g'.members, t.Measured) →
      g.members ≠ g'.members → g.idBy digest = g'.idBy digest →
        Collision digest (g.idMessageBy digest) (g'.idMessageBy digest) ∨
          ∃ (i : Nat) (t t' : Transaction), g.members[i]? = some t ∧ g'.members[i]? = some t' ∧ t ≠ t' ∧
            Collision digest t.idMessage t'.idMessage := by
  refine ⟨fun t g hid => ⟨idMessage_ne_group t g, hid⟩, fun t label hid => ?_,
    fun g label hid => ?_, fun t t' h h' => collision_of_transactions h h',
    fun label label' => collision_of_labels, fun g g' h h' => collision_of_groups h h'⟩
  · exact ⟨idMessage_ne_label t label, Digest.ext_bytes hid⟩
  · exact ⟨groupMessage_ne_label g label, Digest.ext_bytes hid⟩

/-- A digest function that adds up the bytes of a message. -/
def checksum (m : Bytes) : Digest :=
  ⟨List.replicate 32 (UInt8.ofNat (m.foldl (fun n b => n + b.toNat) 0)), List.length_replicate⟩

/-- A sum does not tell arguments in another order apart, and so collides for calls and groups. -/
theorem ids_collide_as_digests_checksum :
    let t := Transaction.callWith ["a", "b"]
    let t' := Transaction.callWith ["b", "a"]
    (t.Measured ∧ t'.Measured ∧ t ≠ t' ∧ t.idBy checksum = t'.idBy checksum) ∧
      Collision checksum t.idMessage t'.idMessage ∧
      (Collision checksum ((Group.single t).idMessageBy checksum)
          ((Group.single t').idMessageBy checksum) ∨
        ∃ (i : Nat) (u u' : Transaction), [t][i]? = some u ∧ [t'][i]? = some u' ∧ u ≠ u' ∧
          Collision checksum u.idMessage u'.idMessage) := by
  intro t t'
  have h : t.Measured := Transaction.measured_callWith (by unfold Short; decide) (by decide)
  have h' : t'.Measured := Transaction.measured_callWith (by unfold Short; decide) (by decide)
  have hne : t ≠ t' := by decide
  have hid : t.idBy checksum = t'.idBy checksum := by decide +kernel
  have hgroup : (Group.single t).idBy checksum = (Group.single t').idBy checksum := by
    decide +kernel
  obtain ⟨-, -, -, htransactions, -, hgroups⟩ := ids_collide_as_digests checksum
  refine ⟨⟨h, h', hne, hid⟩, htransactions t t' h h' hne hid, ?_⟩
  exact hgroups (.single t) (.single t') (List.forall_mem_singleton.2 h)
    (List.forall_mem_singleton.2 h') (fun he => hne (List.singleton_inj.1 he)) hgroup

end ContractBench
