import ContractBench.Assembly.Assemble
import ContractBench.Proofs.Assembly.Contents
import ContractBench.Success
/-!
# Line numbers

The numbers of lines show in errors only. So lines are read alike at other numbers, and texts with the
same contents are both assembled to the same program, or both refused:

    (readLine version n cs).toOption = (readLine version n' cs).toOption           (toOption_readLine)
    xs.map Prod.snd = ys.map Prod.snd →
      (readLines version defined xs).toOption = (readLines version defined ys).toOption
                                                                                  (toOption_readLines)
    contents s = contents t → (assemble s).toOption = (assemble t).toOption        (toOption_assemble)
-/

namespace ContractBench

open Success

namespace Source

/-! ## Reading -/

variable (version : UInt8) (n n' : Nat)

theorem toOption_readUint (cs : List Char) :
    (readUint n cs).toOption = (readUint n' cs).toOption := by
  unfold readUint
  split
  · rfl
  · dsimp only
    split <;> rfl

theorem toOption_readBytes (cs : List Char) :
    (readBytes n cs).toOption = (readBytes n' cs).toOption := by
  unfold readBytes
  dsimp only
  split <;> rfl

theorem toOption_readTxnField (cs : List Char) :
    (readTxnField n cs).toOption = (readTxnField n' cs).toOption := by
  unfold readTxnField
  split <;> rfl

theorem toOption_readGlobalField (cs : List Char) :
    (readGlobalField n cs).toOption = (readGlobalField n' cs).toOption := by
  unfold readGlobalField
  split <;> rfl

theorem toOption_readGroupField (line cs : List Char) :
    (readGroupField n line cs).toOption = (readGroupField n' line cs).toOption := by
  unfold readGroupField
  split
  · rfl
  · split
    · rfl
    · exact toOption_bind_congr (toOption_readTxnField n n' _) fun _ => rfl

theorem toOption_readLabel (mnemonic : String) (cs : List Char) :
    (readLabel n mnemonic cs).toOption = (readLabel n' mnemonic cs).toOption := by
  unfold readLabel
  split <;> rfl

theorem toOption_readImmediate (line : List Char) (op : Opcode) (cs : List Char) :
    (readImmediate n line op cs).toOption = (readImmediate n' line op cs).toOption := by
  unfold readImmediate
  cases op.immediateKind with
  | absent =>
    dsimp only
    split <;> rfl
  | uint => exact toOption_readUint n n' cs
  | bytes => exact toOption_bind_congr (toOption_readBytes n n' cs) fun _ => rfl
  | txnField => exact toOption_bind_congr (toOption_readTxnField n n' cs) fun _ => rfl
  | groupField => exact toOption_readGroupField n n' line cs
  | globalField => exact toOption_bind_congr (toOption_readGlobalField n n' cs) fun _ => rfl
  | label => exact toOption_readLabel n n' op.name cs

theorem toOption_readInstruction (line : List Char) :
    (readInstruction version n line).toOption = (readInstruction version n' line).toOption := by
  unfold readInstruction
  dsimp only
  split
  · rfl
  · refine toOption_bind_congr (toOption_readImmediate n n' line _ _) fun imm => ?_
    split <;> rfl

theorem toOption_readLine (line : List Char) :
    (readLine version n line).toOption = (readLine version n' line).toOption := by
  unfold readLine
  split
  · split <;> rfl
  · exact toOption_bind_congr (toOption_readInstruction version n n' line) fun _ => rfl

/-- Lines with the same texts are read as the same lines, whatever their numbers. -/
theorem toOption_readLines {xs ys : List (Nat × List Char)}
    (h : xs.map Prod.snd = ys.map Prod.snd) (defined : List String) :
    (readLines version defined xs).toOption = (readLines version defined ys).toOption := by
  induction xs generalizing ys defined with
  | nil => rw [List.map_eq_nil_iff.1 h.symm]
  | cons x xs ih =>
    obtain ⟨n, cs⟩ := x
    cases ys with
    | nil => cases h
    | cons y ys =>
      obtain ⟨n', cs'⟩ := y
      obtain ⟨rfl, hrest⟩ : cs = cs' ∧ xs.map Prod.snd = ys.map Prod.snd := List.cons.inj h
      unfold readLines
      refine toOption_bind_congr (toOption_readLine version n n' cs) fun line => ?_
      cases line with
      | label name =>
        dsimp only
        split
        · rfl
        · exact toOption_bind_congr (ih hrest _) fun _ => rfl
      | op i => exact toOption_bind_congr (ih hrest _) fun _ => rfl

end Source

/-! ## Texts -/

variable {s t : String}

theorem toOption_ofText (h : Source.contents s.toList = Source.contents t.toList) :
    (Listing.ofText s).toOption = (Listing.ofText t).toOption := by
  have hlines : (Source.contentLines s).map Prod.snd = (Source.contentLines t).map Prod.snd := by
    rw [Source.contentLines, Source.contentLines, Source.map_snd_numbered, Source.map_snd_numbered]
    exact h
  unfold Listing.ofText
  cases hs : Source.contentLines s with
  | nil =>
    rw [hs] at hlines
    rw [List.map_eq_nil_iff.1 hlines.symm]
  | cons x xs =>
    cases ht : Source.contentLines t with
    | nil =>
      rw [hs, ht] at hlines
      cases hlines
    | cons y ys =>
      obtain ⟨n, first⟩ := x
      obtain ⟨n', first'⟩ := y
      rw [hs, ht] at hlines
      obtain ⟨rfl, hrest⟩ : first = first' ∧ xs.map Prod.snd = ys.map Prod.snd :=
        List.cons.inj hlines
      refine toOption_bind_congr rfl fun version => ?_
      exact toOption_bind_congr (Source.toOption_readLines version hrest []) fun _ => rfl

/-- Texts with the same contents are assembled to the same program, or both refused. -/
theorem toOption_assemble (h : Source.contents s.toList = Source.contents t.toList) :
    (assemble s).toOption = (assemble t).toOption :=
  toOption_bind_congr (toOption_ofText h) fun _ => rfl

end ContractBench
