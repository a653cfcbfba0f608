import ContractBench.Proofs.Assembly.LineNumbers
import Mathlib.Logic.Relation
/-!
# Layout and comments

An edit of the layout (`Source.Relaid`) inserts a blank line or a line with a comment only, sets white
space around a line, ends a line in a carriage return and a line feed, or comments on a line. It leaves
the contents of the text alone, so a text is assembled to the same program edit after edit:

    Relaid s t → contents t = contents s                                          (contents_of_relaid)
    ReflTransGen Relaid s t → assemble s = .ok e → assemble t = .ok e             (assemble_of_relaid)
-/

namespace ContractBench

open Success Text

namespace Source

/-! ## Algorithm -/

/-- A text that ends where a line can start. -/
inductive StartsLine : List Char → Prop
  | text : StartsLine []
  | line (before : List Char) : StartsLine (before ++ ['\n'])

/-- The ways a line ends. -/
inductive LineEnd : List Char → Prop
  | feed : LineEnd ['\n']
  | returnFeed : LineEnd ['\r', '\n']

/-- A text that starts where a line ends. -/
inductive EndsLine : List Char → Prop
  | text : EndsLine []
  | line {eol : List Char} (after : List Char) : LineEnd eol → EndsLine (eol ++ after)

/-- A line of white space, or with a comment behind white space only. -/
inductive Idle : List Char → Prop
  | blank {ws : List Char} : (∀ c ∈ ws, isBlank c = true) → Idle ws
  | comment {ws cs : List Char} : (∀ c ∈ ws, isBlank c = true) → '\n' ∉ cs →
      Idle (ws ++ '/' :: '/' :: cs)

/-- One edit of the layout of a text. -/
inductive Relaid : List Char → List Char → Prop
  | insertBefore {before after line eol : List Char} : StartsLine before → Idle line → LineEnd eol →
      Relaid (before ++ after) (before ++ line ++ eol ++ after)
  | insertBehind {before after line eol : List Char} : EndsLine after → Idle line → LineEnd eol →
      Relaid (before ++ after) (before ++ eol ++ line ++ after)
  /-- A last line that lacks its end. -/
  | insertLast {before line : List Char} : StartsLine before → Idle line →
      Relaid before (before ++ line)
  | indent {before after ws : List Char} : StartsLine before → (∀ c ∈ ws, isBlank c = true) →
      Relaid (before ++ after) (before ++ ws ++ after)
  | pad {before after ws : List Char} : EndsLine after → (∀ c ∈ ws, isBlank c = true) →
      Relaid (before ++ after) (before ++ ws ++ after)
  | carriageReturn {before after : List Char} :
      Relaid (before ++ '\n' :: after) (before ++ '\r' :: '\n' :: after)
  /-- A comment behind a line that leaves no quote open. -/
  | comment {before line after cs : List Char} : StartsLine before → '\n' ∉ line → EndsLine after →
      Even ((dropComment false line).count '"') → '\n' ∉ cs →
      Relaid (before ++ line ++ after) (before ++ line ++ ' ' :: '/' :: '/' :: cs ++ after)

/-! ## Lemmas -/

/-! ### Contents -/

theorem contents_idle {line : List Char} (h : Idle line) : contents line = [] := by
  cases h with
  | blank hws => exact contents_blanks hws
  | comment hws hcs =>
    rw [contents_blanks_append hws, contents_line (by simp [hcs])]
    rfl

theorem LineEnd.contents_append {eol : List Char} (h : LineEnd eol) (before after : List Char) :
    contents (before ++ eol ++ after) = contents before ++ contents after := by
  cases h with
  | feed => rw [List.append_assoc, List.singleton_append, contents_append_feed]
  | returnFeed =>
    have hreturn : contents (before ++ ['\r']) = contents before :=
      contents_append_blanks (List.forall_mem_singleton.2 rfl) before
    rw [← hreturn, ← contents_append_feed, List.append_assoc, List.append_assoc]
    rfl

theorem StartsLine.contents_append {before : List Char} (h : StartsLine before)
    (after : List Char) : contents (before ++ after) = contents before ++ contents after := by
  cases h with
  | text => rfl
  | line before =>
    have hend := LineEnd.feed.contents_append before
    have hnil := hend []
    rw [List.append_nil] at hnil
    rw [hend, hnil]
    exact congrArg (· ++ _) (List.append_nil _).symm

theorem EndsLine.contents_append {after : List Char} (h : EndsLine after) (before : List Char) :
    contents (before ++ after) = contents before ++ contents after := by
  cases h with
  | text => exact (congrArg _ (List.append_nil _)).trans (List.append_nil _).symm
  | line after heol =>
    rw [← List.append_assoc, heol.contents_append]
    exact congrArg _ (heol.contents_append [] after).symm

/-- An edit of the layout leaves the contents alone. -/
theorem contents_of_relaid {s t : List Char} (h : Relaid s t) : contents t = contents s := by
  -- both texts are cut where the edit begins and ends; what it put in between does not count
  cases h with
  | insertBefore hb hidle heol =>
    rw [heol.contents_append, hb.contents_append, contents_idle hidle, List.append_nil,
      hb.contents_append]
  | insertBehind ha hidle heol =>
    rw [ha.contents_append, heol.contents_append, contents_idle hidle, List.append_nil,
      ha.contents_append]
  | insertLast hb hidle => rw [hb.contents_append, contents_idle hidle, List.append_nil]
  | indent hb hws =>
    rw [List.append_assoc, hb.contents_append, contents_blanks_append hws, hb.contents_append]
  | pad ha hws => rw [ha.contents_append, contents_append_blanks hws, ha.contents_append]
  | @carriageReturn before after =>
    have hends := LineEnd.returnFeed.contents_append before after
    rw [contents_append_feed, ← hends, List.append_assoc]
    rfl
  | @comment before line after cs hb hl ha heven hcs =>
    rw [ha.contents_append, List.append_assoc, hb.contents_append, contents_comment hl heven hcs,
      ha.contents_append, hb.contents_append]

/-- So does edit after edit. -/
theorem contents_of_reflTransGen {s t : List Char} (h : Relation.ReflTransGen Relaid s t) :
    contents t = contents s := by
  induction h with
  | refl => rfl
  | tail _ hedit ih => rw [contents_of_relaid hedit, ih]

end Source

/-! ## A jump -/

/-- A note in front of the pragma, then a comment with an open quote behind the jump. -/
theorem Source.relaid_jump :
    Relation.ReflTransGen Relaid "#pragma version 2\nb end\nend:".toList
      "// ends\n#pragma version 2\nb end // to \"end\nend:".toList := by
  have hnote : Relaid "#pragma version 2\nb end\nend:".toList
      "// ends\n#pragma version 2\nb end\nend:".toList := by
    simpa using @Relaid.insertBefore [] "#pragma version 2\nb end\nend:".toList _ _ .text
      (@Idle.comment [] " ends".toList nofun (by simp)) .feed
  have hcomment : Relaid "// ends\n#pragma version 2\nb end\nend:".toList
      "// ends\n#pragma version 2\nb end // to \"end\nend:".toList := by
    simpa using @Relaid.comment _ "b end".toList _ " to \"end".toList
      (.line "// ends\n#pragma version 2".toList) (by simp) (.line "end:".toList .feed) (by decide)
      (by simp)
  exact .head hnote (.single hcomment)

/-! ## Top theorem -/

/-- Whatever edits lay a text out anew, it is assembled to the same program. -/
theorem assemble_of_relaid {s t : String} {e : Executable}
    (hr : Relation.ReflTransGen Source.Relaid s.toList t.toList) (h : assemble s = .ok e) :
    assemble t = .ok e := by
  have hsame := toOption_assemble (Source.contents_of_reflTransGen hr)
  rw [toOption_eq_some.2 h] at hsame
  exact toOption_eq_some.1 hsame

/-- The jump ends behind itself in both texts. -/
theorem assemble_of_relaid_jump :
    assemble "#pragma version 2\nb end\nend:" = .ok ⟨2, [⟨.jump, .target 1⟩]⟩ ∧
      assemble "// ends\n#pragma version 2\nb end // to \"end\nend:" =
        .ok ⟨2, [⟨.jump, .target 1⟩]⟩ := by
  have h : assemble "#pragma version 2\nb end\nend:" = .ok ⟨2, [⟨.jump, .target 1⟩]⟩ := by
    decide +kernel
  exact ⟨h, assemble_of_relaid Source.relaid_jump h⟩

end ContractBench
