import Quill.Proofs.Lexical.Scan

/-!
# Where a lexeme is at fault

A faulty lexeme covers a construct that starts where the fault is reported
(`step_fault_covers`), and which characters belong to it depends on the fault alone:

* a stray character or a lone operator is that one character;
* a number without the digits of its exponent is the accepted text that the message quotes;
* a string literal or a comment that is never closed is the rest of the source.
-/

set_option autoImplicit false

namespace Quill

/-- The characters that a fault covers, in front of the text `rest`. -/
def Fault.Covers (fault : Fault) (construct rest : List Char) : Prop :=
  match fault with
  | .openComment => (∃ inside, construct = '/' :: '/' :: inside) ∧ rest = []
  | .openString => (∃ inside, construct = '"' :: inside) ∧ rest = []
  | .bareExponent accepted => construct = accepted.toList ∧
      fault.message = "malformed number '" ++ String.ofList construct
        ++ "': exponent needs at least one digit"
  | .loneOperator c => construct = [c] ∧ (c = '&' ∨ c = '|')
  | .strayChar c => construct = [c]

namespace Lexical

open Lexeme Cursor

/-- The fault of a string literal covers what is left of the text. -/
theorem quoted_covers {cs : List Char} {fault : Fault} (h : (quoted cs).verdict = .error fault) :
    fault.Covers (quoted cs).text (quoted cs).rest := by
  unfold quoted at h ⊢
  split at h
  · simp at h
  · obtain rfl := Except.error.inj h
    exact ⟨⟨cs, rfl⟩, rfl⟩

/-- The fault of a number covers the number with its exponent mark. -/
theorem number_covers {cs : List Char} {fault : Fault} (h : (number cs).verdict = .error fault) :
    fault.Covers (number cs).text (number cs).rest := by
  simp only [number] at h ⊢
  split at h
  · simp at h
  · rename_i hmark
    rw [if_neg hmark]
    split at h
    · rename_i hdigits
      rw [if_pos hdigits]
      obtain rfl := Except.error.inj h
      exact ⟨String.toList_ofList.symm, rfl⟩
    · simp at h

/-- The fault of a mark covers its one character. -/
theorem singleMark_covers {c : Char} {fault : Fault} (h : singleMark c = .error fault)
    (rest : List Char) : fault.Covers [c] rest := by
  unfold singleMark at h
  split at h
  · rename_i hdouble
    obtain rfl := Except.error.inj h
    exact ⟨rfl, hdouble⟩
  · split at h
    · simp at h
    · obtain rfl := Except.error.inj h
      exact rfl

/-- The fault of a mark of one character or two covers the character it starts with. -/
theorem mark_covers {c : Char} {cs : List Char} {fault : Fault}
    (h : (mark c cs).verdict = .error fault) : fault.Covers (mark c cs).text (mark c cs).rest := by
  unfold mark at h ⊢
  split at h
  · exact singleMark_covers h _
  · rename_i d ds
    cases hd : Kind.double? c d with
    | some kind => simp [hd] at h
    | none =>
      simp only [hd] at h ⊢
      exact singleMark_covers h _

/-- A lexeme at fault covers what its fault says. -/
theorem classify_covers {c : Char} {cs : List Char} {fault : Fault}
    (h : (classify c cs).verdict = .error fault) :
    fault.Covers (classify c cs).text (classify c cs).rest := by
  -- the tests in their order, as the reader makes them; a word is never at fault
  unfold classify at h ⊢
  by_cases hopen : opensComment (c :: cs) = true
  · rw [if_pos hopen] at h ⊢
    obtain rfl := Except.error.inj h
    cases cs with
    | nil => simp [opensComment] at hopen
    | cons d ds =>
      obtain ⟨rfl, rfl⟩ := (opensComment_iff c d ds).mp hopen
      exact ⟨⟨ds, rfl⟩, rfl⟩
  · rw [if_neg hopen] at h ⊢
    by_cases hquote : c = '"'
    · rw [if_pos hquote] at h ⊢
      exact quoted_covers h
    · rw [if_neg hquote] at h ⊢
      by_cases hdigit : c.isDigit = true
      · rw [if_pos hdigit] at h ⊢
        exact number_covers h
      · rw [if_neg hdigit] at h ⊢
        by_cases hletter : Text.isLetter c = true
        · rw [if_pos hletter] at h
          simp [word] at h
        · rw [if_neg hletter] at h ⊢
          exact mark_covers h

/-- A step that meets a fault passes a gap and the construct that the fault covers, which starts
at the position of the fault. -/
theorem step_fault_covers {cursor after : Cursor} {fault : Fault} {pos : Pos}
    (h : cursor.step = .fault fault pos after) :
    ∃ gap construct, Gap gap ∧ fault.Covers construct after.rest ∧ construct ≠ [] ∧
      cursor.rest = gap ++ (construct ++ after.rest) ∧ pos = cursor.pos.advance gap ∧
      after.pos = cursor.pos.advance (gap ++ construct) := by
  obtain ⟨gap, hgap, hrest, hpos, -⟩ := passGap_sound cursor.rest cursor.pos
  unfold Cursor.step skipGap at h
  split at h
  · simp at h
  · -- a gap is passed, and the lexeme after it is at fault
    rename_i c cs stop hskip
    rw [hskip] at hrest hpos
    simp only at hrest hpos
    simp only [readLexeme] at h
    split at h
    · simp at h
    · rename_i found hfound
      obtain ⟨rfl, rfl, rfl⟩ := Step.fault.inj h
      refine ⟨gap, (classify c cs).text, hgap, classify_covers hfound, classify_text_ne_nil c cs,
        ?_, hpos, ?_⟩
      · rw [classify_text_append_rest, hrest]
      · rw [Pos.advance_append, ← hpos]

end Lexical

end Quill
