import Quill.Proofs.Lexical.Lexemes
import Quill.Token.Stream

/-!
# Reading a source is reading its lexemes

A step of the cursor reads exactly the lexeme that the lexical grammar has after a gap
(`step_eq_token_iff`), and finds the end exactly when nothing but a gap is left
(`step_eq_finished_iff`). The run from any cursor therefore gives exactly the tokens that the
grammar has for the text ahead (`tokens_eq_ok_iff`), and the tokens of a source are those of
its text from the first position (`scan_eq_ok_iff`).
-/

set_option autoImplicit false

namespace Quill.Lexical

open Quill.Cursor

/-! ## One step -/

/-- The gap at which a cursor stands, passed. -/
theorem skipGap_eq {gap rest : List Char} (hg : Gap gap) (hend : Settled rest) (pos : Pos) :
    skipGap ⟨gap ++ rest, pos⟩ = ⟨rest, pos.advance gap⟩ :=
  passGap_complete hg hend pos

/-- A step finds the end exactly when nothing but a gap is left. -/
theorem step_eq_finished_iff {cursor : Cursor} {pos : Pos} :
    cursor.step = .finished pos ↔ Gap cursor.rest ∧ pos = cursor.pos.advance cursor.rest := by
  constructor
  · intro h
    obtain ⟨gap, hg, hrest, hpos, -⟩ := passGap_sound cursor.rest cursor.pos
    unfold Cursor.step skipGap at h
    split at h
    · rename_i stop hskip
      rw [hskip] at hrest hpos
      rw [List.append_nil] at hrest
      obtain rfl := Cursor.Step.finished.inj h
      exact ⟨hrest ▸ hg, by rw [hrest, ← hpos]⟩
    · simp only [readLexeme] at h
      split at h <;> simp at h
  · rintro ⟨hg, rfl⟩
    -- the cursor stops at the end of the gap, where no text is left
    have hend : Settled [] := by
      intro gap rest _ h
      exact (List.append_eq_nil_iff.mp h.symm).1
    have hskip := skipGap_eq hg hend cursor.pos
    rw [List.append_nil] at hskip
    rw [Cursor.step, show cursor = ⟨cursor.rest, cursor.pos⟩ from rfl, hskip]

/-- A step reads exactly the lexeme that stands after a gap. -/
theorem step_eq_token_iff {cursor after : Cursor} {token : Token} :
    cursor.step = .token token after ↔ ∃ gap word, Gap gap ∧ IsLexeme token.kind word ∧
      MayPrecede token.kind word after.rest ∧ cursor.rest = gap ++ (word ++ after.rest) ∧
      token = ⟨token.kind, String.ofList word, cursor.pos.advance gap⟩ ∧
      after.pos = cursor.pos.advance (gap ++ word) := by
  constructor
  · intro h
    obtain ⟨gap, hg, hrest, hpos, -⟩ := passGap_sound cursor.rest cursor.pos
    unfold Cursor.step skipGap at h
    split at h
    · simp at h
    · rename_i c cs pos hskip
      rw [hskip] at hrest hpos
      simp only at hrest hpos
      simp only [readLexeme] at h
      split at h
      · rename_i kind hkind
        obtain ⟨rfl, rfl⟩ := Cursor.Step.token.inj h
        obtain ⟨hw, hm⟩ := Lexical.classify_sound hkind
        refine ⟨gap, (Lexeme.classify c cs).text, hg, hw, hm, ?_, by rw [← hpos], ?_⟩
        · rw [Lexeme.classify_text_append_rest, hrest]
        · rw [Pos.advance_append, ← hpos]
      · simp at h
  · rintro ⟨gap, word, hg, hw, hm, hrest, htoken, hpos⟩
    obtain ⟨rest, pos⟩ := cursor
    obtain ⟨left, after⟩ := after
    obtain rfl : rest = gap ++ (word ++ left) := hrest
    obtain rfl : after = pos.advance (gap ++ word) := hpos
    -- no gap starts at the lexeme, so the cursor stops in front of it
    rw [Cursor.step, skipGap_eq hg (hw.settled hm)]
    cases hcs : word ++ left with
    | nil => exact absurd (List.append_eq_nil_iff.mp hcs).1 hw.ne_nil
    | cons c cs =>
      show readLexeme c cs (pos.advance gap) = _
      rw [readLexeme, classify_complete hw hm hcs, htoken, Pos.advance_append]

/-! ## Runs -/

/-- The first step on a text that the lexical grammar has: the end, or the first of its tokens
with the rest of the text still one that the grammar has. -/
theorem Lexes.first_step {cursor : Cursor} {us : List Token}
    (h : Lexes [] cursor.pos cursor.rest us) :
    (us = [] ∧ cursor.step = .finished (cursor.pos.advance cursor.rest)) ∨
      ∃ token vs after, us = token :: vs ∧ cursor.step = .token token after ∧
        Lexes [] after.pos after.rest vs := by
  obtain ⟨rest, pos⟩ := cursor
  cases h with
  | gap hg => exact .inl ⟨rfl, step_eq_finished_iff.mpr ⟨hg, rfl⟩⟩
  | @token _ gap word text kind vs hg hw hm hvs =>
    rw [List.append_nil] at hm
    refine .inr ⟨_, vs, ⟨text, pos.advance (gap ++ word)⟩, rfl, ?_, hvs⟩
    exact step_eq_token_iff.mpr ⟨gap, word, hg, hw, hm, rfl, rfl, rfl⟩

/-- A token that is read stands before the rest in the arrangement of the text. -/
theorem Lexes.of_step {cursor after : Cursor} {token : Token} {vs : List Token}
    (hstep : cursor.step = .token token after) (h : Lexes [] after.pos after.rest vs) :
    Lexes [] cursor.pos cursor.rest (token :: vs) := by
  obtain ⟨gap, word, hg, hw, hm, hrest, htoken, hpos⟩ := step_eq_token_iff.mp hstep
  rw [hpos] at h
  rw [hrest, htoken]
  exact .token hg hw (by rwa [List.append_nil]) h

/-- Reading a token does not change where the text ends. -/
theorem advance_of_step {cursor after : Cursor} {token : Token}
    (hstep : cursor.step = .token token after) :
    after.pos.advance after.rest = cursor.pos.advance cursor.rest := by
  obtain ⟨gap, word, -, -, -, hrest, -, hpos⟩ := step_eq_token_iff.mp hstep
  rw [hrest, hpos, ← Pos.advance_append, List.append_assoc]

/-- A run of the cursor to the end of the text gives exactly the tokens of that text. -/
theorem tokens_eq_ok_iff {cursor : Cursor} {before ts : List Token} :
    cursor.tokens before = .ok ts ↔ ∃ us, Lexes [] cursor.pos cursor.rest us ∧
      ts = before.reverse ++ us ++ [Token.eofAt (cursor.pos.advance cursor.rest)] := by
  -- along the run; `before` holds the tokens read so far, the last one first
  fun_induction Cursor.tokens cursor before with
  | case1 cursor before pos found =>
    obtain ⟨hg, rfl⟩ := step_eq_finished_iff.mp found
    constructor
    · intro h
      refine ⟨[], .gap hg, ?_⟩
      rw [← Except.ok.inj h]
      simp
    · rintro ⟨us, hus, rfl⟩
      rcases hus.first_step with ⟨rfl, -⟩ | ⟨token, vs, after, -, hstep, -⟩
      · simp
      · rw [found] at hstep
        simp at hstep
  | case2 cursor before token after found ih =>
    rw [ih, advance_of_step found]
    constructor
    · rintro ⟨us, hus, rfl⟩
      exact ⟨token :: us, .of_step found hus, by simp⟩
    · rintro ⟨us, hus, rfl⟩
      rcases hus.first_step with ⟨-, hstep⟩ | ⟨token', vs, after', rfl, hstep, hvs⟩
      · rw [found] at hstep
        simp at hstep
      · obtain ⟨rfl, rfl⟩ := Cursor.Step.token.inj (found.symm.trans hstep)
        exact ⟨vs, hvs, by simp⟩
  | case3 cursor before fault pos after found =>
    constructor
    · simp
    · rintro ⟨us, hus, -⟩
      -- a text that has tokens starts with a step that succeeds
      rcases hus.first_step with ⟨-, hstep⟩ | ⟨token, vs, after, -, hstep, -⟩
      · rw [found] at hstep
        simp at hstep
      · rw [found] at hstep
        simp at hstep

end Quill.Lexical

namespace Quill.Token

open Quill.Lexical

/-- The tokens of a source are exactly its lexemes, with the gaps between them left out, and the
end-of-input token after the last character. -/
theorem scan_eq_ok_iff (source : String) (ts : List Token) :
    scan source = .ok ts ↔ ∃ us, Lexes [] Pos.start source.toList us ∧
      ts = us ++ [eofAt (Pos.start.advance source.toList)] := by
  rw [scan, tokens_eq_ok_iff]
  rfl

end Quill.Token
