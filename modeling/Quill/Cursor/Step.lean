import Quill.Cursor.Gap
import Quill.Lexeme.Classify
import Quill.Token.Basic

/-!
# Reading one token

A step of the cursor passes a gap and then reads one lexeme. It ends in one of three ways: the
text is used up, a token was read, or the lexeme is at fault. In the last two the cursor moves
past the characters the lexeme covers, so that reading can go on after a fault as well.

Steps that read something use up text (`step_token_length_lt`, `step_fault_length_lt`), which
is why reading a source to its end terminates.
-/

set_option autoImplicit false

namespace Quill.Cursor

/-- What one step of a cursor found, and the cursor after it. -/
inductive Step where
  /-- Nothing but a gap was left; the position is that of the end of the text. -/
  | finished (pos : Pos)
  /-- A token was read. -/
  | token (token : Token) (after : Cursor)
  /-- The lexeme that starts at the position is at fault. -/
  | fault (fault : Fault) (pos : Pos) (after : Cursor)

/-- Reads the lexeme `c :: cs` at a position. -/
def readLexeme (c : Char) (cs : List Char) (pos : Pos) : Step :=
  let lexeme := Lexeme.classify c cs
  let after : Cursor := ⟨lexeme.rest, pos.advance lexeme.text⟩
  match lexeme.verdict with
  | .ok kind => .token ⟨kind, String.ofList lexeme.text, pos⟩ after
  | .error fault => .fault fault pos after

/-- Passes a gap and reads one lexeme. -/
def step (cursor : Cursor) : Step :=
  match cursor.skipGap with
  | ⟨[], pos⟩ => .finished pos
  | ⟨c :: cs, pos⟩ => readLexeme c cs pos

/-- Repeated reading with one cursor: the token or fault found next, with the cursor after it.
At the end of the text this is the end-of-input token, again and again. -/
def next (cursor : Cursor) : Except (Fault × Pos) Token × Cursor :=
  match cursor.step with
  | .finished pos => (.ok (Token.eofAt pos), ⟨[], pos⟩)
  | .token token after => (.ok token, after)
  | .fault fault pos after => (.error (fault, pos), after)

/-- The results of a number of readings with one cursor, whatever each of them is. -/
def nexts : Nat → Cursor → List (Except (Fault × Pos) Token)
  | 0, _ => []
  | n + 1, cursor => cursor.next.1 :: nexts n cursor.next.2

/-- A step that reads a token uses up text. -/
theorem step_token_length_lt {cursor after : Cursor} {token : Token}
    (h : cursor.step = .token token after) : after.rest.length < cursor.rest.length := by
  have gap := passGap_length_le cursor.rest cursor.pos
  unfold step skipGap at h
  split at h
  · simp at h
  · rename_i c cs pos passed
    have used := Lexeme.classify_rest_length_lt c cs
    rw [passed] at gap
    simp only [readLexeme] at h
    split at h
    · cases h
      exact Nat.lt_of_lt_of_le used gap
    · simp at h

/-- A step that meets a fault uses up text. -/
theorem step_fault_length_lt {cursor after : Cursor} {fault : Fault} {pos : Pos}
    (h : cursor.step = .fault fault pos after) : after.rest.length < cursor.rest.length := by
  have gap := passGap_length_le cursor.rest cursor.pos
  unfold step skipGap at h
  split at h
  · simp at h
  · rename_i c cs pos passed
    have used := Lexeme.classify_rest_length_lt c cs
    rw [passed] at gap
    simp only [readLexeme] at h
    split at h
    · simp at h
    · cases h
      exact Nat.lt_of_lt_of_le used gap

end Quill.Cursor
