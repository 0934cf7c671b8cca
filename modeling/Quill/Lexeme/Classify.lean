import Quill.Lexeme.Number
import Quill.Lexeme.Quoted
import Quill.Text.Classes

/-!
# Which lexeme starts here

The first character of a text decides which lexeme is read, in this order.

1. Two slashes open a comment. A comment that is closed is not a lexeme and has been passed
   before, so here it is a comment that is never closed.
2. A double quote opens a string literal.
3. An ASCII digit opens a number.
4. A letter opens a word: a keyword, or else a name.
5. Two characters may form a mark together; the longer mark wins over the shorter.
6. A single `&` or `|` is a fault of its own.
7. A character may be a mark by itself.
8. Any other character is a stray.

Every lexeme covers at least one character, and no character is lost or changed.
-/

set_option autoImplicit false

namespace Quill.Lexeme

open Quill.Text

/-- The word at the head of a text: its longest run of name characters. -/
def word (cs : List Char) : Lexeme :=
  let text := cs.takeWhile isNamePart
  ⟨.ok ((Kind.keyword? (String.ofList text)).getD .ident), text, cs.dropWhile isNamePart⟩

/-- The mark of one character, or the fault that the character is. -/
def singleMark (c : Char) : Except Fault Kind :=
  if c = '&' ∨ c = '|' then .error (.loneOperator c)
  else match Kind.single? c with
    | some kind => .ok kind
    | none => .error (.strayChar c)

/-- The mark at the head of a text: of two characters if they form one, else of one. -/
def mark (c : Char) (cs : List Char) : Lexeme :=
  match cs with
  | [] => ⟨singleMark c, [c], []⟩
  | next :: rest =>
    match Kind.double? c next with
    | some kind => ⟨.ok kind, [c, next], rest⟩
    | none => ⟨singleMark c, [c], next :: rest⟩

/-- Whether a text opens a comment. -/
def opensComment : List Char → Bool
  | '/' :: '/' :: _ => true
  | _ => false

/-- The lexeme at the head of the text `c :: cs`, in which no white space and no closed comment
stands first. -/
def classify (c : Char) (cs : List Char) : Lexeme :=
  if opensComment (c :: cs) then ⟨.error .openComment, c :: cs, []⟩
  else if c = '"' then quoted cs
  else if c.isDigit then number (c :: cs)
  else if isLetter c then word (c :: cs)
  else mark c cs

/-- A word and the text after it make up the text read. -/
theorem word_text_append_rest (cs : List Char) : (word cs).text ++ (word cs).rest = cs :=
  List.takeWhile_append_dropWhile

/-- A mark and the text after it make up the text read. -/
theorem mark_text_append_rest (c : Char) (cs : List Char) :
    (mark c cs).text ++ (mark c cs).rest = c :: cs := by
  unfold mark
  split
  · rfl
  · split <;> rfl

/-- A lexeme and the text after it make up the text read. -/
theorem classify_text_append_rest (c : Char) (cs : List Char) :
    (classify c cs).text ++ (classify c cs).rest = c :: cs := by
  unfold classify
  split
  · simp
  · split
    · rename_i h
      rw [h, quoted_text_append_rest]
    · split
      · exact number_text_append_rest _
      · split
        · exact word_text_append_rest _
        · exact mark_text_append_rest c cs

/-- A lexeme covers at least one character. -/
theorem classify_text_ne_nil (c : Char) (cs : List Char) : (classify c cs).text ≠ [] := by
  unfold classify
  split
  · simp
  · split
    · exact quoted_text_ne_nil cs
    · split
      · rename_i h
        exact number_text_ne_nil h
      · split
        · rename_i h
          simp [word, isNamePart_of_isLetter h]
        · unfold mark
          split
          · simp
          · split <;> simp

/-- The text after a lexeme is shorter than the text read. -/
theorem classify_rest_length_lt (c : Char) (cs : List Char) :
    (classify c cs).rest.length < (c :: cs).length := by
  have whole := congrArg List.length (classify_text_append_rest c cs)
  have covered := List.length_pos_iff.mpr (classify_text_ne_nil c cs)
  rw [List.length_append] at whole
  omega

end Quill.Lexeme
