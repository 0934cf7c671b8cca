import Quill.Token.Kind

/-!
# Lexemes

Reading one lexeme at the head of a text splits the text in two: the characters the lexeme
covers and the characters after them. The verdict says what was read: a kind of token, or the
fault that keeps the covered characters from being one. A fault covers characters as well, and
reading may go on after them.
-/

set_option autoImplicit false

namespace Quill

/-- Why the characters at the head of a text form no token. -/
inductive Fault where
  /-- A comment is opened and never closed. -/
  | openComment
  /-- A string literal is opened and never closed. -/
  | openString
  /-- A number ends in an exponent mark without a digit; the accepted part is kept. -/
  | bareExponent (accepted : String)
  /-- The character `&` or `|` is not doubled. -/
  | loneOperator (c : Char)
  /-- No lexeme starts with this character. -/
  | strayChar (c : Char)
deriving DecidableEq, Repr

namespace Fault

/-- The name of the category of a fault. -/
def name : Fault → String
  | openComment => "UnterminatedComment"
  | openString => "UnterminatedString"
  | bareExponent _ => "MalformedNumber"
  | loneOperator _ => "LoneOperator"
  | strayChar _ => "UnexpectedChar"

/-- The wording of a fault. -/
def message : Fault → String
  | openComment => "unterminated comment"
  | openString => "unterminated string literal"
  | bareExponent accepted =>
    "malformed number '" ++ accepted ++ "': exponent needs at least one digit"
  | loneOperator c =>
    "unexpected character '" ++ c.toString ++ "' (did you mean '" ++ c.toString ++ c.toString
      ++ "'?)"
  | strayChar c => "unexpected character '" ++ c.toString ++ "'"

end Fault

/-- What was read at the head of a text: the verdict, the characters covered, and the
characters after them. -/
structure Lexeme where
  verdict : Except Fault Kind
  text : List Char
  rest : List Char

end Quill
