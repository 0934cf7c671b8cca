import Quill.Grammar.Programs

/-!
# From tokens to a program

A token list is a program, or it has a first offending token. That token is the one at which
reading stops; if the list is used up there, the end-of-input token assumed after the list takes
its place. The error names the token, and its kind depends on the cause and on whether the token
ends the input.
-/

set_option autoImplicit false

namespace Quill

/-- The categories of syntax errors. -/
inductive SyntaxErrorKind where
  /-- Another token is required here. -/
  | unexpectedToken
  /-- The input ends where more is required. -/
  | unexpectedEof
  /-- Nothing in the grammar starts with this token here. -/
  | unsupportedSyntax
  /-- Something else than a plain name is called. -/
  | invalidCallTarget
  /-- Something stands after the end of the input. -/
  | trailingInput
deriving DecidableEq, Repr

/-- The name of a category in reports. -/
def SyntaxErrorKind.name : SyntaxErrorKind → String
  | unexpectedToken => "UnexpectedToken"
  | unexpectedEof => "UnexpectedEof"
  | unsupportedSyntax => "UnsupportedSyntax"
  | invalidCallTarget => "InvalidCallTarget"
  | trailingInput => "TrailingInput"

/-- A syntax error: what is wrong, and the first offending token. -/
structure SyntaxError where
  cause : SyntaxCause
  token : Token
deriving DecidableEq, Repr

namespace SyntaxError

/-- The category of a syntax error. Where more input is required, the end of the input is a
category of its own. -/
def kind (e : SyntaxError) : SyntaxErrorKind :=
  match e.cause with
  | .expected _ => if e.token.kind = .eof then .unexpectedEof else .unexpectedToken
  | .noDeclaration | .noType | .noExpression =>
    if e.token.kind = .eof then .unexpectedEof else .unsupportedSyntax
  | .callTarget => .invalidCallTarget
  | .trailing => .trailingInput

/-- The wording of a syntax error. -/
def message (e : SyntaxError) : String :=
  match e.cause with
  | .expected kind =>
    "expected " ++ kind.name ++ ", found "
      ++ (if e.token.kind = .eof then "end of input" else e.token.kind.name)
  | .noDeclaration => "expected a declaration (type, struct, const, fn, let)"
  | .noType => "expected a type (int, bool, string, identifier or '(')"
  | .noExpression => "expected an expression (identifier, number, string, true, false or '(')"
  | .callTarget => "only identifiers can be called"
  | .trailing => "unexpected token after end of input"

/-- The error in one line, with its position and, unless it is empty, the text of the token. -/
def display (e : SyntaxError) : String :=
  "syntax error at line " ++ toString e.token.pos.line ++ ", column "
    ++ toString e.token.pos.column ++ ": " ++ e.message
    ++ (if e.token.text = "" then "" else " at '" ++ e.token.text ++ "'")

end SyntaxError

/-- The token at which reading stopped, in a list that a stand-in follows. -/
def Stop.token (stop : Stop) (standIn : Token) : Token :=
  stop.rest.head?.getD standIn

/-- The program that a token list is. -/
def Program.ofTokens (ts : List Token) : Except SyntaxError Program :=
  match Grammar.program ts with
  | .ok program => .ok program
  | .error stop => .error ⟨stop.cause, stop.token (Token.standIn ts)⟩

end Quill
