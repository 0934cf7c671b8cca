import Quill.Program.OfTokens
import Quill.Syntax.Canonical
import Quill.Token.Stream

/-!
# From source text to a program

A source is read in two stages, tokens first and then the program, and is rejected by the first
stage that fails. A program whose canonical text is read again may come back the same, come back
changed, or be rejected.
-/

set_option autoImplicit false

namespace Quill

/-- Why a source is no program: the failing stage with its error. -/
inductive Rejection where
  | lexical (error : LexicalError)
  | syntactic (error : SyntaxError)
deriving DecidableEq, Repr

namespace Rejection

/-- The error in one line. -/
def display : Rejection → String
  | lexical error => error.display
  | syntactic error => error.display

/-- The category of the error. -/
def kindName : Rejection → String
  | lexical error => error.kindName
  | syntactic error => error.kind.name

/-- What was being done to a source when it was rejected; the label stands for the source. -/
def context (label : String) : Rejection → String
  | lexical _ => "failed to tokenize " ++ label
  | syntactic _ => "failed to parse " ++ label

end Rejection

namespace Program

/-- The program that a source text is. -/
def ofSource (source : String) : Except Rejection Program :=
  match Token.scan source with
  | .error error => .error (.lexical error)
  | .ok tokens =>
    match ofTokens tokens with
    | .error error => .error (.syntactic error)
    | .ok program => .ok program

/-- What becomes of a program when its canonical text is read again. -/
inductive RoundTrip where
  | same
  | changed
  | rejected (why : Rejection)
deriving DecidableEq, Repr

/-- Reads the canonical text of a program and compares. -/
def roundTrip (program : Program) : RoundTrip :=
  match ofSource program.canonical with
  | .ok again => if again = program then .same else .changed
  | .error why => .rejected why

end Program

end Quill
