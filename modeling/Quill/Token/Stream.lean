import Quill.Cursor.Step

/-!
# The tokens of a source

Reading a source to its end gives its tokens, the last of which is the end-of-input token, or
the first fault together with the tokens read before it.
-/

set_option autoImplicit false

namespace Quill

/-- The first fault of a source, the position where the faulty lexeme starts, and the tokens
before it. -/
structure LexicalError where
  fault : Fault
  pos : Pos
  tokens : List Token
deriving DecidableEq, Repr

namespace LexicalError

/-- The category of the fault. -/
def kindName (e : LexicalError) : String := e.fault.name

/-- The wording of the fault. -/
def message (e : LexicalError) : String := e.fault.message

/-- The error in one line, with its position. -/
def display (e : LexicalError) : String :=
  "lexical error at line " ++ toString e.pos.line ++ ", column " ++ toString e.pos.column ++ ": "
    ++ e.message

end LexicalError

/-- Outcomes can be compared, so that what a given source reads as can be evaluated. -/
instance instDecidableEqOutcome {ε α : Type} [DecidableEq ε] [DecidableEq α] :
    DecidableEq (Except ε α)
  | .ok a, .ok b => decidable_of_iff (a = b) ⟨congrArg Except.ok, Except.ok.inj⟩
  | .error a, .error b => decidable_of_iff (a = b) ⟨congrArg Except.error, Except.error.inj⟩
  | .ok _, .error _ => isFalse nofun
  | .error _, .ok _ => isFalse nofun

/-- Reads on to the end of the text. The list holds the tokens read so far, last one first. -/
def Cursor.tokens (cursor : Cursor) (before : List Token) : Except LexicalError (List Token) :=
  match _found : cursor.step with
  | .finished pos => .ok (Token.eofAt pos :: before).reverse
  | .token token after => after.tokens (token :: before)
  | .fault fault pos _ => .error ⟨fault, pos, before.reverse⟩
termination_by cursor.rest.length
decreasing_by exact Cursor.step_token_length_lt _found

/-- The tokens of a source. -/
def Token.scan (source : String) : Except LexicalError (List Token) :=
  (Cursor.ofSource source).tokens []

end Quill
