import Quill.Text.Position
import Quill.Token.Kind

/-!
# Tokens

A token is a kind, the exact text that stood in the source, and the position of the first
character of that text. A token list need not come from a source: kind and text of a token may
disagree, and the end-of-input token may be missing or stand in the middle.
-/

set_option autoImplicit false

namespace Quill

/-- One token of a source, or one made by hand. -/
structure Token where
  kind : Kind
  text : String
  pos : Pos
deriving DecidableEq, Repr

namespace Token

/-- The token that stands for the end of the input. -/
def eofAt (pos : Pos) : Token := ⟨.eof, "", pos⟩

/-- The position just past the last character of a token. -/
def endPos (t : Token) : Pos :=
  t.pos.advance t.text.toList

/-- The end-of-input token assumed after a token list that has none: it stands where the last
token ends, or at the start if there is no token. -/
def standIn (ts : List Token) : Token :=
  eofAt <| match ts.getLast? with
    | some last => last.endPos
    | none => Pos.start

end Token

end Quill
