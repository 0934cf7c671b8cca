import Quill.Text.Position

/-!
# Cursors

A cursor stands between two characters of a source: it holds the text still to be read and the
position of the first character of that text. Moving a cursor over a text moves the position
over the same characters, so the two never drift apart.
-/

set_option autoImplicit false

namespace Quill

/-- The text still to be read, and the position of its first character. -/
structure Cursor where
  rest : List Char
  pos : Pos
deriving DecidableEq, Repr

namespace Cursor

/-- The cursor before the first character of a source. -/
def ofSource (source : String) : Cursor := ⟨source.toList, Pos.start⟩

end Cursor

end Quill
