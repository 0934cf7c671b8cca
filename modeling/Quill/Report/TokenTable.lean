import Quill.Token.Basic

/-!
# The token table

One row for each token: the name of its kind, its text, its line and its column. Kind and text
are padded on the right, line and column on the left, to fixed widths counted in characters. A
cell that is wider than its column is not cut, and nothing is escaped.
-/

set_option autoImplicit false

namespace Quill.Report

/-- Spaces that fill a text up to a width. -/
def filler (width : Nat) (text : String) : String :=
  String.ofList (List.replicate (width - text.length) ' ')

/-- A text at the left of a column. -/
def padRight (width : Nat) (text : String) : String :=
  text ++ filler width text

/-- A text at the right of a column. -/
def padLeft (width : Nat) (text : String) : String :=
  filler width text ++ text

/-- The row of a token. -/
def tokenRow (token : Token) : String :=
  padRight 15 token.kind.name ++ " | " ++ padRight 25 token.text ++ " | Line "
    ++ padLeft 3 (toString token.pos.line) ++ ", Col " ++ padLeft 3 (toString token.pos.column)
    ++ "\n"

/-- The table of a token list. -/
def tokenTable (tokens : List Token) : String :=
  String.join (tokens.map tokenRow)

end Quill.Report
