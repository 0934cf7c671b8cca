/-!
# Positions in a text

A position is a line and a column, both counted from one. It moves over a text character by
character: a line feed goes to the first column of the next line, every other character one
column to the right. All positions of the front end come from this one rule: those of tokens,
those of failures, and the end of a token.
-/

set_option autoImplicit false

namespace Quill

/-- Line and column of a character, both counted from one. They are natural numbers, which never
overflow. Line and column held in 32 bits are `Counters`, in `Quill.Proofs.Positions.Counters`; for
every source that is read both stay in a range for which 32 bits are enough, as
`Source.read_positions_within` says. -/
structure Pos where
  line : Nat
  column : Nat
deriving DecidableEq, Repr

namespace Pos

/-- The position of the first character of a text. -/
def start : Pos := ⟨1, 1⟩

/-- The position after one character. -/
def step (p : Pos) (c : Char) : Pos :=
  if c = '\n' then ⟨p.line + 1, 1⟩ else ⟨p.line, p.column + 1⟩

/-- The position after a text. -/
def advance (p : Pos) (text : List Char) : Pos :=
  text.foldl step p

@[simp] theorem advance_nil (p : Pos) : p.advance [] = p := rfl

@[simp] theorem advance_cons (p : Pos) (c : Char) (text : List Char) :
    p.advance (c :: text) = (p.step c).advance text := rfl

/-- Moving over two texts in turn is moving over their concatenation. -/
theorem advance_append (p : Pos) (first second : List Char) :
    p.advance (first ++ second) = (p.advance first).advance second := by
  simp [advance, List.foldl_append]

end Pos

end Quill
