import Quill.Token.Basic

/-!
# Reading from a token list

A reader looks at a token list from its head on. It either hands back a value together with the
tokens after those it used, or it stops.

* A reader that succeeds has used at least one token. This is part of its result
  (`Reading.shorter`), and every loop and recursion of the grammar ends because of it.
* A reader that stops tells why and hands back the tokens from the offending one on. If none is
  left, the offending token is the end of the input.

No reader looks past the head of the list before it has used the head.
-/

set_option autoImplicit false

namespace Quill

/-- Why a token list is no program. -/
inductive SyntaxCause where
  /-- A token of one kind is required. -/
  | expected (kind : Kind)
  /-- No declaration starts here. -/
  | noDeclaration
  /-- No type starts here. -/
  | noType
  /-- No expression starts here. -/
  | noExpression
  /-- Arguments follow something that is not a plain name. -/
  | callTarget
  /-- A token stands after the end-of-input token. -/
  | trailing
deriving DecidableEq, Repr

/-- Where and why a reader stops: the cause, and the tokens from the offending one on. -/
structure Stop where
  cause : SyntaxCause
  rest : List Token

/-- What a reader found at the head of `ts`: a value, and the tokens after it, of which there
are fewer. -/
structure Reading (ts : List Token) (α : Type) where
  value : α
  rest : List Token
  shorter : rest.length < ts.length

namespace Reading

variable {ts : List Token} {α β : Type}

/-- The reading of one token. -/
def head (t : Token) (ts : List Token) : Reading (t :: ts) Token :=
  ⟨t, ts, Nat.lt_succ_self _⟩

/-- The same tokens used for another value. -/
def give (found : Reading ts α) (value : β) : Reading ts β :=
  ⟨value, found.rest, found.shorter⟩

/-- A reading that goes on where another ends, seen from where that one starts. -/
def extend (found : Reading ts α) (more : Reading found.rest β) : Reading ts β :=
  ⟨more.value, more.rest, Nat.lt_trans more.shorter found.shorter⟩

/-- Reads on after a reading. The reader may use that there are fewer tokens left. -/
def next (found : Reading ts α)
    (read : (us : List Token) → us.length < ts.length → Except Stop (Reading us β)) :
    Except Stop (Reading ts β) := do
  let more ← read found.rest found.shorter
  return found.extend more

end Reading

namespace Grammar

/-- The kind of the next token; past the last token, the input ends. -/
def ahead : List Token → Kind
  | [] => .eof
  | t :: _ => t.kind

/-- The next token, if it is of the given kind. -/
def accept (kind : Kind) : (ts : List Token) → Option (Reading ts Token)
  | [] => none
  | t :: ts => if t.kind = kind then some (.head t ts) else none

/-- The next token, which has to be of the given kind. -/
def expect (kind : Kind) (ts : List Token) : Except Stop (Reading ts Token) :=
  match accept kind ts with
  | some found => .ok found
  | none => .error ⟨.expected kind, ts⟩

end Grammar

namespace Reading

variable {ts : List Token} {α : Type}

/-- The token after a reading, if it is of the given kind. -/
def accept (kind : Kind) (found : Reading ts α) : Option (Reading ts Token) :=
  (Grammar.accept kind found.rest).map found.extend

/-- The token after a reading, which has to be of the given kind. -/
def expect (kind : Kind) (found : Reading ts α) : Except Stop (Reading ts Token) :=
  found.next fun us _ => Grammar.expect kind us

end Reading

namespace Grammar

/-- The text of the next token, which has to be a name. -/
def name (ts : List Token) : Except Stop (Reading ts String) := do
  let found ← expect .ident ts
  return found.give found.value.text

/-- One value or more with commas between them, then the closing token. -/
def commaList {α : Type} (close : Kind) (ts : List Token)
    (element : (us : List Token) → us.length ≤ ts.length → Except Stop (Reading us α)) :
    Except Stop (Reading ts (List α)) := do
  let first ← element ts (Nat.le_refl _)
  match first.accept .comma with
  | some comma =>
    let others ← comma.next fun us h =>
      commaList close us fun vs k => element vs (Nat.le_trans k (Nat.le_of_lt h))
    return others.give (first.value :: others.value)
  | none =>
    let closing ← first.expect close
    return closing.give [first.value]
termination_by ts.length

/-- Values with commas between them, perhaps none, then the closing token. -/
def closedList {α : Type} (close : Kind) (ts : List Token)
    (element : (us : List Token) → us.length ≤ ts.length → Except Stop (Reading us α)) :
    Except Stop (Reading ts (List α)) :=
  match accept close ts with
  | some closing => .ok (closing.give [])
  | none => commaList close ts element

end Grammar

end Quill
