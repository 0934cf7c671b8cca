import Quill.Lexeme.Number
import Quill.Text.Classes
import Quill.Token.Basic

/-!
# The lexical grammar, declared

What a source text is made of, said without a scanner.

* `Gap`: white space and closed comments, in any number and order.
* `IsLexeme kind word`: the word is spelled as lexemes of the kind are.
* `MayPrecede kind word next`: the word ends where it ends because of what follows. Each kind of
  lexeme that could be read on has its own restriction; the marks of two characters, string
  literals and most marks of one character have none.
* `Lexes next pos text tokens`: the text, which starts at a position and is followed by `next`, is
  `g₀ w₁ g₁ w₂ ... wₙ gₙ` with gaps `gᵢ` and lexemes `wᵢ`, and the tokens are those lexemes with
  their kinds and positions.

The text after a piece of text is a parameter, not a part of it. The rest of a text, from a lexeme
on, is therefore itself a text before the same `next`, with the tokens that are left.
-/

set_option autoImplicit false

namespace Quill.Lexical

open Quill.Text

/-! ## Gaps -/

/-- The characters between the slashes that open a comment and those that close it: no two
slashes in a row come earlier than the closing ones. -/
def IsInside (inside : List Char) : Prop :=
  ∀ before after : List Char, inside ++ ['/', '/'] = before ++ '/' :: '/' :: after →
    before = inside

/-- Any run of white space and closed comments. -/
inductive Gap : List Char → Prop
  | nil : Gap []
  | space {c : Char} {cs : List Char} : isWhiteSpace c = true → Gap cs → Gap (c :: cs)
  | comment {inside cs : List Char} : IsInside inside → Gap cs →
      Gap ('/' :: '/' :: (inside ++ '/' :: '/' :: cs))

/-- No gap starts a text, unless it is the empty one. -/
def Settled (text : List Char) : Prop :=
  ∀ gap rest : List Char, Gap gap → text = gap ++ rest → gap = []

/-! ## Lexemes -/

/-- One ASCII digit or more. -/
def IsDigits (cs : List Char) : Prop :=
  cs ≠ [] ∧ ∀ c ∈ cs, c.isDigit = true

/-- A point with digits after it, or nothing. -/
def IsFraction (cs : List Char) : Prop :=
  cs = [] ∨ ∃ ds, IsDigits ds ∧ cs = '.' :: ds

/-- A sign, or nothing. -/
def IsOptionalSign (cs : List Char) : Prop :=
  cs = [] ∨ ∃ s, Lexeme.isSign s = true ∧ cs = [s]

/-- The letter of an exponent, perhaps a sign, and digits; or nothing. -/
def IsExponent (cs : List Char) : Prop :=
  cs = [] ∨ ∃ e sign ds, Lexeme.isExponentLetter e = true ∧ IsOptionalSign sign ∧ IsDigits ds ∧
    cs = e :: (sign ++ ds)

/-- The characters between the quotes of a string literal: a quote stands only after the
backslash that protects it. -/
inductive IsBody : List Char → Prop
  | nil : IsBody []
  | plain {c : Char} {cs : List Char} : c ≠ '"' → c ≠ '\\' → IsBody cs → IsBody (c :: cs)
  | escaped {c : Char} {cs : List Char} : IsBody cs → IsBody ('\\' :: c :: cs)

/-- The spelling of the lexemes of each kind. -/
inductive IsLexeme : Kind → List Char → Prop
  | number {whole part power : List Char} : IsDigits whole → IsFraction part → IsExponent power →
      IsLexeme .number (whole ++ part ++ power)
  | string {body : List Char} : IsBody body → IsLexeme .string ('"' :: (body ++ ['"']))
  | name {c : Char} {cs : List Char} : isLetter c = true → (∀ d ∈ cs, isNamePart d = true) →
      String.ofList (c :: cs) ∉ Kind.keywords.map Prod.fst → IsLexeme .ident (c :: cs)
  | keyword {word : String} {kind : Kind} : (word, kind) ∈ Kind.keywords →
      IsLexeme kind word.toList
  | double {first second : Char} {kind : Kind} : ((first, second), kind) ∈ Kind.doubleMarks →
      IsLexeme kind [first, second]
  | single {c : Char} {kind : Kind} : (c, kind) ∈ Kind.singleMarks → IsLexeme kind [c]

/-- The first character of a text is of a class; an empty text has none. -/
def StartsWith (p : Char → Bool) : List Char → Prop
  | [] => False
  | c :: _ => p c = true

/-- The first two characters of a text are a point and a digit. -/
def StartsWithFraction (cs : List Char) : Prop :=
  ∃ d rest, cs = '.' :: d :: rest ∧ d.isDigit = true

/-- What may stand directly after a lexeme. A number goes on with a digit, unless it has an
exponent with an exponent letter, and unless it has a fraction or an exponent with a point and a
digit. The marks of one character that open a mark of two must not be followed by its second
character, nor a slash by the slash that would open a comment. A word goes on with any name
character. -/
def MayPrecede (kind : Kind) (word next : List Char) : Prop :=
  match kind with
  | .number =>
    ¬ StartsWith Char.isDigit next ∧
      ((∀ c ∈ word, Lexeme.isExponentLetter c = false) →
        ¬ StartsWith Lexeme.isExponentLetter next ∧ ('.' ∉ word → ¬ StartsWithFraction next))
  | .assign | .bang | .less | .greater => ¬ StartsWith (· == '=') next
  | .minus => ¬ StartsWith (· == '>') next
  | .slash => ¬ StartsWith (· == '/') next
  | kind => kind = .ident ∨ kind ∈ Kind.keywords.map Prod.snd → ¬ StartsWith isNamePart next

/-! ## Texts -/

/-- The text is a run of lexemes with gaps before, between and after them, each lexeme may
precede what follows it, and the tokens are the lexemes with their positions. The text stands at
`pos` and before `next`. -/
inductive Lexes (next : List Char) : Pos → List Char → List Token → Prop
  | gap {pos : Pos} {gap : List Char} : Gap gap → Lexes next pos gap []
  | token {pos : Pos} {gap word text : List Char} {kind : Kind} {ts : List Token} : Gap gap →
      IsLexeme kind word → MayPrecede kind word (text ++ next) →
      Lexes next (pos.advance (gap ++ word)) text ts →
      Lexes next pos (gap ++ (word ++ text))
        (⟨kind, String.ofList word, pos.advance gap⟩ :: ts)

/-- Two gaps make one gap. -/
theorem Gap.append {first second : List Char} (hf : Gap first) (hs : Gap second) :
    Gap (first ++ second) := by
  induction hf with
  | nil => exact hs
  | space hc _ ih => exact .space hc ih
  | comment hi _ ih => simpa using Gap.comment hi ih

/-- A gap may be put before a text. -/
theorem Lexes.after_gap {next : List Char} {pos : Pos} {gap text : List Char} {ts : List Token}
    (hg : Gap gap) (h : Lexes next (pos.advance gap) text ts) :
    Lexes next pos (gap ++ text) ts := by
  cases h with
  | gap h => exact .gap (hg.append h)
  | @token _ g word text kind ts h hw hm hrest =>
    rw [← Pos.advance_append, ← List.append_assoc] at hrest
    have whole := Lexes.token (hg.append h) hw hm hrest
    rwa [List.append_assoc, Pos.advance_append] at whole

end Quill.Lexical
