import Quill.Proofs.Lexical.Lexemes
import Quill.Token.Stream

/-!
# The words of a text

The word of a token is its kind with its text, without its position. A text spells a list of words
if these are the words of its tokens, wherever the text starts.

Texts are put together from their ends: `Spells.gap` and `Spells.word` put white space or a lexeme
before a text that is already known. A lexeme may stand before a text if the text does not go on
it. Only words, numbers and a few marks could be gone on: `Clear` texts go on none of the former,
and a text that starts with a space goes on nothing at all.
-/

set_option autoImplicit false

namespace Quill

/-- A kind of lexeme with a text. -/
abbrev Word := Kind × String

/-- The kind and the text of a token. -/
def Token.word (t : Token) : Word := (t.kind, t.text)

namespace Lexical

open Quill.Text

/-! ## What may follow -/

/-- A text that does not go on a name, a keyword or a number. -/
def Clear (text : List Char) : Prop :=
  ¬ StartsWith isNamePart text ∧ ¬ StartsWithFraction text

/-- A character that goes on neither with a name nor with a number is clear of what stands before
it. -/
theorem clear_cons {c : Char} (hpart : isNamePart c = false) (hdot : c ≠ '.')
    (text : List Char) : Clear (c :: text) := by
  constructor
  · simp [StartsWith, hpart]
  · rintro ⟨d, rest, h, -⟩
    exact hdot (List.cons.inj h).1

/-- A space is clear of whatever stands before it. -/
theorem clear_space (text : List Char) : Clear (' ' :: text) :=
  clear_cons (by decide) (by decide) text

/-- A point with a letter after it goes on no number. -/
theorem clear_dot {c : Char} (hc : isLetter c = true) (text : List Char) :
    Clear ('.' :: c :: text) := by
  constructor
  · show ¬ isNamePart '.' = true
    decide
  · rintro ⟨d, rest, h, hdigit⟩
    obtain ⟨rfl, -⟩ := List.cons.inj (List.cons.inj h).2
    rw [isDigit_eq_false_of_isLetter hc] at hdigit
    exact absurd hdigit (by decide)

/-- Digits are name characters. -/
theorem isNamePart_of_isDigit {c : Char} (h : c.isDigit = true) : isNamePart c = true := by
  have hcode := isDigit_code h
  simp [isNamePart, isNumeric, if_pos (show c.toNat < 0x80 by omega), h]

/-- Exponent letters are name characters. -/
theorem isNamePart_of_isExponentLetter {c : Char} (h : Lexeme.isExponentLetter c = true) :
    isNamePart c = true := by
  rcases (isExponentLetter_iff c).mp h with rfl | rfl <;> decide

/-- Numbers, strings, names and keywords may precede clear texts. -/
theorem Clear.mayPrecede {text : List Char} (h : Clear text) {kind : Kind}
    (hkind : kind = .number ∨ kind = .string ∨ kind = .ident ∨ kind ∈ Kind.keywords.map Prod.snd)
    (word : List Char) : MayPrecede kind word text := by
  have hstart : ∀ {p : Char → Bool}, (∀ c, p c = true → isNamePart c = true) →
      ¬ StartsWith p text := by
    intro p hp htext
    cases text with
    | nil => exact htext
    | cons c cs => exact h.1 (hp c htext)
  -- digits and exponent letters are name characters, so only the point is left to rule out
  rcases hkind with rfl | rfl | hkind
  · refine ⟨hstart fun c => isNamePart_of_isDigit, fun _ => ⟨?_, fun _ => h.2⟩⟩
    exact hstart fun c => isNamePart_of_isExponentLetter
  · intro hword
    simp [Kind.keywords] at hword
  · exact (mayPrecede_word_iff hkind word text).mpr h.1

/-- The kinds of marks that nothing could go on. -/
def freeMarks : List Kind :=
  [.plus, .star, .percent, .dot, .comma, .lparen, .rparen, .lbrace, .rbrace, .lbracket, .rbracket,
   .colon, .semicolon]

/-- The marks that could not be read on may precede any text. -/
theorem mayPrecede_freeMark {kind : Kind} (h : kind ∈ freeMarks) (word text : List Char) :
    MayPrecede kind word text := by
  cases kind <;> simp [freeMarks] at h <;> simp [MayPrecede, Kind.keywords]

/-- Every lexeme may precede a space. -/
theorem mayPrecede_space {kind : Kind} {word : List Char} (hword : IsLexeme kind word)
    (text : List Char) : MayPrecede kind word (' ' :: text) := by
  have hclear := clear_space text
  cases hword with
  | number => exact hclear.mayPrecede (.inl rfl) _
  | string => exact hclear.mayPrecede (.inr (.inl rfl)) _
  | name => exact hclear.mayPrecede (.inr (.inr (.inl rfl))) _
  | keyword hmem =>
    exact hclear.mayPrecede (.inr (.inr (.inr (List.mem_map.mpr ⟨_, hmem, rfl⟩)))) _
  | double hmem => exact mayPrecede_double hmem _ _
  | single hmem =>
    -- no mark of two characters has a space for its second
    cases kind <;> simp [Kind.singleMarks] at hmem <;> simp [MayPrecede, Kind.keywords, StartsWith]

/-! ## Spelling -/

/-- The words of the tokens of a text, wherever it starts. -/
def Spells (text : List Char) (words : List Word) : Prop :=
  ∀ pos, ∃ ts, Lexes [] pos text ts ∧ ts.map Token.word = words

/-- A text of one gap has no words. -/
theorem spells_of_gap {gap : List Char} (h : Gap gap) : Spells gap [] :=
  fun _ => ⟨[], .gap h, rfl⟩

/-- A gap before a text changes nothing. -/
theorem Spells.gap {gap text : List Char} {words : List Word} (h : Spells text words)
    (hgap : Gap gap) : Spells (gap ++ text) words := by
  intro pos
  obtain ⟨ts, hts, hwords⟩ := h (pos.advance gap)
  exact ⟨ts, hts.after_gap hgap, hwords⟩

/-- A space before a text changes nothing of the words it spells. -/
theorem Spells.space {text : List Char} {words : List Word} (h : Spells text words) :
    Spells (' ' :: text) words :=
  h.gap (.space (by decide) .nil)

/-- A line feed before a text changes nothing of the words it spells. -/
theorem Spells.newline {text : List Char} {words : List Word} (h : Spells text words) :
    Spells ('\n' :: text) words :=
  h.gap (.space (by decide) .nil)

/-- A lexeme before a text that does not go on it. -/
theorem Spells.word {kind : Kind} {word text : List Char} {words : List Word}
    (h : Spells text words) (hword : IsLexeme kind word) (hnext : MayPrecede kind word text) :
    Spells (word ++ text) ((kind, String.ofList word) :: words) := by
  intro pos
  obtain ⟨ts, hts, hwords⟩ := h (pos.advance word)
  refine ⟨⟨kind, String.ofList word, pos⟩ :: ts, ?_, ?_⟩
  · exact .token .nil hword (by rwa [List.append_nil]) hts
  · rw [List.map_cons, hwords]
    rfl

/-- A number, a string, a name or a keyword before a clear text. -/
theorem Spells.text {kind : Kind} {word : String} {rest : List Char} {words : List Word}
    (h : Spells rest words) (hword : IsLexeme kind word.toList)
    (hkind : kind = .number ∨ kind = .string ∨ kind = .ident ∨ kind ∈ Kind.keywords.map Prod.snd)
    (hclear : Clear rest) : Spells (word.toList ++ rest) ((kind, word) :: words) := by
  have whole := h.word hword (hclear.mayPrecede hkind _)
  rwa [String.ofList_toList] at whole

/-- A name before a text that is clear of it adds its word. -/
theorem Spells.name {name : String} {rest : List Char} {words : List Word}
    (h : Spells rest words) (hname : IsLexeme .ident name.toList) (hclear : Clear rest) :
    Spells (name.toList ++ rest) ((.ident, name) :: words) :=
  h.text hname (.inr (.inr (.inl rfl))) hclear

/-- A keyword before a clear text. -/
theorem Spells.keyword {kind : Kind} {rest : List Char} {words : List Word}
    (h : Spells rest words) (word : List Char) (hword : (String.ofList word, kind) ∈ Kind.keywords)
    (hclear : Clear rest) : Spells (word ++ rest) ((kind, String.ofList word) :: words) := by
  have hkind : kind ∈ Kind.keywords.map Prod.snd := List.mem_map.mpr ⟨_, hword, rfl⟩
  have whole := h.text (.keyword hword) (.inr (.inr (.inr hkind))) hclear
  rwa [String.toList_ofList] at whole

/-- A keyword with a space after it. -/
theorem Spells.keyword_spaced {kind : Kind} {rest : List Char} {words : List Word}
    (h : Spells rest words) (word : List Char)
    (hword : (String.ofList word, kind) ∈ Kind.keywords) :
    Spells (word ++ ' ' :: rest) ((kind, String.ofList word) :: words) :=
  h.space.keyword word hword (clear_space rest)

/-- A mark that nothing goes on. -/
theorem Spells.mark {c : Char} {kind : Kind} {rest : List Char} {words : List Word}
    (h : Spells rest words) (hmark : (c, kind) ∈ Kind.singleMarks ∧ kind ∈ freeMarks) :
    Spells (c :: rest) ((kind, String.ofList [c]) :: words) :=
  h.word (.single hmark.1) (mayPrecede_freeMark hmark.2 _ _)

/-- A lexeme with a space after it. -/
theorem Spells.spaced {kind : Kind} {rest : List Char} {words : List Word} (h : Spells rest words)
    (word : List Char) (hword : IsLexeme kind word) :
    Spells (word ++ ' ' :: rest) ((kind, String.ofList word) :: words) :=
  h.space.word hword (mayPrecede_space hword rest)

/-- Every token of a text has the spelling of its kind. -/
theorem Lexes.isLexeme {next text : List Char} {pos : Pos} {ts : List Token}
    (h : Lexes next pos text ts) : ∀ t ∈ ts, IsLexeme t.kind t.text.toList := by
  induction h with
  | gap => simp
  | token _ hword _ _ ih =>
    intro t ht
    rcases List.mem_cons.mp ht with rfl | ht
    · simpa using hword
    · exact ih t ht

end Lexical

end Quill
