import Quill.Proofs.Lexical.FirstFault
import Quill.Proofs.Lexical.Spelling
import Quill.Proofs.Report.Documents

/-!
# Token tables are told apart

A token table escapes nothing, and a string literal may break its row or hold what looks like rows.
Even so the table of a source determines the tokens that it shows (`Command.token_tables_faithful`).

A row tells where each of its cells ends, whatever stands after the row (`isPrefixCode_tokenRow`).

* The name of a kind has no space, and a space follows it.
* The text is a lexeme, and a lexeme with a space after it is read as it is: this holds of a literal
  with line feeds as well. Only the end of the input has an empty text, and its kind tells it apart.
* A number has neither spaces nor the mark that follows it.
-/

set_option autoImplicit false

namespace Quill

open Lexical Report

/-- A token as reading a source gives it: a lexeme of its kind, or the end of the input. -/
def Token.IsRead (token : Token) : Prop :=
  IsLexeme token.kind token.text.toList ∨ token.kind = .eof ∧ token.text = ""

/-- The tokens that the table of a source shows: all of them, or those before the fault. -/
def Token.shown (source : String) : List Token :=
  match scan source with
  | .ok tokens => tokens
  | .error error => error.tokens

/-! ## Cells -/

namespace Report

/-- What fills a column are spaces. -/
theorem toList_filler (width : Nat) (text : String) :
    (filler width text).toList = List.replicate (width - text.length) ' ' := by
  rw [filler, String.toList_ofList]

/-- After a text at the left of a column comes a space, if one comes after the column. -/
theorem toList_padRight_append (width : Nat) (text : String) (rest : List Char) :
    (padRight width text).toList ++ ' ' :: rest =
      text.toList ++ ' ' :: ((filler width text).toList ++ rest) := by
  have hspaces : ∀ n,
      List.replicate n ' ' ++ ' ' :: rest = ' ' :: (List.replicate n ' ' ++ rest) := by
    intro n
    rw [List.append_cons, ← List.replicate_succ', List.replicate_succ, List.cons_append]
  rw [padRight, String.toList_append, List.append_assoc, toList_filler, hspaces]

/-- The names of kinds have no spaces. -/
theorem name_space_not_mem (kind : Kind) : ' ' ∉ kind.name.toList := by
  cases kind <;> decide

/-- The name of a kind is read off its cell. -/
theorem kind_of_cell {kind kind' : Kind} {width : Nat} {s t : List Char}
    (h : (padRight width kind.name).toList ++ ' ' :: s =
      (padRight width kind'.name).toList ++ ' ' :: t) : kind = kind' ∧ s = t := by
  rw [toList_padRight_append, toList_padRight_append] at h
  have hname := eq_of_append_cons (name_space_not_mem kind) (name_space_not_mem kind') h
  obtain rfl := (Kind.name_inj kind kind').mp (String.toList_injective hname)
  exact ⟨rfl, by simpa using h⟩

/-- A lexeme with a space after it is read as it is, so that its end is seen. -/
theorem lexeme_of_spaced {kind kind' : Kind} {word word' : List Char} {s t : List Char}
    (hword : IsLexeme kind word) (hword' : IsLexeme kind' word')
    (h : word ++ ' ' :: s = word' ++ ' ' :: t) : word = word' := by
  obtain ⟨c, cs, hc⟩ := List.exists_cons_of_ne_nil hword.ne_nil
  have hread := classify_complete hword (mayPrecede_space hword s) (by rw [hc, List.cons_append])
  have hread' := classify_complete hword' (mayPrecede_space hword' t)
    (h.symm.trans (by rw [hc, List.cons_append]))
  exact congrArg Lexeme.text (hread.symm.trans hread')

/-- The text of a token is read off its cell, once the kind is known. -/
theorem text_of_cell {token token' : Token} {width : Nat} {s t : List Char} (hread : token.IsRead)
    (hread' : token'.IsRead) (hkind : token.kind = token'.kind)
    (h : (padRight width token.text).toList ++ ' ' :: s =
      (padRight width token'.text).toList ++ ' ' :: t) : token.text = token'.text ∧ s = t := by
  have htext : token.text = token'.text := by
    rcases hread with hword | ⟨heof, hempty⟩ <;> rcases hread' with hword' | ⟨heof', hempty'⟩
    · rw [toList_padRight_append, toList_padRight_append] at h
      exact String.toList_injective (lexeme_of_spaced hword hword' h)
    -- no lexeme is of the kind that ends the input
    · exact absurd (hkind.trans heof') hword.kind_ne_eof
    · exact absurd (hkind.symm.trans heof) hword'.kind_ne_eof
    · rw [hempty, hempty']
  rw [htext] at h
  exact ⟨htext, by simpa using h⟩

/-- A number is read off its cell, if no digit stands after the cell. -/
theorem number_of_cell {m n width : Nat} {mark : Char} (hmark : mark.isDigit = false)
    {s t : List Char} (h : (padLeft width (toString m)).toList ++ mark :: s =
      (padLeft width (toString n)).toList ++ mark :: t) : m = n ∧ s = t := by
  have hfree : ∀ k : Nat, mark ∉ (toString k).toList := by
    intro k hmem
    rw [Json.isDigit_of_mem_toString hmem] at hmark
    exact Bool.noConfusion hmark
  have hhead : ∀ (k : Nat) (rest : List Char), ((toString k).toList ++ rest).head? ≠ some ' ' := by
    intro k rest
    obtain ⟨c, cs, hdigits⟩ := List.exists_cons_of_ne_nil
      (show (toString k).toList ≠ [] from fun hnil => by
        rw [String.toList_eq_nil_iff] at hnil
        exact Nat.repr_ne_empty hnil)
    rw [hdigits, List.cons_append, List.head?_cons]
    intro hspace
    obtain rfl := Option.some.inj hspace
    exact absurd (Json.isDigit_of_mem_toString (hdigits ▸ List.mem_cons_self)) (by decide)
  rw [padLeft, padLeft, String.toList_append, String.toList_append, List.append_assoc,
    List.append_assoc, toList_filler, toList_filler] at h
  -- the number starts where the spaces end, and it ends where its mark stands
  obtain ⟨-, hdigits⟩ := replicate_append_inj (hhead m _) (hhead n _) h
  have hsame := eq_of_append_cons (hfree m) (hfree n) hdigits
  obtain rfl := Json.toString_inj (String.toList_injective hsame)
  exact ⟨rfl, by simpa using hdigits⟩

/-! ## Rows -/

/-- A row, cell by cell. -/
theorem toList_tokenRow (token : Token) (rest : List Char) :
    (tokenRow token).toList ++ rest =
      (padRight 15 token.kind.name).toList ++ ' ' :: ('|' :: ' ' ::
        ((padRight 25 token.text).toList ++ ' ' :: ("| Line ".toList ++
          ((padLeft 3 (toString token.pos.line)).toList ++ ',' :: (" Col ".toList ++
            ((padLeft 3 (toString token.pos.column)).toList ++ '\n' :: rest)))))) := by
  simp [tokenRow]

/-- Rows of tokens that were read are told apart, whatever stands after them. -/
theorem isPrefixCode_tokenRow :
    IsPrefixCode Token.IsRead fun token => (tokenRow token).toList := by
  intro token token' hread hread' s t h
  rw [toList_tokenRow, toList_tokenRow] at h
  obtain ⟨hkind, h⟩ := kind_of_cell h
  obtain ⟨htext, h⟩ := text_of_cell hread hread' hkind (List.cons.inj (List.cons.inj h).2).2
  obtain ⟨hline, h⟩ := number_of_cell (by decide) (List.append_cancel_left h)
  obtain ⟨hcolumn, -⟩ := number_of_cell (by decide) (List.append_cancel_left h)
  obtain ⟨kind, text, line, column⟩ := token
  obtain ⟨kind', text', line', column'⟩ := token'
  simp only at hkind htext hline hcolumn
  rw [hkind, htext, hline, hcolumn]

/-- A table determines the tokens that it shows. -/
theorem tokenTable_inj {tokens tokens' : List Token} (hread : ∀ token ∈ tokens, token.IsRead)
    (hread' : ∀ token ∈ tokens', token.IsRead) (h : tokenTable tokens = tokenTable tokens') :
    tokens = tokens' := by
  have hrow : ∀ (token : Token) (rest : List Char), token.IsRead →
      (tokenRow token).toList ++ rest ≠ [] := by
    intro token rest _
    simp [tokenRow]
  have hflat : tokens.flatMap (fun token => (tokenRow token).toList) ++ [] =
      tokens'.flatMap (fun token => (tokenRow token).toList) ++ [] := by
    simpa [tokenTable, List.flatMap_map] using congrArg String.toList h
  exact (isPrefixCode_tokenRow.flatMap hrow hrow hread hread' hflat).1

end Report

/-! ## What is shown -/

namespace Token

/-- All tokens of a source were read, and the last of them ends the input. -/
theorem isRead_of_scan {source : String} {tokens : List Token} (h : scan source = .ok tokens) :
    (∀ token ∈ tokens, token.IsRead) ∧ ∃ token ∈ tokens, token.kind = .eof := by
  obtain ⟨read, hread, rfl⟩ := (scan_eq_ok_iff source tokens).mp h
  refine ⟨fun token htoken => ?_, _, List.mem_append_right _ List.mem_cons_self, rfl⟩
  rcases List.mem_append.mp htoken with hmem | hmem
  · exact .inl (hread.isLexeme token hmem)
  · rw [List.mem_singleton.mp hmem]
    exact .inr ⟨rfl, rfl⟩

/-- The tokens before a fault are lexemes. -/
theorem isLexeme_of_scan_error {source : String} {e : LexicalError} (h : scan source = .error e) :
    ∀ token ∈ e.tokens, IsLexeme token.kind token.text.toList := by
  obtain ⟨text, rest, read, -, hread, htokens, -⟩ := tokens_eq_error h
  intro token htoken
  rw [htokens, List.reverse_nil, List.nil_append] at htoken
  exact hread.isLexeme token htoken

theorem isRead_of_mem_shown {source : String} : ∀ token ∈ shown source, token.IsRead := by
  intro token htoken
  rw [shown] at htoken
  cases hscan : scan source with
  | ok tokens =>
    rw [hscan] at htoken
    exact (isRead_of_scan hscan).1 token htoken
  | error error =>
    rw [hscan] at htoken
    exact .inl (isLexeme_of_scan_error hscan token htoken)

end Token

namespace Command

theorem out_lex_pretty (source : String) :
    (lex .pretty source).out = Report.tokenTable (Token.shown source) := by
  rw [lex, Token.shown]
  cases Token.scan source <;> rfl

/-- A source is accepted exactly if the end of its input is shown. -/
theorem accepted_lex_pretty_iff (source : String) :
    (lex .pretty source).accepted = true ↔ ∃ token ∈ Token.shown source, token.kind = .eof := by
  rw [lex, Token.shown]
  cases hscan : Token.scan source with
  | ok tokens => exact ⟨fun _ => (Token.isRead_of_scan hscan).2, fun _ => rfl⟩
  | error error =>
    constructor
    · intro h
      exact absurd h Bool.false_ne_true
    · rintro ⟨token, htoken, heof⟩
      exact absurd heof (Token.isLexeme_of_scan_error hscan token htoken).kind_ne_eof

/-- The tokens of a source can be read off its table: sources with the same table show the same
tokens, with their kinds, texts and positions, and both are accepted or neither is. -/
theorem token_tables_faithful {source source' : String}
    (h : (lex .pretty source).out = (lex .pretty source').out) :
    Token.shown source = Token.shown source' ∧
      (lex .pretty source).accepted = (lex .pretty source').accepted := by
  rw [out_lex_pretty, out_lex_pretty] at h
  have hshown := tokenTable_inj Token.isRead_of_mem_shown Token.isRead_of_mem_shown h
  refine ⟨hshown, ?_⟩
  rw [Bool.eq_iff_iff, accepted_lex_pretty_iff, accepted_lex_pretty_iff, hshown]

/-- A tab and a space are one column each, so a literal that looks like the rest of its row and the
row after it has the same table after either. The literal is shown as one token. -/
theorem token_tables_faithful_broken_literal :
    let literal := "\"a | Line   1, Col   1\nEOF\""
    (lex .pretty (" " ++ literal ++ "&")).out = (lex .pretty ("\t" ++ literal ++ "|")).out ∧
      Token.shown (" " ++ literal ++ "&") = [⟨.string, literal, ⟨1, 2⟩⟩] ∧
      Token.shown (" " ++ literal ++ "&") = Token.shown ("\t" ++ literal ++ "|") := by
  intro literal
  have hsame : (lex .pretty (" " ++ literal ++ "&")).out =
      (lex .pretty ("\t" ++ literal ++ "|")).out := by
    decide +kernel
  exact ⟨hsame, by decide +kernel, (token_tables_faithful hsame).1⟩

end Command

end Quill
