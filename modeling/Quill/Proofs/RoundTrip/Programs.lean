import Mathlib.Logic.Basic
import Quill.Proofs.Lexical.Scan
import Quill.Proofs.Parsing.Programs
import Quill.Proofs.RoundTrip.Derivation
import Quill.Proofs.RoundTrip.Derived
import Quill.Proofs.RoundTrip.Printing

/-!
# Reading the canonical text of a program

A source is a program exactly if its tokens, without the end-of-input token, derive that program
(`reads_iff`). Two facts decide which programs come back from their canonical texts:

* the text of a well-formed program spells words that derive it (`Program.WellFormed.reads`);
* whatever is derived by the tokens of some text is well formed (`wellFormed_of_reads`).

So a program that was read from any source comes back from its canonical text
(`Program.canonical_reads_back`), and a program whatsoever does exactly if it is well formed
(`Program.reads_canonical_iff`).
-/

set_option autoImplicit false

namespace Quill

open Lexical Grammar

/-! ## Reading a source -/

/-- A source is a program exactly if its tokens derive the program. -/
theorem reads_iff {source : String} {program : Program} :
    (∃ ts, Token.scan source = .ok ts ∧ Program.ofTokens ts = .ok program) ↔
      ∃ us, Lexes [] Pos.start source.toList us ∧ DerivesProgram us program := by
  constructor
  · rintro ⟨ts, hscan, hread⟩
    obtain ⟨us, hus, rfl⟩ := tokens_eq_ok_iff.mp hscan
    refine ⟨us, hus, ?_⟩
    rwa [Program.ofTokens_eq_ok_iff_program, List.reverse_nil, List.nil_append,
      program_append_eof_iff rfl] at hread
  · rintro ⟨us, hus, hderives⟩
    refine ⟨_, tokens_eq_ok_iff.mpr ⟨us, hus, rfl⟩, ?_⟩
    rwa [Program.ofTokens_eq_ok_iff_program, List.reverse_nil, List.nil_append,
      program_append_eof_iff rfl]

/-- What is derived by the tokens of a text is well formed. -/
theorem wellFormed_of_reads {source : String} {ts : List Token} {program : Program}
    (hscan : Token.scan source = .ok ts) (hread : Program.ofTokens ts = .ok program) :
    program.WellFormed := by
  obtain ⟨us, hus, hderives⟩ := reads_iff.mp ⟨ts, hscan, hread⟩
  exact hderives.wellFormed hus.isLexeme

/-- The canonical text of a well-formed program is that program. -/
theorem Program.WellFormed.reads {program : Program} (h : program.WellFormed) :
    ∃ ts, Token.scan program.canonical = .ok ts ∧ Program.ofTokens ts = .ok program := by
  obtain ⟨us, hus, hwords⟩ := h.spells Pos.start
  exact reads_iff.mpr ⟨us, hus, derivesProgram_of_words h hwords⟩

/-! ## Reading again -/

namespace Program

/-- A program that was read from a source is read again from its canonical text, unchanged. -/
theorem canonical_reads_back {source : String} {ts : List Token} {program : Program}
    (hscan : Token.scan source = .ok ts) (hread : ofTokens ts = .ok program) :
    ∃ again, Token.scan program.canonical = .ok again ∧ ofTokens again = .ok program :=
  (wellFormed_of_reads hscan hread).reads

/-- A source on one line, with a type in parentheses that its canonical text is without. -/
theorem canonical_reads_back_grouped_type :
    ∃ ts program, Token.scan "module m; let x: (int) = -1;" = .ok ts ∧
      ofTokens ts = .ok program ∧
      ∃ again, Token.scan program.canonical = .ok again ∧ ofTokens again = .ok program := by
  let ts : List Token := [⟨.kwModule, "module", ⟨1, 1⟩⟩, ⟨.ident, "m", ⟨1, 8⟩⟩,
    ⟨.semicolon, ";", ⟨1, 9⟩⟩, ⟨.kwLet, "let", ⟨1, 11⟩⟩, ⟨.ident, "x", ⟨1, 15⟩⟩,
    ⟨.colon, ":", ⟨1, 16⟩⟩, ⟨.lparen, "(", ⟨1, 18⟩⟩, ⟨.kwInt, "int", ⟨1, 19⟩⟩,
    ⟨.rparen, ")", ⟨1, 22⟩⟩, ⟨.assign, "=", ⟨1, 24⟩⟩, ⟨.minus, "-", ⟨1, 26⟩⟩,
    ⟨.number, "1", ⟨1, 27⟩⟩, ⟨.semicolon, ";", ⟨1, 28⟩⟩, ⟨.eof, "", ⟨1, 29⟩⟩]
  have found : (Token.scan "module m; let x: (int) = -1;").toOption = some ts := by
    decide +kernel
  have hscan : Token.scan "module m; let x: (int) = -1;" = .ok ts := by
    cases h : Token.scan "module m; let x: (int) = -1;" with
    | ok us =>
      rw [h] at found
      exact congrArg Except.ok (Option.some.inj found)
    | error error =>
      rw [h] at found
      exact absurd found (by simp [Except.toOption])
  have hread : ofTokens ts =
      .ok ⟨⟨["m"]⟩, [], [.letDecl ⟨"x", .named "int", some (.unary .neg (.number "1"))⟩]⟩ := by
    cbv
  exact ⟨ts, _, hscan, hread, canonical_reads_back hscan hread⟩

/-- Exactly the well-formed programs are read again from their canonical texts. -/
theorem reads_canonical_iff (program : Program) :
    (∃ ts, Token.scan program.canonical = .ok ts ∧ ofTokens ts = .ok program) ↔
      program.WellFormed := by
  constructor
  · rintro ⟨ts, hscan, hread⟩
    exact wellFormed_of_reads hscan hread
  · intro h
    exact h.reads

end Program

end Quill
