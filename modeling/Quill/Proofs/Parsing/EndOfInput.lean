import Quill.Proofs.Lexical.Readings
import Quill.Proofs.Parsing.FirstError

/-!
# The end of the input, written or assumed

A token list may lack its end-of-input token. Reading such a list goes the way it goes with one put
after it, whatever the text and the position of that one are: the same program is found, or reading
stops at the same place for the same cause (`ofTokens_append_eof`). The only difference is the token
that an error names where all tokens are used up, the one put there or the stand-in.

The stand-in is placed where the last token ends. For the tokens of a source this is where the
cursor stood when it had read that token, so that nothing changes at all if the source ends with its
last token (`Token.standIn_of_scan`).
-/

set_option autoImplicit false

namespace Quill

/-! ## The stand-in of a source -/

namespace Token

open Cursor Lexical

/-- If no text is left after the last token of a source, the stand-in for the tokens before the end
of the input is that end. -/
theorem standIn_of_scan {source : String} {ts : List Token} (h : scan source = .ok ts)
    (hend : ((ofSource source).after ts.dropLast.length).rest = []) :
    ts = ts.dropLast ++ [standIn ts.dropLast] := by
  obtain ⟨us, pos, rfl, hfinished, hreadings⟩ := readings_of_tokens h
  rw [List.reverse_nil, List.nil_append, List.dropLast_concat] at hend ⊢
  -- nothing is passed before the end is found
  have hpos : pos = ((ofSource source).after us.length).pos := by
    obtain ⟨-, hpos⟩ := step_eq_finished_iff.mp hfinished
    rw [hpos, hend, Pos.advance_nil]
  rw [standIn]
  cases hlast : us.getLast? with
  | none =>
    obtain rfl := List.getLast?_eq_none_iff.mp hlast
    rw [hpos]
    rfl
  | some last =>
    have hne : us ≠ [] := by
      rintro rfl
      simp at hlast
    obtain ⟨k, hk⟩ := Nat.exists_eq_succ_of_ne_zero (List.length_pos_iff.mpr hne).ne'
    have hread := hreadings k (by omega)
    have hlast' : us[k] = last := by
      rw [List.getLast?_eq_getElem?, hk, Nat.succ_sub_one] at hlast
      exact (List.getElem?_eq_some_iff.mp hlast).2
    rw [hpos, hk, after_succ, ← endPos_of_next hread, hlast']

end Token

/-! ## Programs with and without the end of the input -/

namespace Program

open Grammar

/-- A list without an end-of-input token, and the same list with one put after it, are the same
program, or reading them stops at the same place for the same cause. -/
theorem ofTokens_append_eof {body : List Token} {last : Token}
    (hbody : ∀ t ∈ body, t.kind ≠ .eof) (hlast : last.kind = .eof) :
    (∃ tree, ofTokens body = .ok tree ∧ ofTokens (body ++ [last]) = .ok tree) ∨
      ∃ stop : Stop, (∀ t, stop.rest.head? = some t → t ∈ body) ∧
        ofTokens body = .error ⟨stop.cause, stop.token (Token.standIn body)⟩ ∧
        ofTokens (body ++ [last]) = .error ⟨stop.cause, stop.token last⟩ := by
  cases hread : Grammar.program body with
  | ok tree =>
    left
    refine ⟨tree, ofTokens_eq_ok_iff_program.mpr hread, ?_⟩
    rw [ofTokens_eq_ok_iff_program, program_append_eof_iff hlast]
    -- the list is what derives the program, since it has no end-of-input token to leave out
    obtain ⟨us, hus, rfl | ⟨other, hother, rfl⟩⟩ := program_eq_ok_iff.mp hread
    · exact hus
    · exact absurd hother (hbody other (by simp))
  | error stop =>
    right
    obtain ⟨used, hused, hlocal⟩ := program_error_local hread
    have hmem : ∀ t, stop.rest.head? = some t → t ∈ body := by
      intro t ht
      rw [hused]
      exact List.mem_append_right _ (List.mem_of_head? ht)
    refine ⟨stop, hmem, ofTokens_eq_error_iff.mpr ⟨stop, hread, rfl⟩, ?_⟩
    -- where the tokens are used up, the input ends with the token put there as it does without it
    have hahead : ahead (stop.rest ++ [last]) = ahead stop.rest := by
      cases hrest : stop.rest with
      | nil => exact hlast
      | cons t us => rfl
    have hread' := hlocal used (stop.rest ++ [last]) rfl hahead fun _ => by simp
    rw [← List.append_assoc, ← hused] at hread'
    refine ofTokens_eq_error_iff.mpr ⟨_, hread', ?_⟩
    cases hrest : stop.rest <;> simp [Stop.token, hrest]

/-- The end-of-input token may be left out of a token list. The program is the same, or the error
has the same category and wording and names the same token, unless it is about the end of the
input: it then names the token put there, or in its place one without text where the last token
ends. The tokens of a source end where the cursor stands that has read them, so that for a source
with no gap after its last token there is no difference. -/
theorem ofTokens_without_eof :
    (∀ (body : List Token) (last : Token), (∀ t ∈ body, t.kind ≠ .eof) → last.kind = .eof →
      (∃ tree, ofTokens body = .ok tree ∧ ofTokens (body ++ [last]) = .ok tree) ∨
      ∃ e e', ofTokens body = .error e ∧ ofTokens (body ++ [last]) = .error e' ∧
        e.kind = e'.kind ∧ e.message = e'.message ∧
        (e.token.kind ≠ .eof ∧ e'.token = e.token ∨
          e.token = ⟨.eof, "", (body.getLast?.map Token.endPos).getD ⟨1, 1⟩⟩ ∧
            e'.token = last)) ∧
    (∀ (source : String) (n : Nat) (token : Token),
      ((Cursor.ofSource source).after n).next.1 = .ok token →
        token.endPos = ((Cursor.ofSource source).after (n + 1)).pos) ∧
    ∀ (source : String) (ts : List Token), Token.scan source = .ok ts →
      ((Cursor.ofSource source).after ts.dropLast.length).rest = [] →
        ofTokens ts.dropLast = ofTokens ts := by
  refine ⟨fun body last hbody hlast => ?_, fun source n token h => ?_, fun source ts h hend => ?_⟩
  · refine (ofTokens_append_eof hbody hlast).imp id ?_
    rintro ⟨stop, hmem, hwithout, hwith⟩
    have hstandIn : Token.standIn body =
        ⟨.eof, "", (body.getLast?.map Token.endPos).getD ⟨1, 1⟩⟩ := by
      rw [Token.standIn]
      cases body.getLast? <;> rfl
    have hkind : (stop.token (Token.standIn body)).kind = (stop.token last).kind := by
      rw [stop.kind_token rfl, stop.kind_token hlast]
    refine ⟨_, _, hwithout, hwith, SyntaxError.kind_congr rfl hkind,
      SyntaxError.message_congr rfl hkind, ?_⟩
    -- at the end of the list the two errors name the stand-in and the token put there; before it
    -- they name one token
    cases hrest : stop.rest with
    | nil =>
      right
      simp [Stop.token, hrest, hstandIn]
    | cons t us =>
      left
      have ht : t.kind ≠ .eof := hbody t (hmem t (by rw [hrest]; rfl))
      simp [Stop.token, hrest, ht]
  · rw [Cursor.after_succ]
    exact Cursor.endPos_of_next h
  · have hbody : ∀ t ∈ ts.dropLast, t.kind ≠ .eof := by
      obtain ⟨us, hus, rfl⟩ := Lexical.tokens_eq_ok_iff.mp h
      rw [List.reverse_nil, List.nil_append, List.dropLast_concat]
      exact hus.kind_ne_eof
    have hlast : (Token.standIn ts.dropLast).kind = .eof := rfl
    -- the token at the end of the source is the one that stands in for it when it is left out
    have hboth := ofTokens_append_eof hbody hlast
    rw [← Token.standIn_of_scan h hend] at hboth
    rcases hboth with ⟨tree, hwithout, hwith⟩ | ⟨stop, -, hwithout, hwith⟩
    · rw [hwithout, hwith]
    · rw [hwithout, hwith]

/-- A source that ends with a literal over two lines, in which a semicolon is missing: the error is
about the end of the input, two columns after the start of the second line, whether or not the
tokens say where the input ends. -/
theorem ofTokens_without_eof_after_literal :
    ∃ ts, Token.scan "module m; let s: string = \"\n\"" = .ok ts ∧
      ofTokens ts = .error ⟨.expected .semicolon, ⟨.eof, "", ⟨2, 2⟩⟩⟩ ∧
      ofTokens ts.dropLast = .error ⟨.expected .semicolon, ⟨.eof, "", ⟨2, 2⟩⟩⟩ := by
  obtain ⟨-, -, hsource⟩ := ofTokens_without_eof
  have hscan : Token.scan "module m; let s: string = \"\n\"" = .ok
      [⟨.kwModule, "module", ⟨1, 1⟩⟩, ⟨.ident, "m", ⟨1, 8⟩⟩, ⟨.semicolon, ";", ⟨1, 9⟩⟩,
        ⟨.kwLet, "let", ⟨1, 11⟩⟩, ⟨.ident, "s", ⟨1, 15⟩⟩, ⟨.colon, ":", ⟨1, 16⟩⟩,
        ⟨.kwString, "string", ⟨1, 18⟩⟩, ⟨.assign, "=", ⟨1, 25⟩⟩,
        ⟨.string, "\"\n\"", ⟨1, 27⟩⟩, ⟨.eof, "", ⟨2, 2⟩⟩] := by
    decide +kernel
  refine ⟨_, hscan, by cbv, ?_⟩
  rw [hsource _ _ hscan (by decide +kernel)]
  cbv

end Program

end Quill
