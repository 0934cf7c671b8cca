import Mathlib.Data.List.Basic
import Quill.Proofs.Parsing.Lookahead.Programs
import Quill.Proofs.Parsing.Viable.Programs

/-!
# Errors are reported at the first wrong token

A token list that is no program has a token before which all is well and with which nothing can be
right any more: the tokens before it can be completed to a program (`program_error_viable`), and
with it every list fails as this one does (`program_error_local`). That token is reported, or the
stand-in if all tokens of the list are well (`ofTokens_error_at`).
-/

set_option autoImplicit false

namespace Quill

/-! ## Category and wording -/

namespace SyntaxError

/-- The category of an error depends on the cause and on the kind of the token. -/
theorem kind_congr {e e' : SyntaxError} (hcause : e.cause = e'.cause)
    (hkind : e.token.kind = e'.token.kind) : e.kind = e'.kind := by
  rw [kind, kind, hcause, hkind]

/-- The wording of an error depends on the cause and on the kind of the token. -/
theorem message_congr {e e' : SyntaxError} (hcause : e.cause = e'.cause)
    (hkind : e.token.kind = e'.token.kind) : e.message = e'.message := by
  rw [message, message, hcause, hkind]

end SyntaxError

/-- The kind of the token at which reading stops is the kind ahead: a stand-in ends the input. -/
theorem Stop.kind_token (stop : Stop) {standIn : Token} (h : standIn.kind = .eof) :
    (stop.token standIn).kind = Grammar.ahead stop.rest := by
  cases hrest : stop.rest with
  | nil => simp [Stop.token, hrest, h, Grammar.ahead]
  | cons t us => simp [Stop.token, hrest, Grammar.ahead]

/-! ## Where reading stops -/

namespace Grammar

/-- A program found is derived by the tokens used for it, and the input ends after them. -/
theorem findsProgram_eq_ok {ts rest : List Token} {tree : Program}
    (h : findsProgram ts = .ok (tree, rest)) :
    ahead rest = .eof ∧ ∃ used, ts = used ++ rest ∧ DerivesProgram used tree := by
  obtain ⟨name, us, hname, h⟩ := finds_bind_eq_ok_iff.mp h
  obtain ⟨imports, vs, himports, h⟩ := finds_bind_eq_ok_iff.mp h
  obtain ⟨items, ws, hitems, h⟩ := finds_bind_eq_ok_iff.mp h
  obtain ⟨rfl, rfl⟩ := Prod.mk.inj (Except.ok.inj h)
  obtain ⟨header, rfl, hheader⟩ := moduleHeader_explains _ _ _ hname
  obtain ⟨is, rfl, his⟩ := imports_explains _ _ _ himports
  obtain ⟨ds, rfl, hds⟩ := items_explains _ _ _ hitems
  refine ⟨(items_sound hitems).1, header ++ (is ++ ds), by simp, ?_⟩
  exact derivesProgram_of_parts hheader his hds

/-- A program is one that is found, with one token after it at most. -/
theorem program_eq_ok_iff_finds {ts : List Token} {tree : Program} :
    program ts = .ok tree ↔ ∃ rest, findsProgram ts = .ok (tree, rest) ∧ rest.length ≤ 1 := by
  rw [program_eq]
  cases findsProgram ts with
  | error other => simp [bind, Except.bind]
  | ok found =>
    obtain ⟨found, rest⟩ := found
    match rest with
    | [] | [last] => simp [bind, Except.bind, endOfInput]
    | last :: extra :: rest => simp [bind, Except.bind, endOfInput]

/-- Reading a program stops within the program, or at a token after the one that ends the input. -/
theorem program_eq_error_iff {ts : List Token} {stop : Stop} :
    program ts = .error stop ↔ findsProgram ts = .error stop ∨
      ∃ tree last extra rest, findsProgram ts = .ok (tree, last :: extra :: rest) ∧
        stop = ⟨.trailing, extra :: rest⟩ := by
  rw [program_eq]
  cases findsProgram ts with
  | error other => simp [bind, Except.bind]
  | ok found =>
    obtain ⟨tree, rest⟩ := found
    match rest with
    | [] | [last] => simp [bind, Except.bind, endOfInput]
    -- a token after the one that ends the input is the only thing that can still be wrong
    | last :: extra :: rest =>
      constructor
      · intro h
        obtain rfl := Except.error.inj h
        exact .inr ⟨tree, last, extra, rest, rfl, rfl⟩
      · rintro (h | ⟨_, _, _, _, h, rfl⟩)
        · exact nomatch h
        · obtain ⟨-, hrest⟩ := Prod.mk.inj (Except.ok.inj h)
          cases hrest
          rfl

/-- The tokens before the one at which reading stops can be completed to a program. -/
theorem program_error_viable {ts : List Token} {stop : Stop} (h : program ts = .error stop) :
    ∃ used more tree, ts = used ++ stop.rest ∧ program (used ++ more) = .ok tree := by
  rcases program_eq_error_iff.mp h with hwithin | ⟨tree, last, extra, rest, hfound, rfl⟩
  · obtain ⟨used, more, tree, hused, htree⟩ :=
      (viable_findsProgram (ts.length + 1)).error ts stop (Nat.lt_succ_self _) hwithin
    exact ⟨used, more, tree, hused, program_eq_ok_iff.mpr ⟨_, htree, .inl rfl⟩⟩
  · -- the token that ends the input stands last, once those after it are gone
    obtain ⟨hend, used, rfl, htree⟩ := findsProgram_eq_ok hfound
    refine ⟨used ++ [last], [], tree, by simp, program_eq_ok_iff.mpr ⟨used, htree, .inr ?_⟩⟩
    exact ⟨last, hend, by simp⟩

/-- Reading stops in the same way wherever tokens of the same kinds have been used and a token of
the same kind is ahead. -/
theorem program_error_local {ts : List Token} {stop : Stop} (h : program ts = .error stop) :
    ∃ used, ts = used ++ stop.rest ∧ ∀ used' rest',
      used'.map Token.kind = used.map Token.kind → ahead rest' = ahead stop.rest →
        (stop.cause = .trailing → rest' ≠ []) →
          program (used' ++ rest') = .error ⟨stop.cause, rest'⟩ := by
  have hstep := inStep_findsProgram (ts.length + 1)
  rcases program_eq_error_iff.mp h with hwithin | ⟨tree, last, extra, rest, hfound, rfl⟩
  · obtain ⟨used, hused, hsame⟩ := hstep.error ts stop (Nat.lt_succ_self _) hwithin
    refine ⟨used, hused, fun used' rest' hkinds hahead _ => ?_⟩
    exact program_eq_error_iff.mpr (.inl (hsame used' rest' hkinds hahead))
  · obtain ⟨used, hused, hsame⟩ := hstep.ok ts tree _ (Nat.lt_succ_self _) hfound
    refine ⟨used ++ [last], by simp [hused], fun used' rest' hkinds _ hrest' => ?_⟩
    -- the token that ends the input is the last one used, and another one follows it
    obtain ⟨front, back, rfl, hfront, hback⟩ :=
      List.map_eq_append_iff.mp (hkinds.trans List.map_append)
    obtain ⟨last', back, rfl, hlast, hback⟩ := List.map_eq_cons_iff.mp hback
    obtain rfl := List.map_eq_nil_iff.mp hback
    obtain ⟨extra', more, rfl⟩ := List.exists_cons_of_ne_nil (hrest' rfl)
    obtain ⟨tree', -, hfound'⟩ := hsame front (last' :: extra' :: more) hfront hlast
    rw [List.append_assoc]
    exact program_eq_error_iff.mpr (.inr ⟨tree', last', extra', more, hfound', rfl⟩)

end Grammar

namespace Program

open Grammar

/-- An error of the parser is a stop of the reader, with the token that the stop is at. -/
theorem ofTokens_eq_error_iff {ts : List Token} {e : SyntaxError} :
    ofTokens ts = .error e ↔ ∃ stop, Grammar.program ts = .error stop ∧
      e = ⟨stop.cause, stop.token (Token.standIn ts)⟩ := by
  rw [ofTokens]
  cases Grammar.program ts <;> simp [eq_comm]

/-- A syntax error is reported at the first wrong token, at place `i`: the tokens before it can be
completed to a program, and no list that goes on with it is one. All such lists have the same
error. -/
theorem ofTokens_error_at {ts : List Token} {e : SyntaxError} (h : ofTokens ts = .error e) :
    ∃ i ≤ ts.length, e.token = ts[i]?.getD (Token.standIn ts) ∧
      (∃ more program, ofTokens (ts.take i ++ more) = .ok program) ∧
      (i < ts.length → ∀ more, ofTokens (ts.take (i + 1) ++ more) = .error e) := by
  obtain ⟨stop, hstop, rfl⟩ := ofTokens_eq_error_iff.mp h
  obtain ⟨used, more, tree, hused, htree⟩ := program_error_viable hstop
  obtain ⟨used', hused', hlocal⟩ := program_error_local hstop
  obtain rfl := List.append_cancel_right (hused.symm.trans hused')
  -- the token at which reading stops is the one after those used
  have hat : ts[used.length]? = stop.rest.head? := by
    rw [hused, List.getElem?_append_right (Nat.le_refl _), Nat.sub_self, List.head?_eq_getElem?]
  refine ⟨used.length, by simp [hused], ?_, ⟨more, tree, ?_⟩, fun hlt more => ?_⟩
  · rw [hat, Stop.token]
  · rw [ofTokens_eq_ok_iff_program, hused, List.take_left]
    exact htree
  · obtain ⟨t, rest, hrest⟩ : ∃ t rest, stop.rest = t :: rest := by
      apply List.exists_cons_of_ne_nil
      rintro hnil
      rw [hused, hnil, List.append_nil] at hlt
      exact Nat.lt_irrefl _ hlt
    have htake : ts.take (used.length + 1) ++ more = used ++ t :: more := by
      rw [hused, hrest, List.take_length_add_append]
      simp
    have hahead : ahead (t :: more) = ahead stop.rest := by rw [hrest, ahead, ahead]
    have hstop' := hlocal used (t :: more) rfl hahead fun _ => List.cons_ne_nil _ _
    rw [htake, ofTokens_eq_error_iff]
    exact ⟨_, hstop', by simp [Stop.token, hrest]⟩

/-- A number is called: up to the opening parenthesis this can still become a program, and with it
nothing can. -/
theorem ofTokens_error_at_call :
    let ts : List Token := [⟨.kwModule, "module", ⟨1, 1⟩⟩, ⟨.ident, "m", ⟨1, 8⟩⟩,
      ⟨.semicolon, ";", ⟨1, 9⟩⟩, ⟨.kwLet, "let", ⟨1, 11⟩⟩, ⟨.ident, "x", ⟨1, 15⟩⟩,
      ⟨.colon, ":", ⟨1, 16⟩⟩, ⟨.kwInt, "int", ⟨1, 18⟩⟩, ⟨.assign, "=", ⟨1, 22⟩⟩,
      ⟨.number, "1", ⟨1, 24⟩⟩, ⟨.lparen, "(", ⟨1, 25⟩⟩, ⟨.rparen, ")", ⟨1, 26⟩⟩]
    (∃ more program, ofTokens (ts.take 9 ++ more) = .ok program) ∧
      ∀ more, ofTokens (ts.take 10 ++ more) = .error ⟨.callTarget, ⟨.lparen, "(", ⟨1, 25⟩⟩⟩ := by
  intro ts
  have herror : ofTokens ts = .error ⟨.callTarget, ⟨.lparen, "(", ⟨1, 25⟩⟩⟩ := by cbv
  obtain ⟨i, hi, htoken, hviable, hlocal⟩ := ofTokens_error_at herror
  -- no other token of the list is the one reported
  have hplace : ∀ i ≤ ts.length, (⟨.lparen, "(", ⟨1, 25⟩⟩ : Token) =
      ts[i]?.getD (Token.standIn ts) → i = 9 := by
    decide
  obtain rfl := hplace i hi htoken
  exact ⟨hviable, hlocal (by decide)⟩

end Program

end Quill
