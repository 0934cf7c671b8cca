import Quill.Proofs.Lexical.Readings
import Quill.Proofs.Parsing.Causes
import Quill.Proofs.Parsing.Composition

/-!
# Incomplete, over-long and wrong input

The category of a syntax error says what can be done about it (`ofTokens_error_kinds`).

* Something stands after the end of the input: a program was complete before it.
* The input ends too early: without an end-of-input token, exactly such lists can be completed.
* A call is wrong: what is called is a literal, ends in a parenthesis or bracket, or is a member.

The end-of-input token is part of no rule (`DerivesProgram.eofFree`), so a program ends before the
first one.
-/

set_option autoImplicit false

namespace Quill

/-! ## Rules and the end of the input -/

namespace Grammar

/-- No token of the list ends the input. -/
def EofFree (us : List Token) : Prop :=
  ∀ t ∈ us, t.kind ≠ .eof

@[simp] theorem eofFree_nil : EofFree [] :=
  fun _ ht => absurd ht List.not_mem_nil

@[simp] theorem eofFree_cons {t : Token} {us : List Token} :
    EofFree (t :: us) ↔ t.kind ≠ .eof ∧ EofFree us :=
  List.forall_mem_cons

@[simp] theorem eofFree_append {us vs : List Token} :
    EofFree (us ++ vs) ↔ EofFree us ∧ EofFree vs :=
  List.forall_mem_append

/-- Parts free of an end of input are so all together. -/
theorem eofFree_flatMap {α : Type} {parts : List (List Token × α)}
    (h : ∀ part ∈ parts, EofFree part.1) : EofFree (parts.flatMap Prod.fst) := by
  intro t ht
  obtain ⟨part, hpart, ht⟩ := List.mem_flatMap.mp ht
  exact h part hpart t ht

/-- The commas between parts are no end of input either. -/
theorem CommaJoined.eofFree {α : Type} {parts : List (List Token × α)} {us : List Token}
    (h : CommaJoined parts us) (hparts : ∀ part ∈ parts, EofFree part.1) : EofFree us := by
  induction h with
  | none => exact eofFree_nil
  | one => exact hparts _ List.mem_cons_self
  | more hcomma _ ih =>
    obtain ⟨hfirst, hothers⟩ := List.forall_mem_cons.mp hparts
    simp [hfirst, hcomma, ih hothers]

theorem DerivesSegments.eofFree {us : List Token} {names : List String}
    (h : DerivesSegments us names) : EofFree us := by
  induction h with
  | one hname => simp [hname]
  | more hname hdot _ ih => simp [hname, hdot, ih]

theorem DerivesType.eofFree {rule : TypeRule} {us : List Token} {type : TypeExpr}
    (h : DerivesType rule us type) : EofFree us := by
  induction h with
  | simple _ ih => exact ih
  | array _ hopening hclosing ih => simp [ih, hopening, hclosing]
  | builtIn hname => rcases hname with h | h | h <;> simp [h]
  | segments hus => exact hus.eofFree
  | group hopening _ hclosing ih => simp [ih, hopening, hclosing]

theorem DerivesBinder.eofFree {us : List Token} {binding : Binder} (h : DerivesBinder us binding) :
    EofFree us := by
  cases h with
  | intro hname hcolon htype => simp [hname, hcolon, htype.eofFree]

theorem DerivesExpr.eofFree {level : Nat} {us : List Token} {expr : Expr}
    (h : DerivesExpr level us expr) : EofFree us := by
  induction h with
  | lift _ ih => exact ih
  | assign _ hsign _ ihtarget ihvalue => simp [ihtarget, hsign, ihvalue]
  | @binary _ _ sign _ _ _ _ hop _ ihlhs ihrhs =>
    have hsign : sign.kind ≠ .eof := by
      intro heof
      rw [heof] at hop
      exact nomatch hop
    simp [ihlhs, hsign, ihrhs]
  | @unary _ sign _ _ hop _ ih =>
    have hsign : sign.kind ≠ .eof := by
      intro heof
      rw [heof] at hop
      exact nomatch hop
    simp [hsign, ih]
  | call _ hopening hjoined _ hclosing ih ihargs =>
    simp [ih, hopening, hjoined.eofFree ihargs, hclosing]
  | index _ hopening _ hclosing iharray ihposition =>
    simp [iharray, hopening, ihposition, hclosing]
  | member _ hdot hname ih => simp [ih, hdot, hname]
  | var hname => simp [hname]
  | number hliteral => simp [hliteral]
  | string hliteral => simp [hliteral]
  | kwTrue hliteral => simp [hliteral]
  | kwFalse hliteral => simp [hliteral]
  | paren hopening _ hclosing ih => simp [ih, hopening, hclosing]

theorem DerivesLet.eofFree {us : List Token} {decl : LetDecl} (h : DerivesLet us decl) :
    EofFree us := by
  cases h with
  | bare hkeyword hbinder hclosing => simp [hkeyword, hbinder.eofFree, hclosing]
  | valued hkeyword hbinder hsign hvalue hclosing =>
    simp [hkeyword, hbinder.eofFree, hsign, hvalue.eofFree, hclosing]

theorem DerivesCondition.eofFree {us : List Token} {value : Expr}
    (h : DerivesCondition us value) : EofFree us := by
  cases h with
  | intro hopening hvalue hclosing => simp [hopening, hvalue.eofFree, hclosing]

theorem DerivesStmt.eofFree {us : List Token} {stmt : Stmt} (h : DerivesStmt us stmt) :
    EofFree us := by
  induction h with
  | letDecl hdecl => exact hdecl.eofFree
  | expr hvalue hclosing => simp [hvalue.eofFree, hclosing]
  | ifThen hkeyword hcondition _ ih => simp [hkeyword, hcondition.eofFree, ih]
  | ifElse hkeyword hcondition _ _ hother _ ihbody ihalternative =>
    simp [hkeyword, hcondition.eofFree, ihbody, hother, ihalternative]
  | whileDo hkeyword hcondition _ ih => simp [hkeyword, hcondition.eofFree, ih]
  | leave hkeyword hclosing => simp [hkeyword, hclosing]
  | ret hkeyword hvalue hclosing => simp [hkeyword, hvalue.eofFree, hclosing]
  | block hopening _ hclosing ih => simp [hopening, eofFree_flatMap ih, hclosing]

theorem DerivesImport.eofFree {us : List Token} {decl : Import} (h : DerivesImport us decl) :
    EofFree us := by
  cases h with
  | bare hkeyword hpath hclosing => simp [hkeyword, hpath.eofFree, hclosing]
  | renamed hkeyword hpath hsign hname hclosing =>
    simp [hkeyword, hpath.eofFree, hsign, hname, hclosing]

/-- A list of names with types has no end of input in it. -/
theorem eofFree_binders {parts : List (List Token × Binder)} {inner : List Token}
    (h : CommaJoined parts inner) (hparts : ∀ part ∈ parts, DerivesBinder part.1 part.2) :
    EofFree inner :=
  h.eofFree fun part hpart => (hparts part hpart).eofFree

theorem DerivesItem.eofFree {us : List Token} {item : Item} (h : DerivesItem us item) :
    EofFree us := by
  cases h with
  | typeAlias hkeyword hname hsign htype hclosing =>
    simp [hkeyword, hname, hsign, htype.eofFree, hclosing]
  | struct hkeyword hname hopening hjoined hfields hlast hclosing =>
    simp [hkeyword, hname, hopening, eofFree_binders hjoined hfields, hlast, hclosing]
  | const hkeyword hbinder hsign hvalue hclosing =>
    simp [hkeyword, hbinder.eofFree, hsign, hvalue.eofFree, hclosing]
  | procedure hkeyword hname hopening hjoined hparams hlast hblock =>
    simp [hkeyword, hname, hopening, eofFree_binders hjoined hparams, hlast, hblock.eofFree]
  | function hkeyword hname hopening hjoined hparams hlast harrow hresult hblock =>
    simp [hkeyword, hname, hopening, eofFree_binders hjoined hparams, hlast, harrow,
      hresult.eofFree, hblock.eofFree]
  | letDecl hdecl => exact hdecl.eofFree

/-- The end-of-input token is part of no rule. -/
theorem DerivesProgram.eofFree {us : List Token} {tree : Program} (h : DerivesProgram us tree) :
    EofFree us := by
  obtain @⟨us, keyword, closing, segments, imports, items, hkeyword, hus, hclosing, his, hds⟩ := h
  have himports := eofFree_flatMap fun decl hdecl => (his decl hdecl).eofFree
  have hitems := eofFree_flatMap fun item hitem => (hds item hitem).eofFree
  simp [hkeyword, hus.eofFree, hclosing, himports, hitems]

/-! ## What is wrongly called -/

/-- The last tokens of an expression that suffixes may follow, unless it is a plain name: a literal,
a closing parenthesis or bracket, or the name of a member with its dot. -/
def EndsUncallable (us : List Token) : Prop :=
  ∃ init last, us = init ++ [last] ∧
    (last.kind ∈ [.number, .string, .kwTrue, .kwFalse, .rparen, .rbracket] ∨
      last.kind = .ident ∧ ∃ front dot, init = front ++ [dot] ∧ dot.kind = .dot)

/-- Tokens that end with one of these kinds end in something else than a plain name. -/
theorem endsUncallable_of_mem (init : List Token) {last : Token}
    (h : last.kind ∈ [.number, .string, .kwTrue, .kwFalse, .rparen, .rbracket]) :
    EndsUncallable (init ++ [last]) :=
  ⟨init, last, rfl, .inl h⟩

/-- An expression that suffixes may follow ends in a literal, a closing mark or a member, unless it
is a plain name. -/
theorem DerivesExpr.endsUncallable {level : Nat} {us : List Token} {head : Expr}
    (h : DerivesExpr level us head) (hlevel : 8 ≤ level) (hvar : ∀ name, head ≠ .var name) :
    EndsUncallable us := by
  -- the rules of earlier levels are ruled out by the level
  induction h with
  | lift _ ih => exact ih (Nat.le_succ_of_le hlevel) hvar
  | assign => exact absurd hlevel (by decide)
  | @binary _ _ _ op =>
    have hop := op.level_le
    omega
  | unary => exact absurd hlevel (by decide)
  | @call us inner opening closing _ _ _ _ _ _ hclosing =>
    have hend : EndsUncallable ((us ++ opening :: inner) ++ [closing]) :=
      endsUncallable_of_mem _ (by simp [hclosing])
    simpa using hend
  | @index us vs opening closing _ _ _ _ _ hclosing =>
    have hend : EndsUncallable ((us ++ opening :: vs) ++ [closing]) :=
      endsUncallable_of_mem _ (by simp [hclosing])
    simpa using hend
  | @member us dot name _ _ hdot hname =>
    exact ⟨us ++ [dot], name, by simp, .inr ⟨hname, us, dot, rfl, hdot⟩⟩
  | var => exact absurd rfl (hvar _)
  | number hliteral => exact endsUncallable_of_mem [] (by simp [hliteral])
  | string hliteral => exact endsUncallable_of_mem [] (by simp [hliteral])
  | kwTrue hliteral => exact endsUncallable_of_mem [] (by simp [hliteral])
  | kwFalse hliteral => exact endsUncallable_of_mem [] (by simp [hliteral])
  | @paren us opening closing _ _ _ hclosing =>
    exact endsUncallable_of_mem (opening :: us) (by simp [hclosing])

/-! ## Causes and stops -/

/-- Tokens are left over exactly if a program ends before an end-of-input token that does not stand
last. -/
theorem program_trailing_iff {ts rest : List Token} :
    program ts = .error ⟨.trailing, rest⟩ ↔ ∃ us last tree, ts = us ++ last :: rest ∧ rest ≠ [] ∧
      last.kind = .eof ∧ DerivesProgram us tree := by
  constructor
  · intro h
    rcases program_eq_error_iff.mp h with hwithin | ⟨tree, last, extra, more, hfound, hstop⟩
    · exact absurd rfl (findsProgram_justified hwithin).ne_trailing
    · obtain ⟨hend, us, rfl, hus⟩ := findsProgram_eq_ok hfound
      obtain rfl : rest = extra :: more := congrArg Stop.rest hstop
      exact ⟨us, last, tree, rfl, List.cons_ne_nil _ _, hend, hus⟩
  · rintro ⟨us, last, tree, rfl, hrest, hlast, hus⟩
    obtain ⟨extra, more, rfl⟩ := List.exists_cons_of_ne_nil hrest
    have hahead : ahead (last :: extra :: more) = .eof := hlast
    rw [program_append_eq_error_iff hus (by rw [hahead]; decide)]
    exact .inr ⟨[], last, extra, more, items_of_end hahead, rfl⟩

/-- A call is wrong only at an opening parenthesis after what cannot be called. -/
theorem program_callTarget {ts rest : List Token} (h : program ts = .error ⟨.callTarget, rest⟩) :
    ahead rest = .lparen ∧ ∃ used, ts = used ++ rest ∧ EndsUncallable used := by
  rcases program_eq_error_iff.mp h with hwithin | ⟨tree, last, extra, more, -, hstop⟩
  · obtain ⟨hahead, used, head, hts, ⟨front, vs, rfl, hvs⟩, hvar⟩ :=
      (findsProgram_justified hwithin).call rfl
    obtain ⟨init, last, rfl, hlast⟩ := hvs.endsUncallable (Nat.le_refl 8) hvar
    refine ⟨hahead, _, hts, front ++ init, last, by simp, hlast.imp id ?_⟩
    rintro ⟨hname, before, dot, rfl, hdot⟩
    exact ⟨hname, front ++ before, dot, by simp, hdot⟩
  · exact SyntaxCause.noConfusion (congrArg Stop.cause hstop)

/-- Reading stops at the end of the input exactly if tokens are missing there. -/
theorem program_error_rest_eq_nil_iff {ts : List Token} {stop : Stop}
    (h : program ts = .error stop) :
    stop.rest = [] ↔ ∃ more tree, program (ts ++ more) = .ok tree := by
  constructor
  · intro hrest
    obtain ⟨used, more, tree, hts, htree⟩ := program_error_viable h
    rw [hrest, List.append_nil] at hts
    exact ⟨more, tree, hts ▸ htree⟩
  · rintro ⟨more, tree, htree⟩
    by_contra hne
    obtain ⟨t, rest, hrest⟩ := List.exists_cons_of_ne_nil hne
    -- the token at which reading stops is still there when more tokens follow
    obtain ⟨used, hts, hlocal⟩ := program_error_local h
    have hahead : ahead (stop.rest ++ more) = ahead stop.rest := by rw [hrest]; rfl
    have hstop := hlocal used (stop.rest ++ more) rfl hahead fun _ => by simp [hrest]
    rw [← List.append_assoc, ← hts, htree] at hstop
    exact nomatch hstop

end Grammar

/-! ## Categories -/

namespace SyntaxError

variable {e : SyntaxError}

/-- The kind of an error is trailing input just when its cause is. -/
theorem kind_eq_trailingInput_iff : e.kind = .trailingInput ↔ e.cause = .trailing := by
  obtain ⟨cause, token⟩ := e
  by_cases h : token.kind = .eof <;> cases cause <;> simp [kind, h]

/-- The kind of an error is an invalid call target just when its cause is. -/
theorem kind_eq_invalidCallTarget_iff : e.kind = .invalidCallTarget ↔ e.cause = .callTarget := by
  obtain ⟨cause, token⟩ := e
  by_cases h : token.kind = .eof <;> cases cause <;> simp [kind, h]

/-- The kind of an error is an unexpected end just when its token is the end of input and its cause
is neither of the two with kinds of their own. -/
theorem kind_eq_unexpectedEof_iff : e.kind = .unexpectedEof ↔
    e.token.kind = .eof ∧ e.cause ≠ .trailing ∧ e.cause ≠ .callTarget := by
  obtain ⟨cause, token⟩ := e
  by_cases h : token.kind = .eof <;> cases cause <;> simp [kind, h]

end SyntaxError

namespace Program

open Grammar

variable {ts : List Token} {e : SyntaxError}

/-- Something stands after the end of the input exactly if a shorter list that ends in an
end-of-input token is a program. -/
theorem ofTokens_error_trailing_iff (h : ofTokens ts = .error e) :
    e.kind = .trailingInput ↔ ∃ us last vs, ts = us ++ last :: vs ∧ vs ≠ [] ∧ last.kind = .eof ∧
      ∃ p, ofTokens (us ++ [last]) = .ok p := by
  obtain ⟨⟨cause, rest⟩, hstop, rfl⟩ := ofTokens_eq_error_iff.mp h
  rw [SyntaxError.kind_eq_trailingInput_iff]
  constructor
  · rintro rfl
    obtain ⟨us, last, tree, rfl, hrest, hlast, hus⟩ := program_trailing_iff.mp hstop
    have hshort := ofTokens_eq_ok_iff_program.mpr ((program_append_eof_iff hlast).mpr hus)
    exact ⟨us, last, rest, rfl, hrest, hlast, tree, hshort⟩
  · rintro ⟨us, last, vs, rfl, hvs, hlast, p, hp⟩
    have hus := (program_append_eof_iff hlast).mp (ofTokens_eq_ok_iff_program.mp hp)
    have htrailing := program_trailing_iff.mpr ⟨us, last, p, rfl, hvs, hlast, hus⟩
    rw [hstop] at htrailing
    exact congrArg Stop.cause (Except.error.inj htrailing)

/-- What is wrong after the end of the input is the token after the first end-of-input token. -/
theorem ofTokens_error_trailing_at (h : ofTokens ts = .error e) (hkind : e.kind = .trailingInput) :
    ∃ us last vs, ts = us ++ last :: e.token :: vs ∧ (∀ t ∈ us, t.kind ≠ .eof) ∧
      last.kind = .eof := by
  obtain ⟨⟨cause, rest⟩, hstop, rfl⟩ := ofTokens_eq_error_iff.mp h
  obtain rfl := SyntaxError.kind_eq_trailingInput_iff.mp hkind
  obtain ⟨us, last, tree, rfl, hrest, hlast, hus⟩ := program_trailing_iff.mp hstop
  obtain ⟨extra, more, rfl⟩ := List.exists_cons_of_ne_nil hrest
  exact ⟨us, last, more, rfl, hus.eofFree, hlast⟩

/-- Nothing stands after the end of the input of a source. -/
theorem ofTokens_error_of_scan (h : ofTokens ts = .error e) {source : String}
    (hscan : Token.scan source = .ok ts) : e.kind ≠ .trailingInput := by
  intro hkind
  obtain ⟨us, last, vs, rfl, -, hlast⟩ := ofTokens_error_trailing_at h hkind
  obtain ⟨ws, hws, hts⟩ := (Token.scan_eq_ok_iff source _).mp hscan
  have hinner : us ++ last :: (e.token :: vs).dropLast = ws := by
    have hdrop := congrArg List.dropLast hts
    rwa [List.dropLast_concat, List.dropLast_append_of_ne_nil (List.cons_ne_nil _ _),
      List.dropLast_cons_of_ne_nil (List.cons_ne_nil _ _)] at hdrop
  exact hws.kind_ne_eof last (by simp [← hinner]) hlast

/-- The kind of the token that a stop names is the kind ahead. -/
theorem kind_token_of_stop {stop : Stop} : (stop.token (Token.standIn ts)).kind = ahead stop.rest :=
  stop.kind_token rfl

/-- The input ends too early exactly if the error is about an end-of-input token. -/
theorem ofTokens_error_eof_iff (h : ofTokens ts = .error e) (hkind : e.kind ≠ .trailingInput) :
    e.kind = .unexpectedEof ↔ e.token.kind = .eof := by
  obtain ⟨⟨cause, rest⟩, hstop, rfl⟩ := ofTokens_eq_error_iff.mp h
  rw [Ne, SyntaxError.kind_eq_trailingInput_iff] at hkind
  rw [SyntaxError.kind_eq_unexpectedEof_iff]
  constructor
  · exact And.left
  · intro heof
    refine ⟨heof, hkind, ?_⟩
    rintro rfl
    -- a call is wrong at an opening parenthesis
    rw [kind_token_of_stop, (program_callTarget hstop).1] at heof
    exact nomatch heof

/-- Without an end-of-input token, the input ends too early exactly if more tokens can complete
it. -/
theorem ofTokens_error_incomplete_iff (h : ofTokens ts = .error e)
    (hts : ∀ t ∈ ts, t.kind ≠ .eof) :
    e.kind = .unexpectedEof ↔ ∃ more p, ofTokens (ts ++ more) = .ok p := by
  obtain ⟨⟨cause, rest⟩, hstop, rfl⟩ := ofTokens_eq_error_iff.mp h
  simp only [ofTokens_eq_ok_iff_program]
  rw [← program_error_rest_eq_nil_iff hstop, SyntaxError.kind_eq_unexpectedEof_iff,
    kind_token_of_stop]
  constructor
  · rintro ⟨hahead, -⟩
    obtain ⟨used, hused, -⟩ := program_error_local hstop
    -- the token at fault is not in the list, so that the whole list has been read
    cases rest with
    | nil => rfl
    | cons t rest => exact absurd hahead (hts t (by simp [hused]))
  · rintro rfl
    refine ⟨rfl, ?_, ?_⟩
    · rintro rfl
      obtain ⟨-, -, -, -, hrest, -⟩ := program_trailing_iff.mp hstop
      exact hrest rfl
    · rintro rfl
      exact nomatch (program_callTarget hstop).1

/-- A call is wrong where an opening parenthesis follows what cannot be called. -/
theorem ofTokens_error_call (h : ofTokens ts = .error e) (hkind : e.kind = .invalidCallTarget) :
    ∃ us vs, ts = us ++ e.token :: vs ∧ e.token.kind = .lparen ∧ EndsUncallable us := by
  obtain ⟨⟨cause, rest⟩, hstop, rfl⟩ := ofTokens_eq_error_iff.mp h
  obtain rfl := SyntaxError.kind_eq_invalidCallTarget_iff.mp hkind
  obtain ⟨hahead, used, rfl, hused⟩ := program_callTarget hstop
  cases rest with
  | nil => exact nomatch hahead
  | cons t rest => exact ⟨used, rest, rfl, hahead, hused⟩

/-- The categories of syntax errors tell incomplete, over-long and wrong input apart.

* Something stands after the end of the input exactly if a shorter list that ends in an end-of-input
  token is a program. The error then names the token after the first end-of-input token, and this
  does not happen to the tokens of a source.
* Otherwise the input ends too early exactly if the error names an end-of-input token.
* If the list has no end-of-input token, the input ends too early exactly if it can be completed.
* A call is wrong at an opening parenthesis after a literal, a closing parenthesis or bracket, or a
  name with a dot before it. -/
theorem ofTokens_error_kinds (h : ofTokens ts = .error e) :
    ((e.kind = .trailingInput ↔ ∃ us last vs, ts = us ++ last :: vs ∧ vs ≠ [] ∧
        last.kind = .eof ∧ ∃ p, ofTokens (us ++ [last]) = .ok p) ∧
      (e.kind = .trailingInput → ∃ us last vs, ts = us ++ last :: e.token :: vs ∧
        (∀ t ∈ us, t.kind ≠ .eof) ∧ last.kind = .eof) ∧
      ∀ source, Token.scan source = .ok ts → e.kind ≠ .trailingInput) ∧
    (e.kind ≠ .trailingInput → (e.kind = .unexpectedEof ↔ e.token.kind = .eof)) ∧
    ((∀ t ∈ ts, t.kind ≠ .eof) →
      (e.kind = .unexpectedEof ↔ ∃ more p, ofTokens (ts ++ more) = .ok p)) ∧
    (e.kind = .invalidCallTarget → ∃ us vs, ts = us ++ e.token :: vs ∧ e.token.kind = .lparen ∧
      EndsUncallable us) := by
  refine ⟨⟨ofTokens_error_trailing_iff h, ofTokens_error_trailing_at h, ?_⟩,
    ofTokens_error_eof_iff h, ofTokens_error_incomplete_iff h, ofTokens_error_call h⟩
  intro source hscan
  exact ofTokens_error_of_scan h hscan

/-- A member without its name is an error about the end of the input, and some tokens complete it.
With a name and parentheses it is a wrong call, after a name with a dot before it. After an
end-of-input token nothing may stand, not even another one. -/
theorem ofTokens_error_kinds_member :
    let t (kind : Kind) (text : String) : Token := ⟨kind, text, ⟨1, 1⟩⟩
    let line := [t .kwModule "module", t .ident "m", t .semicolon ";"]
    let member := line ++ [t .kwLet "let", t .ident "v", t .colon ":", t .kwInt "int",
      t .assign "=", t .ident "x", t .dot "."]
    ofTokens member = .error ⟨.expected .ident, ⟨.eof, "", ⟨1, 2⟩⟩⟩ ∧
    ofTokens (member ++ [t .ident "y", t .lparen "(", t .rparen ")"]) =
      .error ⟨.callTarget, t .lparen "("⟩ ∧
    ofTokens (line ++ [t .eof "", t .eof ""]) = .error ⟨.trailing, t .eof ""⟩ ∧
    (∃ more p, ofTokens (member ++ more) = .ok p) ∧
    (∃ us vs, member ++ [t .ident "y", t .lparen "(", t .rparen ")"] =
      us ++ t .lparen "(" :: vs ∧ EndsUncallable us) ∧
    ∃ us last vs, line ++ [t .eof "", t .eof ""] = us ++ last :: vs ∧ vs ≠ [] ∧
      last.kind = .eof ∧ ∃ p, ofTokens (us ++ [last]) = .ok p := by
  intro t line member
  have hunfinished : ofTokens member =
      .error ⟨.expected .ident, ⟨.eof, "", ⟨1, 2⟩⟩⟩ := by cbv
  have hcall : ofTokens (member ++ [t .ident "y", t .lparen "(", t .rparen ")"]) =
      .error ⟨.callTarget, t .lparen "("⟩ := by cbv
  have htrailing : ofTokens (line ++ [t .eof "", t .eof ""]) =
      .error ⟨.trailing, t .eof ""⟩ := by cbv
  obtain ⟨-, -, hcomplete, -⟩ := ofTokens_error_kinds hunfinished
  obtain ⟨-, -, -, hwrong⟩ := ofTokens_error_kinds hcall
  obtain ⟨⟨hshort, -⟩, -⟩ := ofTokens_error_kinds htrailing
  refine ⟨hunfinished, hcall, htrailing, (hcomplete (by decide)).mp rfl, ?_, hshort.mp rfl⟩
  obtain ⟨us, vs, hts, -, hus⟩ := hwrong rfl
  exact ⟨us, vs, hts, hus⟩

end Program

end Quill
