import Mathlib.Data.List.Basic
import Quill.Proofs.Parsing.FirstError

/-!
# Declarations after a program

No declaration is read with an eye on what stands after it. Declarations put after a program are
therefore read as they are read after any other program, with the same result or the same stop
(`findsProgram_append`). This holds although much inside a declaration goes on as far as it can: an
`else` belongs to the `if` before it, and arguments, subscripts and suffixes of types are taken as
they come. Each declaration ends in a token of its own, and nothing goes on past that token.

The module line is a program, so what stands after it shows what may be put after every program
(`ofTokens_append_items`).
-/

set_option autoImplicit false

namespace Quill

namespace Token

/-- The stand-in depends on the tokens at the end of a list. -/
theorem standIn_append {us vs rest : List Token} (h : rest ≠ []) :
    standIn (us ++ rest) = standIn (vs ++ rest) := by
  have hlast : (us ++ rest).getLast? = (vs ++ rest).getLast? := by
    rw [List.getLast?_append_of_ne_nil us h, List.getLast?_append_of_ne_nil vs h]
  rw [standIn, standIn, hlast]

end Token

namespace Grammar

variable {us rest : List Token} {tree result : Program} {stop : Stop}

/-! ## Programs in front -/

/-- A program with further declarations after its own. -/
def extended (tree : Program) (items : List Item) : Program :=
  ⟨tree.moduleName, tree.imports, tree.items ++ items⟩

/-- After a program, declarations are read on. A further import is the one thing that the program
could take for its own. -/
theorem findsProgram_append (h : DerivesProgram us tree) (hrest : ahead rest ≠ .kwImport) :
    findsProgram (us ++ rest) =
      (items rest).map fun found => (extended tree found.1, found.2) := by
  obtain @⟨ns, keyword, closing, segments, is, ds, hkeyword, hns, hclosing, his, hds⟩ := h
  have hahead : ahead (ds.flatMap Prod.fst ++ rest) ≠ .kwImport :=
    ahead_items_ne (by decide) hds fun _ => hrest
  have hheader : finds moduleHeader
      (keyword :: (ns ++ closing :: (is.flatMap Prod.fst ++ (ds.flatMap Prod.fst ++ rest)))) =
      .ok (⟨segments⟩, is.flatMap Prod.fst ++ (ds.flatMap Prod.fst ++ rest)) :=
    moduleHeader_complete hkeyword hns hclosing _
  have hshape : keyword :: (ns ++ closing :: (is.flatMap Prod.fst ++ ds.flatMap Prod.fst)) ++ rest =
      keyword :: (ns ++ closing :: (is.flatMap Prod.fst ++ (ds.flatMap Prod.fst ++ rest))) := by
    simp
  rw [hshape, findsProgram, bind_of_ok hheader, bind_of_ok (imports_complete his hahead),
    bind_apply, items_append hds rest]
  cases items rest <;> rfl

/-- A program is continued by declarations that go on to the end of the input. -/
theorem program_append_eq_ok_iff (h : DerivesProgram us tree) (hrest : ahead rest ≠ .kwImport) :
    program (us ++ rest) = .ok result ↔
      ∃ decls left, items rest = .ok (decls, left) ∧ left.length ≤ 1 ∧
        result = extended tree decls := by
  rw [program_eq_ok_iff_finds, findsProgram_append h hrest]
  cases items rest with
  | error other => simp [Except.map]
  | ok found =>
    obtain ⟨decls, left⟩ := found
    simp [Except.map, eq_comm, and_comm]

/-- Where and why reading stops has nothing to do with the program in front. -/
theorem program_append_eq_error_iff (h : DerivesProgram us tree)
    (hrest : ahead rest ≠ .kwImport) :
    program (us ++ rest) = .error stop ↔ items rest = .error stop ∨
      ∃ decls last extra more, items rest = .ok (decls, last :: extra :: more) ∧
        stop = ⟨.trailing, extra :: more⟩ := by
  rw [program_eq_error_iff, findsProgram_append h hrest]
  cases items rest with
  | error other => simp [Except.map]
  | ok found =>
    obtain ⟨decls, left⟩ := found
    simp [Except.map]

/-- A module line with a name of one part is a program without imports and declarations. -/
theorem derivesProgram_header {keyword name closing : Token} (hkeyword : keyword.kind = .kwModule)
    (hname : name.kind = .ident) (hclosing : closing.kind = .semicolon) :
    DerivesProgram [keyword, name, closing] ⟨⟨[name.text]⟩, [], []⟩ :=
  @DerivesProgram.intro [name] keyword closing [name.text] [] [] hkeyword (.one hname) hclosing
    (fun _ h => nomatch h) (fun _ h => nomatch h)

end Grammar

namespace Program

open Grammar

/-- A list without an end-of-input token is a program if it derives the program itself. -/
theorem derivesProgram_of_ofTokens {ts : List Token} {tree : Program}
    (hts : ∀ t ∈ ts, t.kind ≠ .eof) (h : ofTokens ts = .ok tree) : DerivesProgram ts tree := by
  obtain ⟨body, hbody, rfl | ⟨last, hlast, rfl⟩⟩ := (ofTokens_eq_ok_iff ts tree).mp h
  · exact hbody
  · exact absurd hlast (hts last (by simp))

/-- Declarations compose. Let `x` be a program without an end-of-input token, and let `b` be tokens
that do not start with an import. If `b` after a module line is a program, then it has no imports,
and `b` after `x` is the program `x` with the declarations of that one after its own. If `b` after a
module line has an error, then `b` after `x` has the same one. -/
theorem ofTokens_append_items {x b : List Token} {p : Program} {keyword name closing : Token}
    (hx : ∀ t ∈ x, t.kind ≠ .eof) (hp : ofTokens x = .ok p)
    (hkeyword : keyword.kind = .kwModule) (hname : name.kind = .ident)
    (hclosing : closing.kind = .semicolon) (hb : ahead b ≠ .kwImport) :
    (∀ q, ofTokens (keyword :: name :: closing :: b) = .ok q →
      q.imports = [] ∧ ofTokens (x ++ b) = .ok ⟨p.moduleName, p.imports, p.items ++ q.items⟩) ∧
    ∀ e, ofTokens (keyword :: name :: closing :: b) = .error e → ofTokens (x ++ b) = .error e := by
  have hderives : DerivesProgram x p := derivesProgram_of_ofTokens hx hp
  have hheader := derivesProgram_header hkeyword hname hclosing
  have hshape : keyword :: name :: closing :: b = [keyword, name, closing] ++ b := rfl
  rw [hshape]
  refine ⟨fun q hq => ?_, fun e he => ?_⟩
  · rw [ofTokens_eq_ok_iff_program] at hq ⊢
    obtain ⟨decls, left, hitems, hleft, rfl⟩ := (program_append_eq_ok_iff hheader hb).mp hq
    exact ⟨rfl, (program_append_eq_ok_iff hderives hb).mpr ⟨decls, left, hitems, hleft, rfl⟩⟩
  · obtain ⟨stop, hstop, rfl⟩ := ofTokens_eq_error_iff.mp he
    have hwithin := (program_append_eq_error_iff hheader hb).mp hstop
    -- with nothing after it a module line is no error, so there is a last token, the same for both
    have hne : b ≠ [] := by
      rintro rfl
      have hline := program_eq_ok_iff.mpr ⟨_, hheader, .inl (List.append_nil _)⟩
      rw [hstop] at hline
      exact nomatch hline
    rw [ofTokens_eq_error_iff, Token.standIn_append hne]
    exact ⟨stop, (program_append_eq_error_iff hderives hb).mpr hwithin, rfl⟩

/-- The program in front is a function that ends in two conditionals without an `else`. A variable
is declared after it, and an `else` after it is no part of the conditionals: it starts no
declaration there, as it would start none after the module line. -/
theorem ofTokens_append_items_conditional :
    let t (kind : Kind) (text : String) : Token := ⟨kind, text, ⟨1, 1⟩⟩
    let x := [t .kwModule "module", t .ident "m", t .semicolon ";", t .kwFn "fn", t .ident "f",
      t .lparen "(", t .rparen ")", t .lbrace "\x7b", t .kwIf "if", t .lparen "(", t .ident "a",
      t .rparen ")", t .kwIf "if", t .lparen "(", t .ident "b", t .rparen ")",
      t .kwReturn "return", t .semicolon ";", t .rbrace "\x7d"]
    let inner := Stmt.ifThen (.var "b") (.ret none)
    let tree : Item := .fn "f" [] none [.ifThen (.var "a") inner]
    ofTokens (x ++ [t .kwLet "let", t .ident "v", t .colon ":", t .kwInt "int", t .semicolon ";"]) =
      .ok ⟨⟨["m"]⟩, [], [tree, .letDecl ⟨"v", .named "int", none⟩]⟩ ∧
    ofTokens (x ++ [t .kwElse "else", t .semicolon ";"]) =
      .error ⟨.noDeclaration, t .kwElse "else"⟩ := by
  intro t x inner tree
  have hx : ∀ t ∈ x, t.kind ≠ .eof := by decide
  have hp : ofTokens x = .ok ⟨⟨["m"]⟩, [], [tree]⟩ := by cbv
  have hline : ofTokens [t .kwModule "module", t .ident "n", t .semicolon ";", t .kwLet "let",
      t .ident "v", t .colon ":", t .kwInt "int", t .semicolon ";"] =
      .ok ⟨⟨["n"]⟩, [], [.letDecl ⟨"v", .named "int", none⟩]⟩ := by cbv
  have hfault : ofTokens [t .kwModule "module", t .ident "n", t .semicolon ";", t .kwElse "else",
      t .semicolon ";"] = .error ⟨.noDeclaration, t .kwElse "else"⟩ := by cbv
  have hcompose := fun b => @ofTokens_append_items x b _ (t .kwModule "module") (t .ident "n")
    (t .semicolon ";") hx hp rfl rfl rfl
  obtain ⟨hdeclared, -⟩ := hcompose
    [t .kwLet "let", t .ident "v", t .colon ":", t .kwInt "int", t .semicolon ";"] (by decide)
  obtain ⟨-, hwrong⟩ := hcompose [t .kwElse "else", t .semicolon ";"] (by decide)
  exact ⟨(hdeclared _ hline).2, hwrong _ hfault⟩

end Program

end Quill
