import Quill.Proofs.Parsing.Rules
import Quill.Proofs.RoundTrip.Words

/-!
# Tokens with the words of a tree derive the tree

The rules of the grammar look at kinds and copy texts, so whether a token list derives a tree is
decided by its words. Tokens with the words of a well-formed tree derive it: the conditions on
levels put each operand under a rule that takes it, and the condition on conditionals gives each
`else` to the conditional it belongs to.

A list of words is taken apart as the tree is, with `List.map_eq_append_iff` and
`List.map_eq_cons_iff`.
-/

set_option autoImplicit false

namespace Quill.Grammar

open Lexical

/-! ## Lists of words -/

/-- The first word belongs to the first token. -/
theorem words_cons {us : List Token} {kind : Kind} {text : String} {words : List Word}
    (h : us.map Token.word = (kind, text) :: words) :
    ∃ t vs, us = t :: vs ∧ t.kind = kind ∧ t.text = text ∧ vs.map Token.word = words := by
  obtain ⟨t, vs, rfl, ht, hvs⟩ := List.map_eq_cons_iff.mp h
  obtain ⟨hkind, htext⟩ := Prod.mk.inj ht
  exact ⟨t, vs, rfl, hkind, htext, hvs⟩

/-- One word belongs to one token. -/
theorem words_singleton {us : List Token} {kind : Kind} {text : String}
    (h : us.map Token.word = [(kind, text)]) : ∃ t, us = [t] ∧ t.kind = kind ∧ t.text = text := by
  obtain ⟨t, vs, rfl, hkind, htext, hvs⟩ := words_cons h
  obtain rfl := List.map_eq_nil_iff.mp hvs
  exact ⟨t, rfl, hkind, htext⟩

/-- Words with commas between them belong to tokens with commas between them. -/
theorem commaJoined_of_words {α : Type} {words : α → List Word} {values : List α}
    {us : List Token} (h : us.map Token.word = commaWords (values.map words)) :
    ∃ parts : List (List Token × α), CommaJoined parts us ∧ parts.map Prod.snd = values ∧
      ∀ part ∈ parts, part.1.map Token.word = words part.2 := by
  induction values generalizing us with
  | nil =>
    obtain rfl := List.map_eq_nil_iff.mp (h.trans (by simp [commaWords]))
    exact ⟨[], .none, rfl, by simp⟩
  | cons value others ih =>
    cases others with
    | nil =>
      have hus : us.map Token.word = words value := h.trans (by simp [commaWords])
      exact ⟨[(us, value)], .one, rfl, by simpa using hus⟩
    | cons next others =>
      have hwords : commaWords ((value :: next :: others).map words) =
          words value ++ (.comma, ",") :: commaWords ((next :: others).map words) := by
        simp [commaWords]
      obtain ⟨vs, ws, rfl, hvs, hws⟩ := List.map_eq_append_iff.mp (h.trans hwords)
      obtain ⟨comma, xs, rfl, hcomma, -, hxs⟩ := words_cons hws
      obtain ⟨parts, hjoined, hvalues, hparts⟩ := ih hxs
      obtain ⟨part, parts, rfl⟩ : ∃ part more, parts = part :: more := by
        cases parts with
        | nil => simp at hvalues
        | cons part more => exact ⟨part, more, rfl⟩
      exact ⟨(vs, value) :: part :: parts, .more hcomma hjoined, by rw [List.map_cons, hvalues],
        List.forall_mem_cons.mpr ⟨hvs, hparts⟩⟩

/-- Words one after another belong to tokens one after another. -/
theorem parts_of_words {α : Type} {words : α → List Word} {values : List α} {us : List Token}
    (h : us.map Token.word = values.flatMap words) :
    ∃ parts : List (List Token × α), us = parts.flatMap Prod.fst ∧ parts.map Prod.snd = values ∧
      ∀ part ∈ parts, part.1.map Token.word = words part.2 := by
  induction values generalizing us with
  | nil =>
    obtain rfl := List.map_eq_nil_iff.mp h
    exact ⟨[], rfl, rfl, by simp⟩
  | cons value others ih =>
    obtain ⟨vs, ws, rfl, hvs, hws⟩ := List.map_eq_append_iff.mp h
    obtain ⟨parts, rfl, rfl, hparts⟩ := ih hws
    exact ⟨(vs, value) :: parts, rfl, rfl, List.forall_mem_cons.mpr ⟨hvs, hparts⟩⟩

/-! ## Names and types -/

theorem derivesSegments_of_words {names : List String} (hne : names ≠ []) {us : List Token}
    (h : us.map Token.word = segmentWords names) : DerivesSegments us names := by
  induction names generalizing us with
  | nil => exact absurd rfl hne
  | cons name others ih =>
    cases others with
    | nil =>
      obtain ⟨t, rfl, hkind, rfl⟩ := words_singleton h
      exact .one hkind
    | cons next others =>
      obtain ⟨t, vs, rfl, hkind, rfl, hvs⟩ := words_cons h
      obtain ⟨dot, ws, rfl, hdot, -, hws⟩ := words_cons hvs
      exact .more hkind hdot (ih (by simp) hws)

/-- Tokens with the words of a well-formed type derive it. -/
theorem derivesType_of_words {type : TypeExpr} (htype : type.WellFormed) {us : List Token}
    (h : us.map Token.word = type.words) : DerivesType .type us type := by
  induction htype generalizing us with
  | builtIn hname =>
    rcases hname with rfl | rfl | rfl
    all_goals
      obtain ⟨t, rfl, hkind, htext⟩ := words_singleton h
      rw [← htext]
      exact .simple (.builtIn (by simp [hkind]))
  | @segments names hne hnames =>
    rw [TypeExpr.words, typeNameWords_dotted hne hnames] at h
    exact .simple (.segments (derivesSegments_of_words hne h))
  | array _ ih =>
    obtain ⟨vs, ws, rfl, hvs, hws⟩ := List.map_eq_append_iff.mp h
    obtain ⟨opening, xs, rfl, hopening, -, hxs⟩ := words_cons hws
    obtain ⟨closing, rfl, hclosing, -⟩ := words_singleton hxs
    exact .array (ih hvs) hopening hclosing

theorem derivesBinder_of_words {binder : Binder} (hbinder : binder.WellFormed) {us : List Token}
    (h : us.map Token.word = binder.words) : DerivesBinder us binder := by
  obtain ⟨name, type⟩ := binder
  obtain ⟨t, vs, rfl, hkind, rfl, hvs⟩ := words_cons h
  obtain ⟨colon, ws, rfl, hcolon, -, hws⟩ := words_cons hvs
  exact .intro hkind hcolon (derivesType_of_words hbinder.type hws)

/-! ## Expressions -/

/-- The tokens with the words of an expression derive it at its own level. -/
theorem derivesExpr_of_words {expr : Expr} (hexpr : expr.WellFormed) {us : List Token}
    (h : us.map Token.word = expr.words) : DerivesExpr expr.level us expr := by
  -- an operand is derived at its own level, and so at the earlier one its operator asks for
  induction hexpr generalizing us with
  | assign hlevel _ _ ihtarget ihvalue =>
    rw [Expr.words] at h
    obtain ⟨vs, ws, rfl, hvs, hws⟩ := List.map_eq_append_iff.mp h
    obtain ⟨sign, xs, rfl, hsign, -, hxs⟩ := words_cons hws
    exact .assign ((ihtarget hvs).lower hlevel) hsign ((ihvalue hxs).lower (Nat.zero_le _))
  | @binary op _ _ hlhs hrhs _ _ ihlhs ihrhs =>
    rw [Expr.words] at h
    obtain ⟨vs, ws, rfl, hvs, hws⟩ := List.map_eq_append_iff.mp h
    obtain ⟨sign, xs, rfl, hsign, -, hxs⟩ := words_cons hws
    exact .binary ((ihlhs hvs).lower hlhs) (hsign ▸ op.ofKind?_kind) ((ihrhs hxs).lower hrhs)
  | @unary op _ hlevel _ ih =>
    rw [Expr.words] at h
    obtain ⟨sign, vs, rfl, hsign, -, hvs⟩ := words_cons h
    exact .unary (hsign ▸ op.ofKind?_kind) ((ih hvs).lower hlevel)
  | @call callee args _ _ ih =>
    rw [Expr.words, Expr.wordsList_eq_map] at h
    obtain ⟨name, vs, rfl, hname, rfl, hvs⟩ := words_cons h
    obtain ⟨opening, ws, rfl, hopening, -, hws⟩ := words_cons hvs
    obtain ⟨inner, xs, rfl, hinner, hxs⟩ := List.map_eq_append_iff.mp hws
    obtain ⟨closing, rfl, hclosing, -⟩ := words_singleton hxs
    obtain ⟨parts, hjoined, rfl, hparts⟩ := commaJoined_of_words hinner
    have hcallee : DerivesExpr 8 [name] (.var name.text) := .lift (.var hname)
    refine .call hcallee hopening hjoined ?_ hclosing
    intro part hpart
    exact (ih part.2 (List.mem_map_of_mem hpart) (hparts part hpart)).lower (Nat.zero_le _)
  | index hlevel _ _ iharray ihposition =>
    rw [Expr.words] at h
    obtain ⟨vs, ws, rfl, hvs, hws⟩ := List.map_eq_append_iff.mp h
    obtain ⟨opening, xs, rfl, hopening, -, hxs⟩ := words_cons hws
    obtain ⟨inner, ys, rfl, hinner, hys⟩ := List.map_eq_append_iff.mp hxs
    obtain ⟨closing, rfl, hclosing, -⟩ := words_singleton hys
    exact .index (hlevel ▸ iharray hvs) hopening ((ihposition hinner).lower (Nat.zero_le _))
      hclosing
  | member hlevel _ _ ih =>
    rw [Expr.words] at h
    obtain ⟨vs, ws, rfl, hvs, hws⟩ := List.map_eq_append_iff.mp h
    obtain ⟨dot, xs, rfl, hdot, -, hxs⟩ := words_cons hws
    obtain ⟨name, rfl, hname, rfl⟩ := words_singleton hxs
    exact .member (hlevel ▸ ih hvs) hdot hname
  | number _ =>
    obtain ⟨literal, rfl, hkind, rfl⟩ := words_singleton h
    exact .lift (.number hkind)
  | string _ =>
    obtain ⟨literal, rfl, hkind, rfl⟩ := words_singleton h
    exact .lift (.string hkind)
  | @bool value =>
    cases value
    · obtain ⟨literal, rfl, hkind, -⟩ := words_singleton h
      exact .lift (.kwFalse hkind)
    · obtain ⟨literal, rfl, hkind, -⟩ := words_singleton h
      exact .lift (.kwTrue hkind)
  | var _ =>
    obtain ⟨name, rfl, hkind, rfl⟩ := words_singleton h
    exact .lift (.var hkind)
  | paren _ ih =>
    rw [Expr.words] at h
    obtain ⟨opening, vs, rfl, hopening, -, hvs⟩ := words_cons h
    obtain ⟨inner, ws, rfl, hinner, hws⟩ := List.map_eq_append_iff.mp hvs
    obtain ⟨closing, rfl, hclosing, -⟩ := words_singleton hws
    exact .lift (.paren hopening ((ih hinner).lower (Nat.zero_le _)) hclosing)

/-- An expression derived at its own level is one at the first level. -/
theorem derivesExpr_zero_of_words {expr : Expr} (hexpr : expr.WellFormed) {us : List Token}
    (h : us.map Token.word = expr.words) : DerivesExpr 0 us expr :=
  (derivesExpr_of_words hexpr h).lower (Nat.zero_le _)

/-! ## Statements -/

theorem derivesLet_of_words {decl : LetDecl} (hdecl : decl.WellFormed) {us : List Token}
    (h : us.map Token.word = decl.words) : DerivesLet us decl := by
  obtain ⟨name, type, value⟩ := decl
  rw [LetDecl.words] at h
  obtain ⟨keyword, vs, rfl, hkeyword, -, hvs⟩ := words_cons h
  obtain ⟨bs, ws, rfl, hbs, hws⟩ := List.map_eq_append_iff.mp hvs
  have hbinder : DerivesBinder bs ⟨name, type⟩ :=
    derivesBinder_of_words ⟨hdecl.name, hdecl.type⟩ hbs
  cases value with
  | none =>
    obtain ⟨closing, rfl, hclosing, -⟩ := words_singleton hws
    exact .bare hkeyword hbinder hclosing
  | some value =>
    obtain ⟨sign, xs, rfl, hsign, -, hxs⟩ := words_cons hws
    obtain ⟨es, ys, rfl, hes, hys⟩ := List.map_eq_append_iff.mp hxs
    obtain ⟨closing, rfl, hclosing, -⟩ := words_singleton hys
    exact .valued hkeyword hbinder hsign (derivesExpr_zero_of_words (hdecl.value value rfl) hes)
      hclosing

theorem derivesCondition_of_words {condition : Expr} (hcondition : condition.WellFormed)
    {us : List Token} (h : us.map Token.word = conditionWords condition) :
    DerivesCondition us condition := by
  obtain ⟨opening, vs, rfl, hopening, -, hvs⟩ := words_cons h
  obtain ⟨ws, xs, rfl, hws, hxs⟩ := List.map_eq_append_iff.mp hvs
  obtain ⟨closing, rfl, hclosing, -⟩ := words_singleton hxs
  exact .intro hopening (derivesExpr_zero_of_words hcondition hws) hclosing

/-- Tokens with the words of a well-formed statement derive it. -/
theorem derivesStmt_of_words {stmt : Stmt} (hstmt : stmt.WellFormed) {us : List Token}
    (h : us.map Token.word = stmt.words) : DerivesStmt us stmt := by
  induction hstmt generalizing us with
  | letDecl hdecl => exact .letDecl (derivesLet_of_words hdecl h)
  | expr hvalue =>
    rw [Stmt.words] at h
    obtain ⟨vs, ws, rfl, hvs, hws⟩ := List.map_eq_append_iff.mp h
    obtain ⟨closing, rfl, hclosing, -⟩ := words_singleton hws
    exact .expr (derivesExpr_zero_of_words hvalue hvs) hclosing
  | ifThen hcondition _ ih =>
    rw [Stmt.words] at h
    obtain ⟨keyword, vs, rfl, hkeyword, -, hvs⟩ := words_cons h
    obtain ⟨cs, bs, rfl, hcs, hbs⟩ := List.map_eq_append_iff.mp hvs
    exact .ifThen hkeyword (derivesCondition_of_words hcondition hcs) (ih hbs)
  | ifElse hcondition _ hclosed _ ihbody ihother =>
    rw [Stmt.words] at h
    obtain ⟨keyword, vs, rfl, hkeyword, -, hvs⟩ := words_cons h
    obtain ⟨cs, ws, rfl, hcs, hws⟩ := List.map_eq_append_iff.mp hvs
    obtain ⟨bs, xs, rfl, hbs, hxs⟩ := List.map_eq_append_iff.mp hws
    obtain ⟨other, as, rfl, hother, -, has⟩ := words_cons hxs
    exact .ifElse hkeyword (derivesCondition_of_words hcondition hcs) (ihbody hbs) hclosed hother
      (ihother has)
  | whileDo hcondition _ ih =>
    rw [Stmt.words] at h
    obtain ⟨keyword, vs, rfl, hkeyword, -, hvs⟩ := words_cons h
    obtain ⟨cs, bs, rfl, hcs, hbs⟩ := List.map_eq_append_iff.mp hvs
    exact .whileDo hkeyword (derivesCondition_of_words hcondition hcs) (ih hbs)
  | @ret value hvalue =>
    cases value with
    | none =>
      rw [Stmt.words] at h
      obtain ⟨keyword, vs, rfl, hkeyword, -, hvs⟩ := words_cons h
      obtain ⟨closing, rfl, hclosing, -⟩ := words_singleton hvs
      exact .leave hkeyword hclosing
    | some value =>
      rw [Stmt.words] at h
      obtain ⟨keyword, vs, rfl, hkeyword, -, hvs⟩ := words_cons h
      obtain ⟨es, ws, rfl, hes, hws⟩ := List.map_eq_append_iff.mp hvs
      obtain ⟨closing, rfl, hclosing, -⟩ := words_singleton hws
      exact .ret hkeyword (derivesExpr_zero_of_words (hvalue value rfl) hes) hclosing
  | @block body _ ih =>
    rw [Stmt.words, Stmt.wordsList_eq_flatMap] at h
    obtain ⟨opening, vs, rfl, hopening, -, hvs⟩ := words_cons h
    obtain ⟨bs, ws, rfl, hbs, hws⟩ := List.map_eq_append_iff.mp hvs
    obtain ⟨closing, rfl, hclosing, -⟩ := words_singleton hws
    -- the words of each statement belong to tokens of its own
    obtain ⟨parts, rfl, rfl, hparts⟩ := parts_of_words hbs
    refine .block hopening ?_ hclosing
    intro part hpart
    exact ih part.2 (List.mem_map_of_mem hpart) (hparts part hpart)

/-! ## Programs -/

theorem derivesImport_of_words {decl : Import} (hdecl : decl.WellFormed) {us : List Token}
    (h : us.map Token.word = decl.words) : DerivesImport us decl := by
  obtain ⟨⟨segments⟩, localName⟩ := decl
  rw [Import.words] at h
  obtain ⟨keyword, vs, rfl, hkeyword, -, hvs⟩ := words_cons h
  obtain ⟨ps, ws, rfl, hps, hws⟩ := List.map_eq_append_iff.mp hvs
  have hpath : DerivesSegments ps segments := derivesSegments_of_words hdecl.path.1 hps
  cases localName with
  | none =>
    obtain ⟨closing, rfl, hclosing, -⟩ := words_singleton hws
    exact .bare hkeyword hpath hclosing
  | some name =>
    obtain ⟨sign, xs, rfl, hsign, -, hxs⟩ := words_cons hws
    obtain ⟨localName, ys, rfl, hname, rfl, hys⟩ := words_cons hxs
    obtain ⟨closing, rfl, hclosing, -⟩ := words_singleton hys
    exact .renamed hkeyword hpath hsign hname hclosing

/-- The tokens of binders with commas between them derive the binders. -/
theorem binders_of_words {binders : List Binder} (hbinders : ∀ binder ∈ binders, binder.WellFormed)
    {us : List Token} (h : us.map Token.word = commaWords (binders.map Binder.words)) :
    ∃ parts : List (List Token × Binder), CommaJoined parts us ∧ parts.map Prod.snd = binders ∧
      ∀ part ∈ parts, DerivesBinder part.1 part.2 := by
  obtain ⟨parts, hjoined, rfl, hparts⟩ := commaJoined_of_words h
  refine ⟨parts, hjoined, rfl, fun part hpart => ?_⟩
  exact derivesBinder_of_words (hbinders part.2 (List.mem_map_of_mem hpart)) (hparts part hpart)

/-- Tokens with the words of a well-formed item derive it. -/
theorem derivesItem_of_words {item : Item} (hitem : item.WellFormed) {us : List Token}
    (h : us.map Token.word = item.words) : DerivesItem us item := by
  cases hitem with
  | typeAlias _ htype =>
    rw [Item.words] at h
    obtain ⟨keyword, vs, rfl, hkeyword, -, hvs⟩ := words_cons h
    obtain ⟨name, ws, rfl, hname, rfl, hws⟩ := words_cons hvs
    obtain ⟨sign, xs, rfl, hsign, -, hxs⟩ := words_cons hws
    obtain ⟨ts, ys, rfl, hts, hys⟩ := List.map_eq_append_iff.mp hxs
    obtain ⟨closing, rfl, hclosing, -⟩ := words_singleton hys
    exact .typeAlias hkeyword hname hsign (derivesType_of_words htype hts) hclosing
  | struct _ hfields =>
    rw [Item.words] at h
    obtain ⟨keyword, vs, rfl, hkeyword, -, hvs⟩ := words_cons h
    obtain ⟨name, ws, rfl, hname, rfl, hws⟩ := words_cons hvs
    obtain ⟨opening, xs, rfl, hopening, -, hxs⟩ := words_cons hws
    obtain ⟨inner, ys, rfl, hinner, hys⟩ := List.map_eq_append_iff.mp hxs
    obtain ⟨last, zs, rfl, hlast, -, hzs⟩ := words_cons hys
    obtain ⟨closing, rfl, hclosing, -⟩ := words_singleton hzs
    obtain ⟨parts, hjoined, rfl, hparts⟩ := binders_of_words hfields hinner
    exact .struct hkeyword hname hopening hjoined hparts hlast hclosing
  | const hname htype hvalue =>
    rw [Item.words] at h
    obtain ⟨keyword, vs, rfl, hkeyword, -, hvs⟩ := words_cons h
    obtain ⟨bs, ws, rfl, hbs, hws⟩ := List.map_eq_append_iff.mp hvs
    obtain ⟨sign, xs, rfl, hsign, -, hxs⟩ := words_cons hws
    obtain ⟨es, ys, rfl, hes, hys⟩ := List.map_eq_append_iff.mp hxs
    obtain ⟨closing, rfl, hclosing, -⟩ := words_singleton hys
    exact .const hkeyword (derivesBinder_of_words ⟨hname, htype⟩ hbs) hsign
      (derivesExpr_zero_of_words hvalue hes) hclosing
  | @fn name params result body _ hparams hresult hbody =>
    rw [Item.words] at h
    obtain ⟨keyword, vs, rfl, hkeyword, -, hvs⟩ := words_cons h
    obtain ⟨name, ws, rfl, hname, rfl, hws⟩ := words_cons hvs
    obtain ⟨opening, xs, rfl, hopening, -, hxs⟩ := words_cons hws
    obtain ⟨inner, ys, rfl, hinner, hys⟩ := List.map_eq_append_iff.mp hxs
    obtain ⟨last, zs, rfl, hlast, -, hzs⟩ := words_cons hys
    obtain ⟨parts, hjoined, rfl, hparts⟩ := binders_of_words hparams hinner
    have hblock : ∀ {bs : List Token}, bs.map Token.word = (Stmt.block body).words →
        DerivesStmt bs (.block body) := derivesStmt_of_words (.block hbody)
    cases result with
    | none => exact .procedure hkeyword hname hopening hjoined hparts hlast (hblock hzs)
    | some type =>
      obtain ⟨arrow, rs, rfl, harrow, -, hrs⟩ := words_cons hzs
      obtain ⟨ts, bs, rfl, hts, hbs⟩ := List.map_eq_append_iff.mp hrs
      exact .function hkeyword hname hopening hjoined hparts hlast harrow
        (derivesType_of_words (hresult type rfl) hts) (hblock hbs)
  | letDecl hdecl => exact .letDecl (derivesLet_of_words hdecl h)

/-- The tokens with the words of a well-formed program derive it. -/
theorem derivesProgram_of_words {program : Program} (hprogram : program.WellFormed)
    {us : List Token} (h : us.map Token.word = program.words) : DerivesProgram us program := by
  obtain ⟨⟨segments⟩, imports, items⟩ := program
  rw [Program.words] at h
  obtain ⟨keyword, vs, rfl, hkeyword, -, hvs⟩ := words_cons h
  obtain ⟨ps, ws, rfl, hps, hws⟩ := List.map_eq_append_iff.mp hvs
  obtain ⟨closing, xs, rfl, hclosing, -, hxs⟩ := words_cons hws
  obtain ⟨is, ds, rfl, his, hds⟩ := List.map_eq_append_iff.mp hxs
  obtain ⟨decls, rfl, rfl, hdecls⟩ := parts_of_words his
  obtain ⟨parts, rfl, rfl, hparts⟩ := parts_of_words hds
  refine .intro hkeyword (derivesSegments_of_words hprogram.moduleName.1 hps) hclosing ?_ ?_
  · intro decl hdecl
    exact derivesImport_of_words (hprogram.imports decl.2 (List.mem_map_of_mem hdecl))
      (hdecls decl hdecl)
  · intro item hitem
    exact derivesItem_of_words (hprogram.items item.2 (List.mem_map_of_mem hitem))
      (hparts item hitem)

end Quill.Grammar
