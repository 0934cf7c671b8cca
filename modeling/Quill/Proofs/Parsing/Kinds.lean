import Quill.Proofs.Parsing.FirstError
import Quill.Proofs.Parsing.Texts

/-!
# Kinds decide

Two token lists with the same kinds in the same order are read in the same way. Both are programs or
neither is; the programs have the same shape, and reading stops at the same place for the same
cause. Texts go into the tree as they are, so that with the same texts the programs are equal.
Positions are of no interest (`ofTokens_of_kinds`).

That reading stops in the same way is what locality says (`Grammar.program_error_local`). For the
trees the derivations are taken: whatever a list derives, the list of its tokens with less to look
at derives a tree that looks the same (`DerivesProgram.viewed`). If nothing is looked at but the
kinds, two lists with the same kinds become one.
-/

set_option autoImplicit false

namespace Quill

/-- A token with its kind and what is looked at of its text, placed at the start. -/
def Token.viewed (f : String → String) (t : Token) : Token := ⟨t.kind, f t.text, Pos.start⟩

namespace Grammar

section

variable {f : String → String}

/-! ## Lists of parts -/

section

variable {α β : Type} {derives : List Token → α → Prop} {g : α → β}

/-- Parts that can be derived from viewed tokens one by one, all together. -/
theorem exists_parts {parts : List (List Token × α)}
    (h : ∀ part ∈ parts, ∃ v, derives (part.1.map (Token.viewed f)) v ∧ g v = g part.2) :
    ∃ others : List (List Token × α),
      others.map Prod.fst = (parts.map Prod.fst).map (List.map (Token.viewed f)) ∧
      (∀ other ∈ others, derives other.1 other.2) ∧
      (others.map Prod.snd).map g = (parts.map Prod.snd).map g := by
  induction parts with
  | nil => exact ⟨[], rfl, fun _ hmem => absurd hmem List.not_mem_nil, rfl⟩
  | cons part parts ih =>
    obtain ⟨others, htokens, hothers, hviews⟩ :=
      ih fun part hpart => h part (List.mem_cons_of_mem _ hpart)
    obtain ⟨v, hv, hview⟩ := h part List.mem_cons_self
    refine ⟨(part.1.map (Token.viewed f), v) :: others, ?_,
      List.forall_mem_cons.mpr ⟨hv, hothers⟩, ?_⟩
    · rw [List.map_cons, htokens, List.map_cons, List.map_cons]
    · simp only [List.map_cons, hview, hviews]

/-- Parts that are viewed one by one are viewed all together. -/
theorem flatMap_viewed {parts others : List (List Token × α)}
    (h : others.map Prod.fst = (parts.map Prod.fst).map (List.map (Token.viewed f))) :
    others.flatMap Prod.fst = (parts.flatMap Prod.fst).map (Token.viewed f) := by
  rw [List.flatMap_def, h, List.flatMap_def, List.map_flatten]

/-- Viewing tokens keeps the commas between parts. -/
theorem CommaJoined.viewed {parts : List (List Token × α)} {us : List Token}
    (hjoined : CommaJoined parts us) {others : List (List Token × α)}
    (h : others.map Prod.fst = (parts.map Prod.fst).map (List.map (Token.viewed f))) :
    CommaJoined others (us.map (Token.viewed f)) := by
  induction hjoined generalizing others with
  | none =>
    obtain rfl := List.map_eq_nil_iff.mp h
    exact .none
  | one =>
    obtain ⟨other, others, rfl, hother, hothers⟩ := List.map_eq_cons_iff.mp h
    obtain rfl := List.map_eq_nil_iff.mp hothers
    rw [← hother]
    exact .one
  | more hcomma _ ih =>
    obtain ⟨other, others, rfl, hother, hothers⟩ := List.map_eq_cons_iff.mp h
    obtain ⟨second, others, rfl, -, -⟩ := List.map_eq_cons_iff.mp hothers
    rw [List.map_append, ← hother, List.map_cons]
    exact .more hcomma (ih hothers)

end

/-! ## Names and types -/

theorem DerivesSegments.viewed {us : List Token} {names : List String}
    (h : DerivesSegments us names) : DerivesSegments (us.map (Token.viewed f)) (names.map f) := by
  induction h with
  | one hname => exact .one hname
  | more hname hdot _ ih => exact .more hname hdot ih

variable (hf : IsView f)

include hf

/-- A second look shows nothing new. -/
theorem map_view_again (names : List String) : (names.map f).map f = names.map f := by
  rw [List.map_map]
  exact List.map_congr_left fun name _ => hf.again name

/-- Viewed tokens of a type derive a type that looks the same. -/
theorem DerivesType.viewed {rule : TypeRule} {us : List Token} {type : TypeExpr}
    (h : DerivesType rule us type) :
    ∃ other, DerivesType rule (us.map (Token.viewed f)) other ∧
      other.mapTexts f = type.mapTexts f := by
  induction h with
  | simple _ ih =>
    obtain ⟨other, hother, hview⟩ := ih
    exact ⟨other, .simple hother, hview⟩
  | array _ hopening hclosing ih =>
    obtain ⟨other, hother, hview⟩ := ih
    rw [List.map_append]
    exact ⟨.array other, .array hother hopening hclosing, by
      rw [TypeExpr.mapTexts, hview, TypeExpr.mapTexts]⟩
  | builtIn hkind =>
    exact ⟨_, .builtIn hkind, congrArg TypeExpr.named (hf.again _)⟩
  | segments hnames =>
    -- a name of segments looks the same when its segments do
    refine ⟨_, .segments hnames.viewed, congrArg TypeExpr.named ?_⟩
    exact hf.dotted _ _ (map_view_again hf _)
  | group hopening _ hclosing ih =>
    obtain ⟨other, hother, hview⟩ := ih
    rw [List.map_cons, List.map_append]
    exact ⟨other, .group hopening hother hclosing, hview⟩

theorem DerivesBinder.viewed {us : List Token} {binder : Binder} (h : DerivesBinder us binder) :
    ∃ other, DerivesBinder (us.map (Token.viewed f)) other ∧
      other.mapTexts f = binder.mapTexts f := by
  obtain ⟨hname, hcolon, htype⟩ := h
  obtain ⟨other, hother, hview⟩ := htype.viewed hf
  refine ⟨_, .intro hname hcolon hother, ?_⟩
  rw [Binder.mapTexts, Binder.mapTexts, hview]
  exact congrArg (Binder.mk · _) (hf.again _)

/-! ## Expressions -/

/-- Viewed tokens of an expression derive an expression that looks the same. -/
theorem DerivesExpr.viewed {level : Nat} {us : List Token} {expr : Expr}
    (h : DerivesExpr level us expr) :
    ∃ other, DerivesExpr level (us.map (Token.viewed f)) other ∧
      other.mapTexts f = expr.mapTexts f := by
  induction h with
  | lift _ ih =>
    obtain ⟨other, hother, hview⟩ := ih
    exact ⟨other, hother.lift, hview⟩
  | assign _ hsign _ ihtarget ihvalue =>
    obtain ⟨target, htarget, hviewTarget⟩ := ihtarget
    obtain ⟨value, hvalue, hviewValue⟩ := ihvalue
    rw [List.map_append, List.map_cons]
    refine ⟨_, .assign htarget hsign hvalue, ?_⟩
    rw [Expr.mapTexts, hviewTarget, hviewValue, Expr.mapTexts]
  | binary _ hsign _ ihlhs ihrhs =>
    obtain ⟨lhs, hlhs, hviewLeft⟩ := ihlhs
    obtain ⟨rhs, hrhs, hviewRight⟩ := ihrhs
    rw [List.map_append, List.map_cons]
    refine ⟨_, .binary hlhs hsign hrhs, ?_⟩
    rw [Expr.mapTexts, hviewLeft, hviewRight, Expr.mapTexts]
  | unary hsign _ ih =>
    obtain ⟨operand, hoperand, hview⟩ := ih
    rw [List.map_cons]
    refine ⟨_, .unary hsign hoperand, ?_⟩
    rw [Expr.mapTexts, hview, Expr.mapTexts]
  | call _ hopening hjoined _ hclosing ihcallee ihargs =>
    obtain ⟨callee, hcallee, hviewCallee⟩ := ihcallee
    -- what looks like a plain name is one, and may be called
    obtain ⟨name, rfl, hname⟩ := Expr.mapTexts_eq_var_iff.mp hviewCallee
    obtain ⟨args, htokens, hargs, hviewArgs⟩ := exists_parts ihargs
    rw [List.map_append, List.map_cons, List.map_append]
    refine ⟨_, .call hcallee hopening (hjoined.viewed htokens) hargs hclosing, ?_⟩
    rw [Expr.mapTexts, Expr.mapTexts, hname, Expr.mapTextsList_eq_map, Expr.mapTextsList_eq_map,
      hviewArgs]
  | index _ hopening _ hclosing iharray ihposition =>
    obtain ⟨array, harray, hviewArray⟩ := iharray
    obtain ⟨position, hposition, hviewPosition⟩ := ihposition
    rw [List.map_append, List.map_cons, List.map_append]
    refine ⟨_, .index harray hopening hposition hclosing, ?_⟩
    rw [Expr.mapTexts, hviewArray, hviewPosition, Expr.mapTexts]
  | member _ hdot hname ih =>
    obtain ⟨object, hobject, hview⟩ := ih
    rw [List.map_append]
    refine ⟨_, .member hobject hdot hname, ?_⟩
    rw [Expr.mapTexts, hview, Expr.mapTexts]
    exact congrArg (Expr.member _) (hf.again _)
  | var hname => exact ⟨_, .var hname, congrArg Expr.var (hf.again _)⟩
  | number hkind => exact ⟨_, .number hkind, congrArg Expr.number (hf.again _)⟩
  | string hkind => exact ⟨_, .string hkind, congrArg Expr.string (hf.again _)⟩
  | kwTrue hkind => exact ⟨_, .kwTrue hkind, rfl⟩
  | kwFalse hkind => exact ⟨_, .kwFalse hkind, rfl⟩
  | paren hopening _ hclosing ih =>
    obtain ⟨inner, hinner, hview⟩ := ih
    rw [List.map_cons, List.map_append]
    refine ⟨_, .paren hopening hinner hclosing, ?_⟩
    rw [Expr.mapTexts, hview, Expr.mapTexts]

/-! ## Statements -/

theorem DerivesLet.viewed {us : List Token} {decl : LetDecl} (h : DerivesLet us decl) :
    ∃ other, DerivesLet (us.map (Token.viewed f)) other ∧ other.mapTexts f = decl.mapTexts f := by
  cases h with
  | bare hkeyword hbinder hclosing =>
    obtain ⟨binder, hbinder, hview⟩ := hbinder.viewed hf
    obtain ⟨hname, htype⟩ := Binder.mk.inj hview
    rw [List.map_cons, List.map_append]
    refine ⟨_, .bare hkeyword hbinder hclosing, ?_⟩
    rw [LetDecl.mapTexts, LetDecl.mapTexts, hname, htype, Option.map_none]
  | valued hkeyword hbinder hsign hvalue hclosing =>
    obtain ⟨binder, hbinder, hview⟩ := hbinder.viewed hf
    obtain ⟨hname, htype⟩ := Binder.mk.inj hview
    obtain ⟨value, hvalue, hviewValue⟩ := hvalue.viewed hf
    rw [List.map_cons, List.map_append, List.map_cons, List.map_append]
    refine ⟨_, .valued hkeyword hbinder hsign hvalue hclosing, ?_⟩
    rw [LetDecl.mapTexts, LetDecl.mapTexts, hname, htype, Option.map_some, hviewValue,
      Option.map_some]

theorem DerivesCondition.viewed {us : List Token} {condition : Expr}
    (h : DerivesCondition us condition) :
    ∃ other, DerivesCondition (us.map (Token.viewed f)) other ∧
      other.mapTexts f = condition.mapTexts f := by
  obtain ⟨hopening, hvalue, hclosing⟩ := h
  obtain ⟨other, hother, hview⟩ := hvalue.viewed hf
  rw [List.map_cons, List.map_append]
  exact ⟨other, .intro hopening hother hclosing, hview⟩

/-- Viewed tokens of a statement derive a statement that looks the same. -/
theorem DerivesStmt.viewed {us : List Token} {stmt : Stmt} (h : DerivesStmt us stmt) :
    ∃ other, DerivesStmt (us.map (Token.viewed f)) other ∧ other.mapTexts f = stmt.mapTexts f := by
  induction h with
  | letDecl hdecl =>
    obtain ⟨decl, hdecl, hview⟩ := hdecl.viewed hf
    exact ⟨_, .letDecl hdecl, congrArg Stmt.letDecl hview⟩
  | expr hvalue hclosing =>
    obtain ⟨value, hvalue, hview⟩ := hvalue.viewed hf
    rw [List.map_append]
    exact ⟨_, .expr hvalue hclosing, congrArg Stmt.expr hview⟩
  | ifThen hkeyword hcondition _ ih =>
    obtain ⟨condition, hcondition, hviewCondition⟩ := hcondition.viewed hf
    obtain ⟨body, hbody, hviewBody⟩ := ih
    rw [List.map_cons, List.map_append]
    refine ⟨_, .ifThen hkeyword hcondition hbody, ?_⟩
    rw [Stmt.mapTexts, hviewCondition, hviewBody, Stmt.mapTexts]
  | ifElse hkeyword hcondition _ hclosed hother _ ihbody ihalternative =>
    obtain ⟨condition, hcondition, hviewCondition⟩ := hcondition.viewed hf
    obtain ⟨body, hbody, hviewBody⟩ := ihbody
    obtain ⟨alternative, halternative, hviewAlternative⟩ := ihalternative
    -- a body of the same shape leaves the `else` to the same conditional
    rw [← Stmt.endsOpen_mapTexts f, ← hviewBody, Stmt.endsOpen_mapTexts] at hclosed
    rw [List.map_cons, List.map_append, List.map_append, List.map_cons]
    refine ⟨_, .ifElse hkeyword hcondition hbody hclosed hother halternative, ?_⟩
    rw [Stmt.mapTexts, hviewCondition, hviewBody, hviewAlternative, Stmt.mapTexts]
  | whileDo hkeyword hcondition _ ih =>
    obtain ⟨condition, hcondition, hviewCondition⟩ := hcondition.viewed hf
    obtain ⟨body, hbody, hviewBody⟩ := ih
    rw [List.map_cons, List.map_append]
    refine ⟨_, .whileDo hkeyword hcondition hbody, ?_⟩
    rw [Stmt.mapTexts, hviewCondition, hviewBody, Stmt.mapTexts]
  | leave hkeyword hclosing => exact ⟨_, .leave hkeyword hclosing, rfl⟩
  | ret hkeyword hvalue hclosing =>
    obtain ⟨value, hvalue, hview⟩ := hvalue.viewed hf
    rw [List.map_cons, List.map_append]
    exact ⟨_, .ret hkeyword hvalue hclosing, congrArg (fun e => Stmt.ret (some e)) hview⟩
  | block hopening _ hclosing ih =>
    obtain ⟨body, htokens, hbody, hview⟩ := exists_parts ih
    rw [List.map_cons, List.map_append, ← flatMap_viewed htokens]
    refine ⟨_, .block hopening hbody hclosing, ?_⟩
    rw [Stmt.mapTexts, Stmt.mapTexts, Stmt.mapTextsList_eq_map, Stmt.mapTextsList_eq_map, hview]

/-- The block of a function. -/
theorem DerivesStmt.viewed_block {us : List Token} {body : List Stmt}
    (h : DerivesStmt us (.block body)) :
    ∃ others, DerivesStmt (us.map (Token.viewed f)) (.block others) ∧
      others.map (Stmt.mapTexts f) = body.map (Stmt.mapTexts f) := by
  obtain ⟨other, hother, hview⟩ := h.viewed hf
  -- what looks like a block is one
  cases other with
  | block others =>
    simp only [Stmt.mapTexts, Stmt.mapTextsList_eq_map, Stmt.block.injEq] at hview
    exact ⟨others, hother, hview⟩
  | _ => simp [Stmt.mapTexts] at hview

/-! ## Programs -/

theorem DerivesImport.viewed {us : List Token} {decl : Import} (h : DerivesImport us decl) :
    ∃ other, DerivesImport (us.map (Token.viewed f)) other ∧
      other.mapTexts f = decl.mapTexts f := by
  cases h with
  | bare hkeyword hpath hclosing =>
    rw [List.map_cons, List.map_append]
    refine ⟨_, .bare hkeyword hpath.viewed hclosing, ?_⟩
    rw [Import.mapTexts, Import.mapTexts, map_view_again hf, Option.map_none]
  | renamed hkeyword hpath hsign hname hclosing =>
    rw [List.map_cons, List.map_append]
    refine ⟨_, .renamed hkeyword hpath.viewed hsign hname hclosing, ?_⟩
    rw [Import.mapTexts, Import.mapTexts, map_view_again hf]
    exact congrArg (fun text => Import.mk _ (some text)) (hf.again _)

/-- Viewed tokens of an item derive an item that looks the same. -/
theorem DerivesItem.viewed {us : List Token} {item : Item} (h : DerivesItem us item) :
    ∃ other, DerivesItem (us.map (Token.viewed f)) other ∧ other.mapTexts f = item.mapTexts f := by
  have hagain : ∀ t : Token, f (Token.viewed f t).text = f t.text := fun t => hf.again t.text
  have hbinders : ∀ {parts : List (List Token × Binder)},
      (∀ part ∈ parts, DerivesBinder part.1 part.2) → ∀ part ∈ parts,
        ∃ other, DerivesBinder (part.1.map (Token.viewed f)) other ∧
          other.mapTexts f = part.2.mapTexts f :=
    fun h part hpart => (h part hpart).viewed hf
  cases h with
  | typeAlias hkeyword hname hsign htype hclosing =>
    obtain ⟨type, htype, hview⟩ := htype.viewed hf
    simp only [List.map_cons, List.map_append]
    refine ⟨_, .typeAlias hkeyword hname hsign htype hclosing, ?_⟩
    rw [Item.mapTexts, Item.mapTexts, hview, hagain]
  | struct hkeyword hname hopening hjoined hfields hlast hclosing =>
    obtain ⟨fields, htokens, hfields, hview⟩ := exists_parts (hbinders hfields)
    simp only [List.map_cons, List.map_append]
    refine ⟨_, .struct hkeyword hname hopening (hjoined.viewed htokens) hfields hlast hclosing, ?_⟩
    rw [Item.mapTexts, Item.mapTexts, hview, hagain]
  | const hkeyword hbinder hsign hvalue hclosing =>
    obtain ⟨binder, hbinder, hview⟩ := hbinder.viewed hf
    obtain ⟨hname, htype⟩ := Binder.mk.inj hview
    obtain ⟨value, hvalue, hviewValue⟩ := hvalue.viewed hf
    simp only [List.map_cons, List.map_append]
    refine ⟨_, .const hkeyword hbinder hsign hvalue hclosing, ?_⟩
    rw [Item.mapTexts, Item.mapTexts, hname, htype, hviewValue]
  | procedure hkeyword hname hopening hjoined hparams hlast hblock =>
    obtain ⟨params, htokens, hparams, hview⟩ := exists_parts (hbinders hparams)
    obtain ⟨body, hblock, hviewBody⟩ := hblock.viewed_block hf
    simp only [List.map_cons, List.map_append]
    refine ⟨_, .procedure hkeyword hname hopening (hjoined.viewed htokens) hparams hlast hblock, ?_⟩
    rw [Item.mapTexts, Item.mapTexts, hview, hviewBody, hagain, Option.map_none]
  | function hkeyword hname hopening hjoined hparams hlast harrow hresult hblock =>
    obtain ⟨params, htokens, hparams, hview⟩ := exists_parts (hbinders hparams)
    obtain ⟨result, hresult, hviewResult⟩ := hresult.viewed hf
    obtain ⟨body, hblock, hviewBody⟩ := hblock.viewed_block hf
    simp only [List.map_cons, List.map_append]
    refine ⟨_, .function hkeyword hname hopening (hjoined.viewed htokens) hparams hlast harrow
      hresult hblock, ?_⟩
    rw [Item.mapTexts, Item.mapTexts, hview, hviewBody, hagain, Option.map_some, hviewResult,
      Option.map_some]
  | letDecl hdecl =>
    obtain ⟨decl, hdecl, hview⟩ := hdecl.viewed hf
    exact ⟨_, .letDecl hdecl, congrArg Item.letDecl hview⟩

/-- What a list derives, its tokens derive with less to look at, but for what is not looked at. -/
theorem DerivesProgram.viewed {us : List Token} {tree : Program} (h : DerivesProgram us tree) :
    ∃ other, DerivesProgram (us.map (Token.viewed f)) other ∧
      other.mapTexts f = tree.mapTexts f := by
  obtain ⟨hkeyword, hname, hclosing, himports, hitems⟩ := h
  obtain ⟨imports, htokens, himports, hviewImports⟩ :=
    exists_parts fun part hpart => (himports part hpart).viewed hf
  obtain ⟨items, htokens', hitems, hviewItems⟩ :=
    exists_parts fun part hpart => (hitems part hpart).viewed hf
  simp only [List.map_cons, List.map_append]
  rw [← flatMap_viewed htokens, ← flatMap_viewed htokens']
  refine ⟨_, .intro hkeyword hname.viewed hclosing himports hitems, ?_⟩
  rw [Program.mapTexts, Program.mapTexts, hviewImports, hviewItems, map_view_again hf]

end

/-! ## Where reading stops -/

/-- Lists of the same kinds have the same kind ahead. -/
theorem ahead_of_kinds {ts ts' : List Token} (h : ts'.map Token.kind = ts.map Token.kind) :
    ahead ts' = ahead ts := by
  have hahead := ahead_append_congr h (rfl : ahead [] = ahead [])
  rwa [List.append_nil, List.append_nil] at hahead

/-- Reading stops in a list with the same kinds as it does in this one, after as many tokens. -/
theorem program_error_of_kinds {ts ts' : List Token}
    (hkinds : ts'.map Token.kind = ts.map Token.kind) {stop : Stop}
    (h : program ts = .error stop) :
    ∃ used used' rest', ts = used ++ stop.rest ∧ ts' = used' ++ rest' ∧
      used'.length = used.length ∧ ahead rest' = ahead stop.rest ∧
      program ts' = .error ⟨stop.cause, rest'⟩ := by
  -- the other list falls into the tokens used and those left as this one does
  have hsplit : ∀ used, ts = used ++ stop.rest → ∃ used' rest', ts' = used' ++ rest' ∧
      used'.map Token.kind = used.map Token.kind ∧
      rest'.map Token.kind = stop.rest.map Token.kind := by
    intro used hused
    rw [hused, List.map_append] at hkinds
    exact List.map_eq_append_iff.mp hkinds
  have hlength : ∀ {used used' : List Token}, used'.map Token.kind = used.map Token.kind →
      used'.length = used.length :=
    fun h => by simpa using congrArg List.length h
  rcases program_eq_error_iff.mp h with hwithin | ⟨_, _, extra, rest, _, hstop⟩
  · obtain ⟨used, hused, hsame⟩ :=
      (inStep_findsProgram (ts.length + 1)).error ts stop (Nat.lt_succ_self _) hwithin
    obtain ⟨used', rest', rfl, hfront, hback⟩ := hsplit used hused
    have hahead := ahead_of_kinds hback
    refine ⟨used, used', rest', hused, rfl, hlength hfront, hahead, ?_⟩
    exact program_eq_error_iff.mpr (.inl (hsame used' rest' hfront hahead))
  · obtain ⟨used, hused, hlocal⟩ := program_error_local h
    obtain ⟨used', rest', rfl, hfront, hback⟩ := hsplit used hused
    have hahead := ahead_of_kinds hback
    refine ⟨used, used', rest', hused, rfl, hlength hfront, hahead, ?_⟩
    refine hlocal used' rest' hfront hahead fun _ => ?_
    -- a token is left in this list, and so in the other
    rintro rfl
    rw [hstop] at hback
    simp at hback

end Grammar

namespace Program

open Grammar

/-- A program looks the same when it is read from tokens with less to look at. -/
theorem ofTokens_viewed {f : String → String} (hf : IsView f) {ts : List Token} {tree : Program}
    (h : ofTokens ts = .ok tree) :
    ∃ other, ofTokens (ts.map (Token.viewed f)) = .ok other ∧
      other.mapTexts f = tree.mapTexts f := by
  rw [ofTokens_eq_ok_iff_program] at h
  obtain ⟨us, hus, hts⟩ := program_eq_ok_iff.mp h
  obtain ⟨other, hother, hview⟩ := hus.viewed hf
  refine ⟨other, ?_, hview⟩
  rw [ofTokens_eq_ok_iff_program, program_eq_ok_iff]
  refine ⟨_, hother, ?_⟩
  rcases hts with rfl | ⟨last, hlast, rfl⟩
  · exact .inl rfl
  · exact .inr ⟨last.viewed f, hlast, by simp⟩

/-- Programs look the same if the tokens do that they are read from. -/
theorem mapTexts_eq_of_ofTokens {f : String → String} (hf : IsView f) {ts ts' : List Token}
    {tree tree' : Program} (h : ofTokens ts = .ok tree) (h' : ofTokens ts' = .ok tree')
    (hview : ts'.map (Token.viewed f) = ts.map (Token.viewed f)) :
    tree'.mapTexts f = tree.mapTexts f := by
  obtain ⟨other, hother, hlike⟩ := ofTokens_viewed hf h
  obtain ⟨other', hother', hlike'⟩ := ofTokens_viewed hf h'
  rw [hview, hother] at hother'
  obtain rfl := Except.ok.inj hother'
  exact hlike'.symm.trans hlike

/-- Tokens of the same kinds look the same if their texts do. -/
theorem map_viewed_of_kinds {f : String → String} {ts ts' : List Token}
    (hkinds : ts'.map Token.kind = ts.map Token.kind)
    (htexts : ts'.map (fun t => f t.text) = ts.map fun t => f t.text) :
    ts'.map (Token.viewed f) = ts.map (Token.viewed f) := by
  induction ts generalizing ts' with
  | nil =>
    obtain rfl := List.map_eq_nil_iff.mp hkinds
    rfl
  | cons t ts ih =>
    obtain ⟨t', ts', rfl, ht, hkinds⟩ := List.map_eq_cons_iff.mp hkinds
    obtain ⟨htext, htexts⟩ : f t'.text = f t.text ∧ _ := List.cons.inj htexts
    rw [List.map_cons, List.map_cons, ih hkinds htexts, Token.viewed, Token.viewed, ht, htext]

/-- The place of an error: the token named is the one there, and the stand-in after the last. -/
theorem token_of_stop (used : List Token) (stop : Stop) (standIn : Token) :
    stop.token standIn = (used ++ stop.rest)[used.length]?.getD standIn := by
  rw [Stop.token, List.getElem?_append_right (Nat.le_refl _), Nat.sub_self,
    List.head?_eq_getElem?]

/-- Two token lists with the same kinds in the same order are programs of the same shape, and of the
same texts if their tokens have the same texts; or reading them stops at the same place, with errors
of the same category and wording that name the tokens there. -/
theorem ofTokens_of_kinds {ts ts' : List Token} (hkinds : ts'.map Token.kind = ts.map Token.kind) :
    (∃ tree tree', ofTokens ts = .ok tree ∧ ofTokens ts' = .ok tree' ∧
      tree'.withoutTexts = tree.withoutTexts ∧
      (ts'.map Token.text = ts.map Token.text → tree' = tree)) ∨
    ∃ e e' cause i, ofTokens ts = .error e ∧ ofTokens ts' = .error e' ∧
      e'.kind = e.kind ∧ e'.message = e.message ∧ i ≤ ts.length ∧
      Grammar.program ts = .error ⟨cause, ts.drop i⟩ ∧
      Grammar.program ts' = .error ⟨cause, ts'.drop i⟩ ∧
      e.token = ts[i]?.getD (Token.standIn ts) ∧ e'.token = ts'[i]?.getD (Token.standIn ts') := by
  cases hread : Grammar.program ts with
  | ok tree =>
    left
    have htree := ofTokens_eq_ok_iff_program.mpr hread
    -- if reading the other list stopped, so would reading this one
    obtain ⟨tree', htree'⟩ : ∃ tree', ofTokens ts' = .ok tree' := by
      cases hread' : Grammar.program ts' with
      | ok tree' => exact ⟨tree', ofTokens_eq_ok_iff_program.mpr hread'⟩
      | error stop =>
        obtain ⟨_, _, _, -, -, -, -, hstop⟩ := program_error_of_kinds hkinds.symm hread'
        rw [hread] at hstop
        simp at hstop
    refine ⟨tree, tree', htree, htree', ?_, fun htexts => ?_⟩
    · refine mapTexts_eq_of_ofTokens isView_nothing htree htree' ?_
      have hlength : ts'.length = ts.length := by simpa using congrArg List.length hkinds
      exact map_viewed_of_kinds hkinds (by simp [List.map_const', hlength])
    · have hsame :=
        mapTexts_eq_of_ofTokens isView_id htree htree' (map_viewed_of_kinds hkinds htexts)
      rwa [mapTexts_id, mapTexts_id] at hsame
  | error stop =>
    right
    obtain ⟨used, used', rest', hused, hused', hlength, hahead, hread'⟩ :=
      program_error_of_kinds hkinds hread
    have hdrop : ts.drop used.length = stop.rest := by rw [hused, List.drop_left]
    have hdrop' : ts'.drop used.length = rest' := by rw [hused', ← hlength, List.drop_left]
    have htoken := token_of_stop used stop (Token.standIn ts)
    have htoken' := token_of_stop used' ⟨stop.cause, rest'⟩ (Token.standIn ts')
    rw [← hused] at htoken
    rw [← hused', hlength] at htoken'
    have hkind : (Stop.token ⟨stop.cause, rest'⟩ (Token.standIn ts')).kind =
        (stop.token (Token.standIn ts)).kind := by
      rw [Stop.kind_token _ rfl, Stop.kind_token _ rfl, hahead]
    refine ⟨_, _, stop.cause, used.length, ofTokens_eq_error_iff.mpr ⟨stop, hread, rfl⟩,
      ofTokens_eq_error_iff.mpr ⟨_, hread', rfl⟩, SyntaxError.kind_congr rfl hkind,
      SyntaxError.message_congr rfl hkind, by simp [hused], ?_, ?_, htoken, htoken'⟩
    · rw [hdrop]
    · rw [hread', hdrop']

/-- A dotted name, and another one whose tokens have lost their other texts and their places. -/
theorem ofTokens_of_kinds_renamed :
    ∃ tree tree',
      ofTokens [⟨.kwModule, "module", ⟨1, 1⟩⟩, ⟨.ident, "a", ⟨1, 8⟩⟩, ⟨.dot, ".", ⟨1, 9⟩⟩,
        ⟨.ident, "b", ⟨1, 10⟩⟩, ⟨.semicolon, ";", ⟨1, 11⟩⟩] = .ok tree ∧
      ofTokens [⟨.kwModule, "", ⟨0, 0⟩⟩, ⟨.ident, "module", ⟨0, 0⟩⟩, ⟨.dot, "", ⟨0, 0⟩⟩,
        ⟨.ident, ";", ⟨0, 0⟩⟩, ⟨.semicolon, "", ⟨0, 0⟩⟩] = .ok tree' ∧
      tree'.withoutTexts = tree.withoutTexts := by
  have hkinds :
      List.map Token.kind [⟨.kwModule, "", ⟨0, 0⟩⟩, ⟨.ident, "module", ⟨0, 0⟩⟩,
        ⟨.dot, "", ⟨0, 0⟩⟩, ⟨.ident, ";", ⟨0, 0⟩⟩, ⟨.semicolon, "", ⟨0, 0⟩⟩] =
      List.map Token.kind [⟨.kwModule, "module", ⟨1, 1⟩⟩, ⟨.ident, "a", ⟨1, 8⟩⟩,
        ⟨.dot, ".", ⟨1, 9⟩⟩, ⟨.ident, "b", ⟨1, 10⟩⟩, ⟨.semicolon, ";", ⟨1, 11⟩⟩] := rfl
  rcases ofTokens_of_kinds hkinds with ⟨tree, tree', htree, htree', hshape, -⟩ | hrejected
  · exact ⟨tree, tree', htree, htree', hshape⟩
  · obtain ⟨e, _, _, _, he, -⟩ := hrejected
    cbv at he
    simp at he

end Program

end Quill
