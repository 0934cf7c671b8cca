import Quill.Grammar.Programs
import Quill.Proofs.Parsing.Statements

/-!
# Reading declarations is deriving them

Soundness and completeness of the module line, of imports and of the declarations at the top
level. Each of them ends in a token of its own, a semicolon or the closing brace of a block, so
nothing that follows could go on one, and completeness asks nothing of what follows.
-/

set_option autoImplicit false

namespace Quill.Grammar

open Reading (outcome)

/-! ## Imports and the module line -/

/-- What is read as a module header is its keyword, derived segments and a semicolon. -/
theorem moduleHeader_sound {ts rest : List Token} {name : QualifiedName}
    (h : outcome (moduleHeader ts) = .ok (name, rest)) :
    ∃ keyword us closing, ts = keyword :: (us ++ closing :: rest) ∧ keyword.kind = .kwModule ∧
      DerivesSegments us name.segments ∧ closing.kind = .semicolon := by
  rw [moduleHeader] at h
  obtain ⟨keyword, us, rfl, hkeyword, h⟩ := Reading.expect_bind_eq_ok_iff.mp h
  obtain ⟨path, vs, hpath, h⟩ := Reading.next_bind_eq_ok_iff.mp h
  obtain ⟨ws, rfl, hws⟩ := qualifiedName_sound hpath
  obtain ⟨closing, xs, rfl, hclosing, h⟩ := Reading.following_bind_eq_ok_iff.mp h
  obtain ⟨rfl, rfl⟩ := Reading.pure_give_eq_ok_iff.mp h
  exact ⟨keyword, ws, closing, rfl, hkeyword, hws, hclosing⟩

/-- A derived module header is read. -/
theorem moduleHeader_complete {keyword closing : Token} {us : List Token} {segments : List String}
    (hkeyword : keyword.kind = .kwModule) (hus : DerivesSegments us segments)
    (hclosing : closing.kind = .semicolon) (rest : List Token) :
    outcome (moduleHeader (keyword :: (us ++ closing :: rest))) = .ok (⟨segments⟩, rest) := by
  have hpath : outcome (qualifiedName (us ++ closing :: rest)) =
      .ok (⟨segments⟩, closing :: rest) :=
    qualifiedName_complete hus (by simp [ahead, hclosing])
  rw [moduleHeader, Reading.expect_of_cons hkeyword, Reading.next_of_ok hpath,
    Reading.following_of_cons hclosing]
  rfl

/-- What is read as an import is derived. -/
theorem importDecl_sound {ts rest : List Token} {decl : Import}
    (h : outcome (importDecl ts) = .ok (decl, rest)) :
    ∃ us, ts = us ++ rest ∧ DerivesImport us decl := by
  rw [importDecl] at h
  obtain ⟨keyword, us, rfl, hkeyword, h⟩ := Reading.expect_bind_eq_ok_iff.mp h
  obtain ⟨path, vs, hpath, h⟩ := Reading.next_bind_eq_ok_iff.mp h
  obtain ⟨ws, rfl, hws⟩ := qualifiedName_sound hpath
  rcases Reading.accept_cases .kwAs (by decide) vs with
    ⟨hnone, -⟩ | ⟨sign, xs, rfl, hsign, hsome⟩
  · simp only [hnone] at h
    obtain ⟨closing, ys, rfl, hclosing, h⟩ := Reading.following_bind_eq_ok_iff.mp h
    obtain ⟨rfl, rfl⟩ := Reading.pure_give_eq_ok_iff.mp h
    exact ⟨keyword :: (ws ++ [closing]), by simp, .bare hkeyword hws hclosing⟩
  · simp only [hsome] at h
    obtain ⟨text, ys, hname, h⟩ := Reading.next_bind_eq_ok_iff.mp h
    obtain ⟨name, rfl, hkind, rfl⟩ := name_eq_ok_iff.mp hname
    obtain ⟨closing, zs, rfl, hclosing, h⟩ := Reading.following_bind_eq_ok_iff.mp h
    obtain ⟨rfl, rfl⟩ := Reading.pure_give_eq_ok_iff.mp h
    exact ⟨keyword :: (ws ++ [sign, name, closing]), by simp,
      .renamed hkeyword hws hsign hkind hclosing⟩

/-- A derived import is read. -/
theorem importDecl_complete {us : List Token} {decl : Import} (h : DerivesImport us decl)
    (rest : List Token) : outcome (importDecl (us ++ rest)) = .ok (decl, rest) := by
  cases h with
  | @bare us keyword closing segments hkeyword hus hclosing =>
    have hpath : outcome (qualifiedName (us ++ closing :: rest)) =
        .ok (⟨segments⟩, closing :: rest) :=
      qualifiedName_complete hus (by simp [ahead, hclosing])
    rw [List.cons_append, List.append_assoc, List.singleton_append, importDecl,
      Reading.expect_of_cons hkeyword, Reading.next_of_ok hpath,
      Reading.accept_of_ne (by simp [ahead, hclosing])]
    simp only
    rw [Reading.following_of_cons hclosing]
    rfl
  | @renamed us keyword sign name closing segments hkeyword hus hsign hname hclosing =>
    have hpath : outcome (qualifiedName (us ++ sign :: name :: closing :: rest)) =
        .ok (⟨segments⟩, sign :: name :: closing :: rest) :=
      qualifiedName_complete hus (by simp [ahead, hsign])
    have hshape : keyword :: (us ++ [sign, name, closing]) ++ rest =
        keyword :: (us ++ sign :: name :: closing :: rest) := by simp
    rw [hshape, importDecl, Reading.expect_of_cons hkeyword, Reading.next_of_ok hpath,
      Reading.accept_of_cons hsign]
    simp only
    rw [Reading.next_of_ok (name_of_cons hname _), Reading.following_of_cons hclosing]
    rfl

/-! ## Declarations -/

theorem typeAlias_sound {ts rest : List Token} {result : Item}
    (h : outcome (typeAlias ts) = .ok (result, rest)) :
    ∃ us, ts = us ++ rest ∧ DerivesItem us result := by
  rw [typeAlias] at h
  obtain ⟨keyword, us, rfl, hkeyword, h⟩ := Reading.expect_bind_eq_ok_iff.mp h
  obtain ⟨text, vs, hname, h⟩ := Reading.next_bind_eq_ok_iff.mp h
  obtain ⟨name, rfl, hkind, rfl⟩ := name_eq_ok_iff.mp hname
  obtain ⟨sign, ws, rfl, hsign, h⟩ := Reading.following_bind_eq_ok_iff.mp h
  obtain ⟨type, xs, htype, h⟩ := Reading.next_bind_eq_ok_iff.mp h
  obtain ⟨ys, rfl, hys⟩ := typeExpr_sound htype
  obtain ⟨closing, zs, rfl, hclosing, h⟩ := Reading.following_bind_eq_ok_iff.mp h
  obtain ⟨rfl, rfl⟩ := Reading.pure_give_eq_ok_iff.mp h
  exact ⟨keyword :: name :: sign :: (ys ++ [closing]), by simp,
    .typeAlias hkeyword hkind hsign hys hclosing⟩

/-- Binders with commas between them, read up to their closing token. -/
theorem binders_sound {close : Kind} (hclose : close ≠ .eof) {ts rest : List Token}
    {binders : List Binder}
    (h : outcome (closedList close ts fun us _ => binder us) = .ok (binders, rest)) :
    ∃ parts inner closing, ts = inner ++ closing :: rest ∧ closing.kind = close ∧
      CommaJoined parts inner ∧ (∀ part ∈ parts, DerivesBinder part.1 part.2) ∧
      parts.map Prod.snd = binders := by
  have helement : ∀ us (hus : us.length ≤ ts.length) value rest,
      outcome (binder us) = .ok (value, rest) → ∃ vs, us = vs ++ rest ∧ DerivesBinder vs value :=
    fun us _ value rest h => binder_sound h
  exact closedList_sound hclose helement h

/-- Derived names with types, with commas between them and a closing mark, are read as a list. -/
theorem binders_complete {close : Kind} (hclose : close = .rparen ∨ close = .rbrace)
    {closing : Token} (hclosing : closing.kind = close) {parts : List (List Token × Binder)}
    {inner : List Token} (hjoined : CommaJoined parts inner)
    (hparts : ∀ part ∈ parts, DerivesBinder part.1 part.2) (rest : List Token) :
    outcome (closedList close (inner ++ closing :: rest) fun us _ => binder us) =
      .ok (parts.map Prod.snd, rest) := by
  -- neither closing mark could go on a type or separate two parameters
  have hkinds : close ≠ .comma ∧ close ≠ .ident ∧ close ≠ .dot ∧ close ≠ .lbracket := by
    rcases hclose with rfl | rfl <;> decide
  obtain ⟨hcomma, hident, hdot, hbracket⟩ := hkinds
  have hstart : ∀ part ∈ parts, ∃ t us, part.1 = t :: us ∧ t.kind ≠ close := by
    intro part hpart
    obtain ⟨t, us, hus, ht⟩ := (hparts part hpart).starts
    exact ⟨t, us, hus, ht ▸ hident.symm⟩
  apply closedList_complete hcomma hclosing hjoined hstart
  intro part hpart us _ hus
  apply binder_complete (hparts part hpart)
  · rcases hus with hus | hus
    · simp [hus]
    · exact hus ▸ hdot
  · rcases hus with hus | hus
    · simp [hus]
    · exact hus ▸ hbracket

theorem structDecl_sound {ts rest : List Token} {result : Item}
    (h : outcome (structDecl ts) = .ok (result, rest)) :
    ∃ us, ts = us ++ rest ∧ DerivesItem us result := by
  rw [structDecl] at h
  obtain ⟨keyword, us, rfl, hkeyword, h⟩ := Reading.expect_bind_eq_ok_iff.mp h
  obtain ⟨text, vs, hname, h⟩ := Reading.next_bind_eq_ok_iff.mp h
  obtain ⟨name, rfl, hkind, rfl⟩ := name_eq_ok_iff.mp hname
  obtain ⟨opening, ws, rfl, hopening, h⟩ := Reading.following_bind_eq_ok_iff.mp h
  obtain ⟨fields, xs, hfields, h⟩ := Reading.next_bind_eq_ok_iff.mp h
  obtain ⟨parts, inner, last, rfl, hlast, hjoined, hparts, rfl⟩ :=
    binders_sound (by decide) hfields
  obtain ⟨closing, ys, rfl, hclosing, h⟩ := Reading.following_bind_eq_ok_iff.mp h
  obtain ⟨rfl, rfl⟩ := Reading.pure_give_eq_ok_iff.mp h
  exact ⟨keyword :: name :: opening :: (inner ++ [last, closing]), by simp,
    .struct hkeyword hkind hopening hjoined hparts hlast hclosing⟩

theorem constDecl_sound {ts rest : List Token} {result : Item}
    (h : outcome (constDecl ts) = .ok (result, rest)) :
    ∃ us, ts = us ++ rest ∧ DerivesItem us result := by
  rw [constDecl] at h
  obtain ⟨keyword, us, rfl, hkeyword, h⟩ := Reading.expect_bind_eq_ok_iff.mp h
  obtain ⟨binding, vs, hbinding, h⟩ := Reading.next_bind_eq_ok_iff.mp h
  obtain ⟨ws, rfl, hws⟩ := binder_sound hbinding
  obtain ⟨sign, xs, rfl, hsign, h⟩ := Reading.following_bind_eq_ok_iff.mp h
  obtain ⟨value, ys, hvalue, h⟩ := Reading.next_bind_eq_ok_iff.mp h
  obtain ⟨zs, rfl, hzs⟩ := expr_sound hvalue
  obtain ⟨closing, ys, rfl, hclosing, h⟩ := Reading.following_bind_eq_ok_iff.mp h
  obtain ⟨rfl, rfl⟩ := Reading.pure_give_eq_ok_iff.mp h
  exact ⟨keyword :: (ws ++ sign :: (zs ++ [closing])), by simp,
    .const hkeyword hws hsign hzs hclosing⟩

theorem fnDecl_sound {ts rest : List Token} {result : Item}
    (h : outcome (fnDecl ts) = .ok (result, rest)) :
    ∃ us, ts = us ++ rest ∧ DerivesItem us result := by
  rw [fnDecl] at h
  obtain ⟨keyword, us, rfl, hkeyword, h⟩ := Reading.expect_bind_eq_ok_iff.mp h
  obtain ⟨text, vs, hname, h⟩ := Reading.next_bind_eq_ok_iff.mp h
  obtain ⟨name, rfl, hkind, rfl⟩ := name_eq_ok_iff.mp hname
  obtain ⟨opening, ws, rfl, hopening, h⟩ := Reading.following_bind_eq_ok_iff.mp h
  obtain ⟨params, xs, hparams, h⟩ := Reading.next_bind_eq_ok_iff.mp h
  obtain ⟨parts, inner, last, rfl, hlast, hjoined, hparts, rfl⟩ :=
    binders_sound (by decide) hparams
  rcases Reading.accept_cases .arrow (by decide) xs with
    ⟨hnone, -⟩ | ⟨arrow, ys, rfl, harrow, hsome⟩
  · -- no arrow: the block comes next, and no result type is kept
    simp only [hnone] at h
    obtain ⟨body, zs, hbody, h⟩ := Reading.next_bind_eq_ok_iff.mp h
    obtain ⟨rfl, rfl⟩ := Reading.pure_give_eq_ok_iff.mp h
    obtain ⟨bs, rfl, hbs⟩ := block_sound (fun us _ => stmt_sound us) hbody
    exact ⟨keyword :: name :: opening :: (inner ++ last :: bs), by simp,
      .procedure hkeyword hkind hopening hjoined hparts hlast hbs⟩
  · -- an arrow: the result type comes before the block
    simp only [hsome] at h
    obtain ⟨type, zs, htype, h⟩ := Reading.next_bind_eq_ok_iff.mp h
    obtain ⟨rs, rfl, hrs⟩ := typeExpr_sound htype
    obtain ⟨body, zs, hbody, h⟩ := Reading.next_bind_eq_ok_iff.mp h
    obtain ⟨rfl, rfl⟩ := Reading.pure_give_eq_ok_iff.mp h
    obtain ⟨bs, rfl, hbs⟩ := block_sound (fun us _ => stmt_sound us) hbody
    exact ⟨keyword :: name :: opening :: (inner ++ last :: arrow :: (rs ++ bs)), by simp,
      .function hkeyword hkind hopening hjoined hparts hlast harrow hrs hbs⟩

/-- What is read as an item is derived, whichever of the five it is. -/
theorem item_sound {ts rest : List Token} {result : Item}
    (h : outcome (item ts) = .ok (result, rest)) :
    ∃ us, ts = us ++ rest ∧ DerivesItem us result := by
  rw [item] at h
  split at h
  · exact typeAlias_sound h
  · exact structDecl_sound h
  · exact constDecl_sound h
  · exact fnDecl_sound h
  · obtain ⟨decl, us, hdecl, h⟩ := Reading.bind_eq_ok_iff.mp h
    obtain ⟨rfl, rfl⟩ := Reading.pure_give_eq_ok_iff.mp h
    obtain ⟨vs, rfl, hvs⟩ := letDecl_sound hdecl
    exact ⟨vs, rfl, .letDecl hvs⟩
  · simp at h

/-! ## Declarations, completely read -/

theorem typeAlias_complete {us : List Token} {keyword name sign closing : Token} {type : TypeExpr}
    (hkeyword : keyword.kind = .kwType) (hname : name.kind = .ident) (hsign : sign.kind = .assign)
    (htype : DerivesType .type us type) (hclosing : closing.kind = .semicolon)
    (rest : List Token) :
    outcome (typeAlias (keyword :: name :: sign :: (us ++ closing :: rest))) =
      .ok (.typeAlias name.text type, rest) := by
  have hread : outcome (typeExpr (us ++ closing :: rest)) = .ok (type, closing :: rest) :=
    typeExpr_complete htype (by simp [ahead, hclosing]) (by simp [ahead, hclosing])
  rw [typeAlias, Reading.expect_of_cons hkeyword, Reading.next_of_ok (name_of_cons hname _),
    Reading.following_of_cons hsign, Reading.next_of_ok hread, Reading.following_of_cons hclosing]
  rfl

theorem structDecl_complete {inner : List Token} {keyword name opening last closing : Token}
    {fields : List (List Token × Binder)} (hkeyword : keyword.kind = .kwStruct)
    (hname : name.kind = .ident) (hopening : opening.kind = .lbrace)
    (hjoined : CommaJoined fields inner)
    (hfields : ∀ field ∈ fields, DerivesBinder field.1 field.2) (hlast : last.kind = .rbrace)
    (hclosing : closing.kind = .semicolon) (rest : List Token) :
    outcome (structDecl (keyword :: name :: opening :: (inner ++ last :: closing :: rest))) =
      .ok (.struct name.text (fields.map Prod.snd), rest) := by
  have hread := binders_complete (.inr rfl) hlast hjoined hfields (closing :: rest)
  rw [structDecl, Reading.expect_of_cons hkeyword, Reading.next_of_ok (name_of_cons hname _),
    Reading.following_of_cons hopening, Reading.next_of_ok hread,
    Reading.following_of_cons hclosing]
  rfl

theorem constDecl_complete {us vs : List Token} {keyword sign closing : Token}
    {binding : Binder} {value : Expr} (hkeyword : keyword.kind = .kwConst)
    (hbinding : DerivesBinder us binding) (hsign : sign.kind = .assign)
    (hvalue : DerivesExpr 0 vs value) (hclosing : closing.kind = .semicolon)
    (rest : List Token) :
    outcome (constDecl (keyword :: (us ++ sign :: (vs ++ closing :: rest)))) =
      .ok (.const binding.name binding.type value, rest) := by
  have hread : outcome (binder (us ++ sign :: (vs ++ closing :: rest))) =
      .ok (binding, sign :: (vs ++ closing :: rest)) :=
    binder_complete hbinding (by simp [ahead, hsign]) (by simp [ahead, hsign])
  have hvalue : outcome (expr (vs ++ closing :: rest)) = .ok (value, closing :: rest) :=
    expr_complete hvalue hclosing rfl
  rw [constDecl, Reading.expect_of_cons hkeyword, Reading.next_of_ok hread,
    Reading.following_of_cons hsign, Reading.next_of_ok hvalue,
    Reading.following_of_cons hclosing]
  rfl

/-- A derived function without an arrow is read, with no result type. -/
theorem fnDecl_complete_procedure {inner block : List Token} {keyword name opening last : Token}
    {params : List (List Token × Binder)} {body : List Stmt} (hkeyword : keyword.kind = .kwFn)
    (hname : name.kind = .ident) (hopening : opening.kind = .lparen)
    (hjoined : CommaJoined params inner)
    (hparams : ∀ param ∈ params, DerivesBinder param.1 param.2) (hlast : last.kind = .rparen)
    (hblock : DerivesStmt block (.block body)) (rest : List Token) :
    outcome (fnDecl (keyword :: name :: opening :: (inner ++ last :: (block ++ rest)))) =
      .ok (.fn name.text (params.map Prod.snd) none body, rest) := by
  have hread := binders_complete (.inl rfl) hlast hjoined hparams (block ++ rest)
  have harrow : ahead (block ++ rest) ≠ .arrow := by
    rw [ahead_block hblock rest]
    decide
  rw [fnDecl, Reading.expect_of_cons hkeyword, Reading.next_of_ok (name_of_cons hname _),
    Reading.following_of_cons hopening, Reading.next_of_ok hread, Reading.accept_of_ne harrow]
  simp only
  rw [Reading.next_of_ok (block_complete hblock rest)]
  rfl

/-- A derived function with an arrow is read, with its result type. -/
theorem fnDecl_complete_function {inner us block : List Token}
    {keyword name opening last arrow : Token} {params : List (List Token × Binder)}
    {result : TypeExpr} {body : List Stmt} (hkeyword : keyword.kind = .kwFn)
    (hname : name.kind = .ident) (hopening : opening.kind = .lparen)
    (hjoined : CommaJoined params inner)
    (hparams : ∀ param ∈ params, DerivesBinder param.1 param.2) (hlast : last.kind = .rparen)
    (harrow : arrow.kind = .arrow) (hresult : DerivesType .type us result)
    (hblock : DerivesStmt block (.block body)) (rest : List Token) :
    outcome (fnDecl
        (keyword :: name :: opening :: (inner ++ last :: arrow :: (us ++ (block ++ rest))))) =
      .ok (.fn name.text (params.map Prod.snd) (some result) body, rest) := by
  have hread := binders_complete (.inl rfl) hlast hjoined hparams (arrow :: (us ++ (block ++ rest)))
  have hahead := ahead_block hblock rest
  have htype : outcome (typeExpr (us ++ (block ++ rest))) = .ok (result, block ++ rest) :=
    typeExpr_complete hresult (by simp [hahead]) (by simp [hahead])
  rw [fnDecl, Reading.expect_of_cons hkeyword, Reading.next_of_ok (name_of_cons hname _),
    Reading.following_of_cons hopening, Reading.next_of_ok hread, Reading.accept_of_cons harrow]
  simp only
  rw [Reading.next_of_ok htype, Reading.next_of_ok (block_complete hblock rest)]
  rfl

/-- A derived declaration is read, whatever follows. -/
theorem item_complete {us : List Token} {tree : Item} (h : DerivesItem us tree)
    (rest : List Token) : outcome (item (us ++ rest)) = .ok (tree, rest) := by
  cases h with
  | typeAlias hkeyword hname hsign htype hclosing =>
    rw [List.cons_append, List.cons_append, List.cons_append, List.append_assoc,
      List.singleton_append, item, ahead, hkeyword]
    exact typeAlias_complete hkeyword hname hsign htype hclosing rest
  | struct hkeyword hname hopening hjoined hfields hlast hclosing =>
    rw [List.cons_append, List.cons_append, List.cons_append, List.append_assoc, List.cons_append,
      List.singleton_append, item, ahead, hkeyword]
    exact structDecl_complete hkeyword hname hopening hjoined hfields hlast hclosing rest
  | const hkeyword hbinding hsign hvalue hclosing =>
    rw [List.cons_append, List.append_assoc, List.cons_append, List.append_assoc,
      List.singleton_append, item, ahead, hkeyword]
    exact constDecl_complete hkeyword hbinding hsign hvalue hclosing rest
  | procedure hkeyword hname hopening hjoined hparams hlast hblock =>
    rw [List.cons_append, List.cons_append, List.cons_append, List.append_assoc, List.cons_append,
      item, ahead, hkeyword]
    exact fnDecl_complete_procedure hkeyword hname hopening hjoined hparams hlast hblock rest
  | function hkeyword hname hopening hjoined hparams hlast harrow hresult hblock =>
    rw [List.cons_append, List.cons_append, List.cons_append, List.append_assoc, List.cons_append,
      List.cons_append, List.append_assoc, item, ahead, hkeyword]
    exact fnDecl_complete_function hkeyword hname hopening hjoined hparams hlast harrow hresult
      hblock rest
  | letDecl hdecl =>
    rw [item, hdecl.ahead_eq rest]
    simp only
    rw [Reading.bind_of_ok (letDecl_complete hdecl rest)]
    rfl

end Quill.Grammar
