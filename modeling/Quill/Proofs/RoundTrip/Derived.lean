import Quill.Proofs.RoundTrip.WellFormed

/-!
# What is read from a text is well formed

The tokens of a text are spelled as their kinds are. A tree that such tokens derive is well formed:
its names and literals are the texts of tokens of the right kind, and an operand derived at a level
stands on that level or a later one.
-/

set_option autoImplicit false

namespace Quill

open Lexical

/-- Each token has the spelling of its kind. -/
def Spelled (ts : List Token) : Prop :=
  ∀ t ∈ ts, IsLexeme t.kind t.text.toList

@[simp] theorem spelled_cons {t : Token} {ts : List Token} :
    Spelled (t :: ts) ↔ IsLexeme t.kind t.text.toList ∧ Spelled ts :=
  List.forall_mem_cons

@[simp] theorem spelled_append {ts us : List Token} :
    Spelled (ts ++ us) ↔ Spelled ts ∧ Spelled us :=
  List.forall_mem_append

/-- Each part of a spelled list is spelled. -/
theorem Spelled.of_flatMap {α : Type} {parts : List (List Token × α)}
    (h : Spelled (parts.flatMap Prod.fst)) : ∀ part ∈ parts, Spelled part.1 :=
  fun part hpart t ht => h t (List.mem_flatMap.mpr ⟨part, hpart, ht⟩)

/-- A token of the kind of a keyword is that keyword. -/
theorem keyword_of_isLexeme {kind : Kind} {word : String} (h : IsLexeme kind word.toList)
    (hkind : kind ∈ Kind.keywords.map Prod.snd) : (word, kind) ∈ Kind.keywords := by
  generalize hword : word.toList = chars at h
  cases h with
  | number => simp [Kind.keywords] at hkind
  | string => simp [Kind.keywords] at hkind
  | name => simp [Kind.keywords] at hkind
  | keyword hmem => rwa [String.toList_inj.mp hword]
  | double hmem =>
    have apart : ∀ mark ∈ Kind.doubleMarks, mark.2 ∉ Kind.keywords.map Prod.snd := by decide
    exact absurd hkind (apart _ hmem)
  | single hmem =>
    have apart : ∀ mark ∈ Kind.singleMarks, mark.2 ∉ Kind.keywords.map Prod.snd := by decide
    exact absurd hkind (apart _ hmem)

namespace Grammar

/-- Parts of a spelled list are spelled. -/
theorem CommaJoined.spelled {α : Type} {parts : List (List Token × α)} {us : List Token}
    (h : CommaJoined parts us) (hus : Spelled us) : ∀ part ∈ parts, Spelled part.1 := by
  induction h with
  | none => simp
  | one => simpa using hus
  | more _ _ ih =>
    simp only [spelled_append, spelled_cons] at hus
    exact List.forall_mem_cons.mpr ⟨hus.1, ih hus.2.2⟩

/-! ## Names and types -/

theorem DerivesSegments.wellFormed {us : List Token} {names : List String}
    (h : DerivesSegments us names) (hus : Spelled us) : QualifiedName.WellFormed ⟨names⟩ := by
  induction h with
  | one hname =>
    refine ⟨by simp, ?_⟩
    rw [spelled_cons, hname] at hus
    exact List.forall_mem_singleton.mpr hus.1
  | @more name dot us others hname _ _ ih =>
    rw [spelled_cons, spelled_cons, hname] at hus
    obtain ⟨-, hothers⟩ := ih hus.2.2
    exact ⟨by simp, List.forall_mem_cons.mpr ⟨hus.1, hothers⟩⟩

/-- A type derived from spelled tokens is well-formed. -/
theorem DerivesType.wellFormed {rule : TypeRule} {us : List Token} {type : TypeExpr}
    (h : DerivesType rule us type) (hus : Spelled us) : type.WellFormed := by
  induction h with
  | simple _ ih => exact ih hus
  | array _ _ _ ih => exact .array (ih (spelled_append.mp hus).1)
  | @builtIn t hkind =>
    have hword := (spelled_cons.mp hus).1
    apply TypeExpr.WellFormed.builtIn
    rcases hkind with hkind | hkind | hkind
    all_goals
      -- the table has one word for the kind
      have hmem := keyword_of_isLexeme hword (by rw [hkind]; decide)
      rw [hkind] at hmem
      simp only [Kind.keywords, List.mem_cons, Prod.mk.injEq, reduceCtorEq, and_false, and_true,
        false_or, or_false, List.not_mem_nil] at hmem
      simp [hmem]
  | segments hnames =>
    obtain ⟨hne, hall⟩ := hnames.wellFormed hus
    exact .segments hne hall
  | group _ _ _ ih =>
    simp only [spelled_cons, spelled_append] at hus
    exact ih hus.2.1

theorem DerivesBinder.wellFormed {us : List Token} {binder : Binder} (h : DerivesBinder us binder)
    (hus : Spelled us) : binder.WellFormed := by
  obtain ⟨hname, -, htype⟩ := h
  simp only [spelled_cons, hname] at hus
  exact ⟨hus.1, htype.wellFormed hus.2.2⟩

/-! ## Expressions -/

/-- An expression derived at a level is well formed and stands on that level or a later one. Names,
literals and parentheses have no level of their own, but stand on the last one with suffixes. -/
theorem DerivesExpr.wellFormed {level : Nat} {us : List Token} {expr : Expr}
    (h : DerivesExpr level us expr) (hus : Spelled us) :
    expr.WellFormed ∧ min level 8 ≤ expr.level := by
  induction h with
  | lift _ ih =>
    obtain ⟨hexpr, hlevel⟩ := ih hus
    exact ⟨hexpr, by omega⟩
  | assign _ _ _ ihtarget ihvalue =>
    simp only [spelled_append, spelled_cons] at hus
    obtain ⟨htarget, hlevel⟩ := ihtarget hus.1
    obtain ⟨hvalue, -⟩ := ihvalue hus.2.2
    exact ⟨.assign hlevel htarget hvalue, Nat.zero_le _⟩
  | @binary us vs sign op lhs rhs _ _ _ ihlhs ihrhs =>
    simp only [spelled_append, spelled_cons] at hus
    obtain ⟨hlhs, hleft⟩ := ihlhs hus.1
    obtain ⟨hrhs, hright⟩ := ihrhs hus.2.2
    have hop := op.level_le
    exact ⟨.binary (by omega) (by omega) hlhs hrhs, Nat.min_le_left _ _⟩
  | unary _ _ ih =>
    obtain ⟨hoperand, hlevel⟩ := ih (spelled_cons.mp hus).2
    exact ⟨.unary hlevel hoperand, Nat.min_le_left _ _⟩
  | @call us inner opening closing callee args _ _ hjoined _ _ ihcallee ihargs =>
    simp only [spelled_append, spelled_cons] at hus
    obtain ⟨hcallee, -⟩ := ihcallee hus.1
    -- what is called is well formed as a variable
    have hname : IsName callee := by
      cases hcallee with
      | var hname => exact hname
    refine ⟨.call hname fun arg harg => ?_, Nat.min_le_right _ _⟩
    obtain ⟨part, hpart, rfl⟩ := List.mem_map.mp harg
    exact (ihargs part hpart (hjoined.spelled hus.2.2.1 part hpart)).1
  | index _ _ _ _ iharray ihposition =>
    simp only [spelled_append, spelled_cons] at hus
    obtain ⟨harray, hlevel⟩ := iharray hus.1
    obtain ⟨hposition, -⟩ := ihposition hus.2.2.1
    exact ⟨.index (Nat.le_antisymm (Expr.level_le _) hlevel) harray hposition, Nat.min_le_right _ _⟩
  | member _ _ hname ih =>
    simp only [spelled_append, spelled_cons, hname] at hus
    obtain ⟨hobject, hlevel⟩ := ih hus.1
    exact ⟨.member (Nat.le_antisymm (Expr.level_le _) hlevel) hobject hus.2.2.1,
      Nat.min_le_right _ _⟩
  | var hname =>
    rw [spelled_cons, hname] at hus
    exact ⟨.var hus.1, Nat.min_le_right _ _⟩
  | number hkind =>
    rw [spelled_cons, hkind] at hus
    exact ⟨.number hus.1, Nat.min_le_right _ _⟩
  | string hkind =>
    rw [spelled_cons, hkind] at hus
    exact ⟨.string hus.1, Nat.min_le_right _ _⟩
  | kwTrue => exact ⟨.bool, Nat.min_le_right _ _⟩
  | kwFalse => exact ⟨.bool, Nat.min_le_right _ _⟩
  | paren _ _ _ ih =>
    simp only [spelled_cons, spelled_append] at hus
    exact ⟨.paren (ih hus.2.1).1, Nat.min_le_right _ _⟩

/-! ## Statements -/

theorem DerivesLet.wellFormed {us : List Token} {decl : LetDecl} (h : DerivesLet us decl)
    (hus : Spelled us) : decl.WellFormed := by
  cases h with
  | bare _ hbinder _ =>
    simp only [spelled_cons, spelled_append] at hus
    obtain ⟨hname, htype⟩ := hbinder.wellFormed hus.2.1
    exact ⟨hname, htype, by simp⟩
  | valued _ hbinder _ hvalue _ =>
    simp only [spelled_cons, spelled_append] at hus
    obtain ⟨hname, htype⟩ := hbinder.wellFormed hus.2.1
    exact ⟨hname, htype, by simpa using (hvalue.wellFormed hus.2.2.2.1).1⟩

theorem DerivesCondition.wellFormed {us : List Token} {condition : Expr}
    (h : DerivesCondition us condition) (hus : Spelled us) : condition.WellFormed := by
  obtain ⟨-, hvalue, -⟩ := h
  simp only [spelled_cons, spelled_append] at hus
  exact (hvalue.wellFormed hus.2.1).1

/-- A statement derived from spelled tokens is well-formed. -/
theorem DerivesStmt.wellFormed {us : List Token} {stmt : Stmt} (h : DerivesStmt us stmt)
    (hus : Spelled us) : stmt.WellFormed := by
  induction h with
  | letDecl h => exact .letDecl (h.wellFormed hus)
  | expr hvalue _ => exact .expr (hvalue.wellFormed (spelled_append.mp hus).1).1
  | ifThen _ hcondition _ ih =>
    simp only [spelled_cons, spelled_append] at hus
    exact .ifThen (hcondition.wellFormed hus.2.1) (ih hus.2.2)
  | ifElse _ hcondition _ hclosed _ _ ihbody ihother =>
    simp only [spelled_cons, spelled_append] at hus
    exact .ifElse (hcondition.wellFormed hus.2.1) (ihbody hus.2.2.1) hclosed
      (ihother hus.2.2.2.2)
  | whileDo _ hcondition _ ih =>
    simp only [spelled_cons, spelled_append] at hus
    exact .whileDo (hcondition.wellFormed hus.2.1) (ih hus.2.2)
  | leave => exact .ret (by simp)
  | ret _ hvalue _ =>
    simp only [spelled_cons, spelled_append] at hus
    exact .ret (by simpa using (hvalue.wellFormed hus.2.1).1)
  | block _ _ _ ih =>
    simp only [spelled_cons, spelled_append] at hus
    apply Stmt.WellFormed.block
    intro stmt hstmt
    obtain ⟨part, hpart, rfl⟩ := List.mem_map.mp hstmt
    exact ih part hpart (hus.2.1.of_flatMap part hpart)

/-! ## Programs -/

theorem DerivesImport.wellFormed {us : List Token} {decl : Import} (h : DerivesImport us decl)
    (hus : Spelled us) : decl.WellFormed := by
  cases h with
  | bare _ hpath _ =>
    simp only [spelled_cons, spelled_append] at hus
    exact ⟨hpath.wellFormed hus.2.1, by simp⟩
  | renamed _ hpath _ hname _ =>
    simp only [spelled_cons, spelled_append, hname] at hus
    obtain ⟨-, hpath', -, hname', -⟩ := hus
    refine ⟨hpath.wellFormed hpath', fun name hmem => ?_⟩
    obtain rfl := Option.some.inj hmem
    exact hname'

/-- The binders of a list are well formed. -/
theorem wellFormed_binders {parts : List (List Token × Binder)} {us : List Token}
    (hjoined : CommaJoined parts us) (hparts : ∀ part ∈ parts, DerivesBinder part.1 part.2)
    (hus : Spelled us) : ∀ binder ∈ parts.map Prod.snd, binder.WellFormed := by
  intro binder hbinder
  obtain ⟨part, hpart, rfl⟩ := List.mem_map.mp hbinder
  exact (hparts part hpart).wellFormed (hjoined.spelled hus part hpart)

theorem DerivesStmt.wellFormed_block {us : List Token} {body : List Stmt}
    (h : DerivesStmt us (.block body)) (hus : Spelled us) : ∀ stmt ∈ body, stmt.WellFormed := by
  cases h.wellFormed hus with
  | block hbody => exact hbody

/-- An item derived from spelled tokens is well-formed. -/
theorem DerivesItem.wellFormed {us : List Token} {item : Item} (h : DerivesItem us item)
    (hus : Spelled us) : item.WellFormed := by
  cases h with
  | typeAlias _ hname _ htype _ =>
    simp only [spelled_cons, spelled_append, hname] at hus
    obtain ⟨-, hname', -, htype', -⟩ := hus
    exact .typeAlias hname' (htype.wellFormed htype')
  | struct _ hname _ hjoined hfields _ _ =>
    simp only [spelled_cons, spelled_append, hname] at hus
    obtain ⟨-, hname', -, hfields', -⟩ := hus
    exact .struct hname' (wellFormed_binders hjoined hfields hfields')
  | const _ hbinder _ hvalue _ =>
    simp only [spelled_cons, spelled_append] at hus
    obtain ⟨-, hbinder', -, hvalue', -⟩ := hus
    obtain ⟨hname, htype⟩ := hbinder.wellFormed hbinder'
    exact .const hname htype (hvalue.wellFormed hvalue').1
  | procedure _ hname _ hjoined hparams _ hblock =>
    simp only [spelled_cons, spelled_append, hname] at hus
    obtain ⟨-, hname', -, hparams', -, hblock'⟩ := hus
    exact .fn hname' (wellFormed_binders hjoined hparams hparams') (by simp)
      (hblock.wellFormed_block hblock')
  | function _ hname _ hjoined hparams _ _ hresult hblock =>
    simp only [spelled_cons, spelled_append, hname] at hus
    obtain ⟨-, hname', -, hparams', -, -, hresult', hblock'⟩ := hus
    refine .fn hname' (wellFormed_binders hjoined hparams hparams') (fun type htype => ?_)
      (hblock.wellFormed_block hblock')
    obtain rfl := Option.some.inj htype
    exact hresult.wellFormed hresult'
  | letDecl h => exact .letDecl (h.wellFormed hus)

/-- A program derived by spelled tokens is well formed. -/
theorem DerivesProgram.wellFormed {us : List Token} {program : Program}
    (h : DerivesProgram us program) (hus : Spelled us) : program.WellFormed := by
  obtain ⟨-, hname, -, himports, hitems⟩ := h
  simp only [spelled_cons, spelled_append] at hus
  obtain ⟨-, hname', -, himports', hitems'⟩ := hus
  refine ⟨hname.wellFormed hname', fun decl hdecl => ?_, fun item hitem => ?_⟩
  · obtain ⟨part, hpart, rfl⟩ := List.mem_map.mp hdecl
    exact (himports part hpart).wellFormed (himports'.of_flatMap part hpart)
  · obtain ⟨part, hpart, rfl⟩ := List.mem_map.mp hitem
    exact (hitems part hpart).wellFormed (hitems'.of_flatMap part hpart)

end Grammar

end Quill
