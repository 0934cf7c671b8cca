import Quill.Proofs.RoundTrip.Words

/-!
# Types in parentheses

A type may stand in parentheses, and these leave no trace in the tree. The rules for types begin
with the parenthesis, so a list of kinds tells whether there is such a type: an opening
parenthesis stands where a type starts, that is after a colon, after an arrow, or after the name
and the sign of a type declaration (`groupsType`).

The words of a well-formed tree have no type in parentheses (`Program.WellFormed.ungrouped`). All
of this is read off from the front, one construct before whatever follows it (`Ungrouped`).
-/

set_option autoImplicit false

namespace Quill

open Lexical

/-- What stands directly before a type: the colon of a binder, the arrow of a function, and what
comes first in the declaration of a type. -/
def typePlaces : List (List Kind) :=
  [[.colon], [.arrow], [.kwType, .ident, .assign]]

/-- The kinds begin with what stands before a type, and then a parenthesis opens. -/
def opensGroup (kinds : List Kind) : Bool :=
  typePlaces.any fun marks => (marks ++ [Kind.lparen]).isPrefixOf kinds

/-- Whether a parenthesis opens where a type starts. -/
def groupsType : List Kind → Bool
  | [] => false
  | kind :: kinds => opensGroup (kind :: kinds) || groupsType kinds

/-- The kinds with which the places of types begin. -/
def typeMarks : List Kind := [.colon, .arrow, .kwType]

/-- A kind with which no place of a type begins opens no group. -/
theorem opensGroup_eq_false {kind : Kind} (h : kind ∉ typeMarks) (kinds : List Kind) :
    opensGroup (kind :: kinds) = false := by
  simp only [typeMarks, List.mem_cons, List.not_mem_nil, or_false, not_or] at h
  simp [opensGroup, typePlaces, List.isPrefixOf, Ne.symm h.1, Ne.symm h.2.1, Ne.symm h.2.2]

/-- What opens a group does so before any further kinds. -/
theorem opensGroup_append {us : List Kind} (h : opensGroup us = true) (vs : List Kind) :
    opensGroup (us ++ vs) = true := by
  obtain ⟨marks, hmarks, hstart⟩ := List.any_eq_true.mp h
  refine List.any_eq_true.mpr ⟨marks, hmarks, ?_⟩
  rw [List.isPrefixOf_iff_prefix] at hstart ⊢
  exact hstart.trans (List.prefix_append us vs)

/-- Where a type starts with anything but a parenthesis, none is grouped. -/
theorem groupsType_of_place {marks : List Kind} (hmarks : marks ∈ typePlaces) {kind : Kind}
    (hkind : kind ≠ .lparen) (kinds : List Kind) :
    groupsType (marks ++ kind :: kinds) = groupsType (kind :: kinds) := by
  have hopens : opensGroup (marks ++ kind :: kinds) = false := by
    simp only [typePlaces, List.mem_cons, List.not_mem_nil, or_false] at hmarks
    rcases hmarks with rfl | rfl | rfl <;>
      simp [opensGroup, typePlaces, Bool.eq_false_iff, Ne.symm hkind]
  simp only [typePlaces, List.mem_cons, List.not_mem_nil, or_false] at hmarks
  rcases hmarks with rfl | rfl | rfl <;> simp only [List.cons_append, List.nil_append] at hopens ⊢
  · rw [groupsType, hopens, Bool.false_or]
  · rw [groupsType, hopens, Bool.false_or]
  · -- the name and the sign of the declaration begin no place of their own
    rw [groupsType, hopens, groupsType, opensGroup_eq_false (by decide), groupsType,
      opensGroup_eq_false (by decide)]
    rfl

/-- Where a type starts with a parenthesis, it is grouped. -/
theorem groupsType_of_group {marks kinds : List Kind} (hmarks : marks ∈ typePlaces)
    (hopens : kinds.head? = some .lparen) : groupsType (marks ++ kinds) = true := by
  obtain ⟨others, rfl⟩ := List.head?_eq_some_iff.mp hopens
  have hgroup : opensGroup (marks ++ .lparen :: others) = true := by
    refine List.any_eq_true.mpr ⟨marks, hmarks, ?_⟩
    rw [List.isPrefixOf_iff_prefix]
    exact ⟨others, by rw [List.append_assoc, List.singleton_append]⟩
  cases hkinds : marks ++ .lparen :: others with
  | nil => simp at hkinds
  | cons kind kinds =>
    rw [hkinds] at hgroup
    rw [groupsType, hgroup, Bool.true_or]

/-- A list groups no type if none of its parts does, and the parts group none if it does not. -/
theorem groupsType_append_eq_false {us vs : List Kind} (h : groupsType (us ++ vs) = false) :
    groupsType us = false ∧ groupsType vs = false := by
  induction us with
  | nil => exact ⟨rfl, h⟩
  | cons kind kinds ih =>
    rw [List.cons_append, groupsType, Bool.or_eq_false_iff] at h
    obtain ⟨hkinds, hvs⟩ := ih h.2
    refine ⟨?_, hvs⟩
    rw [groupsType, Bool.or_eq_false_iff]
    refine ⟨?_, hkinds⟩
    rw [Bool.eq_false_iff]
    intro hopens
    rw [← List.cons_append, opensGroup_append hopens vs] at h
    exact absurd h.1 (by decide)

/-! ## Words without groups -/

/-- Before any other words, these add no type in parentheses. -/
def Ungrouped (words : List Word) : Prop :=
  ∀ rest : List Word, groupsType ((words ++ rest).map Prod.fst) = groupsType (rest.map Prod.fst)

namespace Ungrouped

theorem nil : Ungrouped [] := fun _ => rfl

/-- One after the other, two runs of words that group no type group none. -/
theorem append {us vs : List Word} (hus : Ungrouped us) (hvs : Ungrouped vs) :
    Ungrouped (us ++ vs) := by
  intro rest
  rw [List.append_assoc, hus, hvs]

theorem cons {kind : Kind} {words : List Word} (hwords : Ungrouped words)
    (hkind : kind ∉ typeMarks) (text : String) : Ungrouped ((kind, text) :: words) := by
  intro rest
  rw [List.cons_append, List.map_cons, groupsType, opensGroup_eq_false hkind, Bool.false_or,
    hwords]

/-- Runs of words that group no type group none all together. -/
theorem flatMap {α : Type} {words : α → List Word} {values : List α}
    (h : ∀ value ∈ values, Ungrouped (words value)) : Ungrouped (values.flatMap words) := by
  induction values with
  | nil => exact nil
  | cons value others ih =>
    obtain ⟨hvalue, hothers⟩ := List.forall_mem_cons.mp h
    rw [List.flatMap_cons]
    exact hvalue.append (ih hothers)

theorem commaWords {parts : List (List Word)} (h : ∀ part ∈ parts, Ungrouped part) :
    Ungrouped (commaWords parts) := by
  induction parts with
  | nil => exact nil
  | cons part others ih =>
    obtain ⟨hpart, hothers⟩ := List.forall_mem_cons.mp h
    cases others with
    | nil => simpa [Quill.commaWords] using hpart
    | cons next others =>
      have hwords : Quill.commaWords (part :: next :: others) =
          part ++ (.comma, ",") :: Quill.commaWords (next :: others) := by
        simp [Quill.commaWords]
      rw [hwords]
      exact hpart.append ((ih hothers).cons (by decide) _)

end Ungrouped

/-! ## Names and types -/

theorem ungrouped_segmentWords (names : List String) : Ungrouped (segmentWords names) := by
  induction names with
  | nil => exact .nil
  | cons name others ih =>
    cases others with
    | nil => exact Ungrouped.nil.cons (by decide) name
    | cons next others => exact (ih.cons (by decide) ".").cons (by decide) name

/-- The words of a type begin with a keyword or a name. -/
theorem TypeExpr.WellFormed.words_eq_cons {type : TypeExpr} (h : type.WellFormed) :
    ∃ kind text words, type.words = (kind, text) :: words ∧ kind ≠ .lparen ∧
      Ungrouped type.words := by
  induction h with
  | builtIn hname =>
    rcases hname with rfl | rfl | rfl
    all_goals exact ⟨_, _, [], rfl, by decide, Ungrouped.nil.cons (by decide) _⟩
  | @segments names hne hnames =>
    rw [TypeExpr.words, typeNameWords_dotted hne hnames]
    refine ⟨.ident, names.head hne, ?_⟩
    cases names with
    | nil => exact absurd rfl hne
    | cons name others =>
      cases others with
      | nil => exact ⟨[], rfl, by decide, ungrouped_segmentWords _⟩
      | cons next others => exact ⟨_, rfl, by decide, ungrouped_segmentWords _⟩
  | array _ ih =>
    obtain ⟨kind, text, words, hwords, hkind, hfree⟩ := ih
    -- no place of a type begins with a bracket
    have hsuffix : Ungrouped [(Kind.lbracket, "["), (Kind.rbracket, "]")] :=
      (Ungrouped.nil.cons (by decide) _).cons (by decide) _
    refine ⟨kind, text, words ++ [(.lbracket, "["), (.rbracket, "]")], ?_, hkind, ?_⟩
    · rw [TypeExpr.words, hwords, List.cons_append]
    · exact hfree.append hsuffix

/-- In its place, a type is not in parentheses. -/
theorem TypeExpr.WellFormed.ungrouped_after {type : TypeExpr} (h : type.WellFormed)
    (marks : List Word) (hmarks : marks.map Prod.fst ∈ typePlaces) :
    Ungrouped (marks ++ type.words) := by
  obtain ⟨kind, text, words, hwords, hkind, hfree⟩ := h.words_eq_cons
  intro rest
  rw [List.append_assoc, List.map_append, ← hfree rest, hwords, List.cons_append, List.map_cons,
    groupsType_of_place hmarks hkind]

theorem Binder.WellFormed.ungrouped {binder : Binder} (h : binder.WellFormed) :
    Ungrouped binder.words := by
  have htype : Ungrouped ([(.colon, ":")] ++ binder.type.words) :=
    h.type.ungrouped_after _ (by simp [typePlaces])
  exact htype.cons (by decide) binder.name

/-! ## Expressions -/

namespace Expr

mutual
/-- An expression groups no type, since no type stands in it. -/
theorem ungrouped : ∀ expr : Expr, Ungrouped expr.words
  | .assign target value => by
    rw [words]
    exact (ungrouped target).append ((ungrouped value).cons (by decide) _)
  | .binary op lhs rhs => by
    have hop : op.kind ∉ typeMarks := by cases op <;> decide
    rw [words]
    exact (ungrouped lhs).append ((ungrouped rhs).cons hop _)
  | .unary op operand => by
    have hop : op.kind ∉ typeMarks := by cases op <;> decide
    rw [words]
    exact (ungrouped operand).cons hop _
  | .call callee args => by
    have hclose : Ungrouped [(.rparen, ")")] := Ungrouped.nil.cons (by decide) _
    rw [words]
    exact (((Ungrouped.commaWords (ungroupedList args)).append hclose).cons (by decide) _).cons
      (by decide) _
  | .index array position => by
    have hclose : Ungrouped [(.rbracket, "]")] := Ungrouped.nil.cons (by decide) _
    rw [words]
    exact (ungrouped array).append (((ungrouped position).append hclose).cons (by decide) _)
  | .member object name => by
    have hname : Ungrouped [(.ident, name)] := Ungrouped.nil.cons (by decide) _
    rw [words]
    exact (ungrouped object).append (hname.cons (by decide) _)
  | .number text => Ungrouped.nil.cons (by decide) text
  | .string text => Ungrouped.nil.cons (by decide) text
  | .bool true => Ungrouped.nil.cons (by decide) _
  | .bool false => Ungrouped.nil.cons (by decide) _
  | .var name => Ungrouped.nil.cons (by decide) name
  | .paren inner => by
    have hclose : Ungrouped [(.rparen, ")")] := Ungrouped.nil.cons (by decide) _
    rw [words]
    exact ((ungrouped inner).append hclose).cons (by decide) _

theorem ungroupedList : ∀ exprs : List Expr, ∀ part ∈ wordsList exprs, Ungrouped part
  | [] => fun _ hpart => absurd hpart List.not_mem_nil
  | expr :: exprs => List.forall_mem_cons.mpr ⟨ungrouped expr, ungroupedList exprs⟩
end

end Expr

/-! ## Statements -/

theorem ungrouped_valueWords (value : Option Expr) : Ungrouped (valueWords value) := by
  cases value with
  | none => exact .nil
  | some value => exact value.ungrouped.cons (by decide) _

theorem LetDecl.WellFormed.ungrouped {decl : LetDecl} (h : decl.WellFormed) :
    Ungrouped decl.words := by
  have hbinder : Ungrouped (Binder.words ⟨decl.name, decl.type⟩) :=
    Binder.WellFormed.ungrouped ⟨h.name, h.type⟩
  have hclose : Ungrouped [(.semicolon, ";")] := Ungrouped.nil.cons (by decide) _
  exact (hbinder.append ((ungrouped_valueWords decl.value).append hclose)).cons (by decide) _

theorem ungrouped_conditionWords (condition : Expr) : Ungrouped (conditionWords condition) := by
  have hclose : Ungrouped [(.rparen, ")")] := Ungrouped.nil.cons (by decide) _
  exact (condition.ungrouped.append hclose).cons (by decide) _

theorem Stmt.WellFormed.ungrouped {stmt : Stmt} (h : stmt.WellFormed) : Ungrouped stmt.words := by
  have hclose : Ungrouped [(.semicolon, ";")] := Ungrouped.nil.cons (by decide) _
  induction h with
  | letDecl h => exact h.ungrouped
  | @expr value _ =>
    rw [words]
    exact value.ungrouped.append hclose
  | @ifThen condition _ _ _ ih =>
    rw [words]
    exact ((ungrouped_conditionWords condition).append ih).cons (by decide) _
  | @ifElse condition _ _ _ _ _ _ ihbody ihother =>
    rw [words]
    exact ((ungrouped_conditionWords condition).append
      (ihbody.append (ihother.cons (by decide) _))).cons (by decide) _
  | @whileDo condition _ _ _ ih =>
    rw [words]
    exact ((ungrouped_conditionWords condition).append ih).cons (by decide) _
  | @ret value _ =>
    cases value with
    | none => exact hclose.cons (by decide) _
    | some value =>
      rw [words]
      exact (value.ungrouped.append hclose).cons (by decide) _
  | @block body _ ih =>
    have hend : Ungrouped [(.rbrace, "\x7d")] := Ungrouped.nil.cons (by decide) _
    rw [words, wordsList_eq_flatMap]
    exact ((Ungrouped.flatMap ih).append hend).cons (by decide) _

/-! ## Programs -/

theorem ungrouped_resultWords {result : Option TypeExpr}
    (h : ∀ type ∈ result, type.WellFormed) : Ungrouped (resultWords result) := by
  cases result with
  | none => exact .nil
  | some type =>
    exact (h type rfl).ungrouped_after [(.arrow, "->")] (by simp [typePlaces])

theorem ungrouped_binders {binders : List Binder} (h : ∀ binder ∈ binders, binder.WellFormed) :
    Ungrouped (commaWords (binders.map Binder.words)) := by
  apply Ungrouped.commaWords
  intro part hpart
  obtain ⟨binder, hbinder, rfl⟩ := List.mem_map.mp hpart
  exact (h binder hbinder).ungrouped

theorem Item.WellFormed.ungrouped {item : Item} (h : item.WellFormed) : Ungrouped item.words := by
  have hclose : Ungrouped [(.semicolon, ";")] := Ungrouped.nil.cons (by decide) _
  cases h with
  | @typeAlias name type _ htype =>
    have halias : Ungrouped ([(.kwType, "type"), (.ident, name), (.assign, "=")] ++ type.words) :=
      htype.ungrouped_after _ (by simp [typePlaces])
    exact halias.append hclose
  | struct _ hfields =>
    have hend : Ungrouped [(.rbrace, "\x7d"), (.semicolon, ";")] := hclose.cons (by decide) _
    exact ((((ungrouped_binders hfields).append hend).cons (by decide) _).cons (by decide) _).cons
      (by decide) _
  | @const name type value hname htype _ =>
    have hbinder : Ungrouped (Binder.words ⟨name, type⟩) :=
      Binder.WellFormed.ungrouped ⟨hname, htype⟩
    exact (hbinder.append ((value.ungrouped.append hclose).cons (by decide) _)).cons (by decide) _
  | @fn name params result body _ hparams hresult hbody =>
    have hblock : Ungrouped (Stmt.block body).words := (Stmt.WellFormed.block hbody).ungrouped
    have hrest : Ungrouped ((.rparen, ")") :: (resultWords result ++ (Stmt.block body).words)) :=
      ((ungrouped_resultWords hresult).append hblock).cons (by decide) _
    exact ((((ungrouped_binders hparams).append hrest).cons (by decide) _).cons (by decide) _).cons
      (by decide) _
  | letDecl h => exact h.ungrouped

theorem Import.ungrouped (decl : Import) : Ungrouped decl.words := by
  have hclose : Ungrouped [(.semicolon, ";")] := Ungrouped.nil.cons (by decide) _
  have hname : Ungrouped (localNameWords decl.localName) := by
    cases decl.localName with
    | none => exact .nil
    | some name => exact (Ungrouped.nil.cons (by decide) name).cons (by decide) _
  exact ((ungrouped_segmentWords _).append (hname.append hclose)).cons (by decide) _

/-- No type is in parentheses among the words of a well-formed program. -/
theorem Program.WellFormed.ungrouped {program : Program} (h : program.WellFormed) :
    Ungrouped program.words := by
  have himports : Ungrouped (program.imports.flatMap Import.words) :=
    .flatMap fun decl _ => decl.ungrouped
  have hitems : Ungrouped (program.items.flatMap Item.words) :=
    .flatMap fun item hitem => (h.items item hitem).ungrouped
  exact ((ungrouped_segmentWords _).append ((himports.append hitems).cons (by decide) _)).cons
    (by decide) _

end Quill
