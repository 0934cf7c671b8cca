import Quill.Proofs.RoundTrip.Words
import Quill.Syntax.Canonical

/-!
# The canonical text spells the words of the tree

For each construct: if the parts are well formed, the canonical text spells the words. What could
go wrong is that two lexemes of the text merge. Inside a construct they are kept apart by a space,
or one of them is a mark that goes on nothing; at the end of an expression or of a type it is up
to the text that follows, which has to be clear. Statements and declarations end in a semicolon or
a brace, and anything may follow them.

A unary operator stands directly before its operand, and no expression starts with the character
that would make the two one mark (`Expr.WellFormed.starts`).
-/

set_option autoImplicit false

namespace Quill

open Lexical Text

/-- A text spells its words before any clear text. -/
def Writes (text : String) (words : List Word) : Prop :=
  ∀ rest ws, Clear rest → Spells rest ws → Spells (text.toList ++ rest) (words ++ ws)

/-- A text spells its words whatever follows. -/
def WritesFully (text : String) (words : List Word) : Prop :=
  ∀ rest ws, Spells rest ws → Spells (text.toList ++ rest) (words ++ ws)

/-- A space keeps a text apart from what follows. -/
theorem Writes.spaced {text : String} {words : List Word} (h : Writes text words)
    {rest : List Char} {ws : List Word} (hrest : Spells rest ws) :
    Spells (text.toList ++ ' ' :: rest) (words ++ ws) :=
  h _ _ (clear_space rest) hrest.space

/-- The marks that may stand directly after a part. A point may not, since it may go on a
number. -/
def closingMarks : List (Char × Kind) :=
  [(',', .comma), ('(', .lparen), (')', .rparen), ('[', .lbracket), (']', .rbracket),
   (':', .colon), (';', .semicolon)]

/-- A closing mark keeps a text apart from what follows. -/
theorem Writes.closed {text : String} {words : List Word} (h : Writes text words)
    {rest : List Char} {ws : List Word} (hrest : Spells rest ws) {c : Char} {kind : Kind}
    (hmark : (c, kind) ∈ closingMarks) :
    Spells (text.toList ++ c :: rest) (words ++ (kind, String.ofList [c]) :: ws) := by
  have all : ∀ mark ∈ closingMarks, isNamePart mark.1 = false ∧ mark.1 ≠ '.' ∧
      mark ∈ Kind.singleMarks ∧ mark.2 ∈ freeMarks := by decide
  obtain ⟨hpart, hdot, hfree⟩ := all _ hmark
  exact h _ _ (clear_cons hpart hdot rest) (hrest.mark hfree)

/-! ## First characters -/

/-- A number starts with a digit. -/
theorem number_starts {word : List Char} (h : IsLexeme .number word) :
    ∃ c cs, word = c :: cs ∧ c.isDigit = true := by
  cases h with
  | @number whole part power hwhole =>
    obtain ⟨c, cs, rfl⟩ := List.exists_cons_of_ne_nil hwhole.1
    exact ⟨c, _, rfl, hwhole.2 c List.mem_cons_self⟩
  | keyword h => simp [Kind.keywords] at h
  | double h => simp [Kind.doubleMarks] at h
  | single h => simp [Kind.singleMarks] at h

/-- A string literal starts with a quote. -/
theorem string_starts {word : List Char} (h : IsLexeme .string word) :
    ∃ cs, word = '"' :: cs := by
  cases h with
  | string => exact ⟨_, rfl⟩
  | keyword h => simp [Kind.keywords] at h
  | double h => simp [Kind.doubleMarks] at h
  | single h => simp [Kind.singleMarks] at h

/-- No expression starts with a character that goes on a unary operator. -/
theorem Expr.WellFormed.starts {expr : Expr} (h : expr.WellFormed) :
    ∃ c cs, expr.canonical.toList = c :: cs ∧ c ≠ '=' ∧ c ≠ '>' := by
  have hname : ∀ {name : String}, IsName name →
      ∃ c cs, name.toList = c :: cs ∧ c ≠ '=' ∧ c ≠ '>' := by
    intro name h
    obtain ⟨c, cs, hname, hc, -⟩ := h.exists_cons
    exact ⟨c, cs, hname, ne_of_isLetter hc (by decide), ne_of_isLetter hc (by decide)⟩
  induction h with
  | assign _ _ _ ih =>
    obtain ⟨c, cs, hcs, hc⟩ := ih
    exact ⟨c, _, by simp [canonical, hcs]; rfl, hc⟩
  | binary _ _ _ _ ih =>
    obtain ⟨c, cs, hcs, hc⟩ := ih
    exact ⟨c, _, by simp [canonical, hcs]; rfl, hc⟩
  | @unary op operand =>
    cases op
    · exact ⟨'!', operand.canonical.toList, by simp [canonical, UnaryOp.symbol], by decide⟩
    · exact ⟨'-', operand.canonical.toList, by simp [canonical, UnaryOp.symbol], by decide⟩
  | call hcallee =>
    obtain ⟨c, cs, hcs, hc⟩ := hname hcallee
    exact ⟨c, _, by simp [canonical, hcs]; rfl, hc⟩
  | index _ _ _ ih =>
    obtain ⟨c, cs, hcs, hc⟩ := ih
    exact ⟨c, _, by simp [canonical, hcs]; rfl, hc⟩
  | member _ _ _ ih =>
    obtain ⟨c, cs, hcs, hc⟩ := ih
    exact ⟨c, _, by simp [canonical, hcs]; rfl, hc⟩
  | number h =>
    obtain ⟨c, cs, hcs, hc⟩ := number_starts h
    refine ⟨c, cs, hcs, ?_, ?_⟩ <;> rintro rfl <;> exact absurd hc (by decide)
  | string h =>
    obtain ⟨cs, hcs⟩ := string_starts h
    exact ⟨'"', cs, hcs, by decide⟩
  | @bool value =>
    cases value
    · exact ⟨'f', _, by simp [canonical]; rfl, by decide⟩
    · exact ⟨'t', _, by simp [canonical]; rfl, by decide⟩
  | var h => exact hname h
  | @paren inner => exact ⟨'(', inner.canonical.toList ++ [')'], by simp [canonical], by decide⟩

/-! ## Names and lists -/

/-- A name is written as its word. -/
theorem writes_name {name : String} (h : IsName name) : Writes name [(.ident, name)] :=
  fun _ _ hclear hrest => hrest.name h hclear

/-- Names with points between them. -/
theorem writes_segments {names : List String} (hne : names ≠ [])
    (hnames : ∀ name ∈ names, IsName name) :
    Writes (QualifiedName.dotted ⟨names⟩) (segmentWords names) := by
  intro rest ws hclear h
  induction names with
  | nil => exact absurd rfl hne
  | cons name others ih =>
    have hname := hnames name List.mem_cons_self
    cases others with
    | nil =>
      simp only [QualifiedName.dotted, String.intercalate_singleton, segmentWords]
      exact writes_name hname rest ws hclear h
    | cons next others =>
      have hothers := ih (by simp) fun other hother => hnames other (List.mem_cons_of_mem _ hother)
      have hnext : ∃ c cs, (QualifiedName.dotted ⟨next :: others⟩).toList ++ rest = c :: cs ∧
          isLetter c = true := by
        obtain ⟨c, cs, hcs, hc, -⟩ := (hnames next (by simp)).exists_cons
        cases others <;> exact ⟨c, _, by simp [QualifiedName.dotted, hcs]; rfl, hc⟩
      obtain ⟨c, cs, hcs, hc⟩ := hnext
      have htext : (QualifiedName.dotted ⟨name :: next :: others⟩).toList ++ rest =
          name.toList ++ '.' :: ((QualifiedName.dotted ⟨next :: others⟩).toList ++ rest) := by
        simp [QualifiedName.dotted]
      rw [htext, segmentWords, List.cons_append, List.cons_append]
      -- a name and the point after it are apart since the point is not that of a fraction
      refine Spells.name ?_ hname ?_
      · exact hothers.mark (by decide)
      · rw [hcs]
        exact clear_dot hc cs

/-- A space is a gap. -/
theorem gap_space : Gap [' '] :=
  .space (by decide) .nil

/-- Parts with commas between them, each with a gap after it. -/
theorem writes_commaList {α : Type} {text : α → String} {words : α → List Word} {values : List α}
    (hparts : ∀ value ∈ values, Writes (text value) (words value)) {sep : String} {gap : List Char}
    (hsep : sep.toList = ',' :: gap) (hgap : Gap gap) :
    Writes (sep.intercalate (values.map text)) (commaWords (values.map words)) := by
  intro rest ws hclear h
  induction values with
  | nil => simpa [commaWords] using h
  | cons value others ih =>
    have hvalue := hparts value List.mem_cons_self
    have hothers := ih fun other hother => hparts other (List.mem_cons_of_mem _ hother)
    cases others with
    | nil => simpa [commaWords] using hvalue rest ws hclear h
    | cons next others =>
      -- the first part with its comma, and then the list of the others after the gap
      have htext : (sep.intercalate ((value :: next :: others).map text)).toList ++ rest =
          (text value).toList ++ ',' :: (gap ++
            ((sep.intercalate ((next :: others).map text)).toList ++ rest)) := by
        simp [hsep]
      have hwords : commaWords ((value :: next :: others).map words) ++ ws =
          words value ++ (.comma, ",") :: (commaWords ((next :: others).map words) ++ ws) := by
        simp [commaWords]
      rw [htext, hwords]
      exact hvalue.closed (hothers.gap hgap) (by decide)

/-! ## Types -/

/-- A well-formed type is written as its words. -/
theorem TypeExpr.WellFormed.writes {type : TypeExpr} (h : type.WellFormed) :
    Writes type.canonical type.words := by
  induction h with
  | builtIn h =>
    intro rest ws hclear hrest
    rcases h with rfl | rfl | rfl
    · exact hrest.keyword ['i', 'n', 't'] (by decide) hclear
    · exact hrest.keyword ['b', 'o', 'o', 'l'] (by decide) hclear
    · exact hrest.keyword ['s', 't', 'r', 'i', 'n', 'g'] (by decide) hclear
  | segments hne hnames =>
    rw [canonical, words, typeNameWords_dotted hne hnames]
    exact writes_segments hne hnames
  | @array element h ih =>
    intro rest ws hclear hrest
    -- only function types are put in parentheses
    have hfunc : element.isFunc = false := by
      cases h <;> rfl
    simp only [canonical, words, hfunc, Bool.false_eq_true, if_false, String.toList_append,
      String.reduceToList, List.append_assoc, List.cons_append, List.nil_append]
    refine ih.closed ?_ (by decide)
    exact hrest.mark (by decide)

theorem Binder.WellFormed.writes {binder : Binder} (h : binder.WellFormed) :
    Writes binder.canonical binder.words := by
  intro rest ws hclear hrest
  simp only [canonical, words, String.toList_append, String.reduceToList, List.append_assoc,
    List.cons_append, List.nil_append]
  refine (writes_name h.name).closed ?_ (by decide)
  exact (h.type.writes rest ws hclear hrest).space

/-! ## Expressions -/

theorem Expr.canonicalList_eq_map (exprs : List Expr) :
    canonicalList exprs = exprs.map canonical := by
  induction exprs with
  | nil => rfl
  | cons expr exprs ih => rw [canonicalList, ih, List.map_cons]

/-- A unary operator with its operand: the operand does not start with the second character of a
mark of two characters. -/
theorem Lexical.Spells.unary {op : UnaryOp} {text : List Char} {words : List Word}
    (h : Spells text words) (htext : ∃ c cs, text = c :: cs ∧ c ≠ '=' ∧ c ≠ '>') :
    Spells (op.symbol.toList ++ text) ((op.kind, op.symbol) :: words) := by
  have hnext : MayPrecede op.kind op.symbol.toList text := by
    obtain ⟨c, cs, rfl, hequals, harrow⟩ := htext
    cases op
    · simpa [UnaryOp.kind, MayPrecede, StartsWith] using hequals
    · simpa [UnaryOp.kind, MayPrecede, StartsWith] using harrow
  have whole := h.word op.isLexeme_symbol hnext
  rwa [String.ofList_toList] at whole

/-- A binary operator with a space after it. -/
theorem Lexical.Spells.binary {op : BinaryOp} {text : List Char} {words : List Word}
    (h : Spells text words) :
    Spells (op.symbol.toList ++ ' ' :: text) ((op.kind, op.symbol) :: words) := by
  have whole := h.spaced op.symbol.toList op.isLexeme_symbol
  rwa [String.ofList_toList] at whole

/-- A well-formed expression is written as its words. -/
theorem Expr.WellFormed.writes {expr : Expr} (h : expr.WellFormed) :
    Writes expr.canonical expr.words := by
  induction h with
  | assign _ _ _ ihtarget ihvalue =>
    intro rest ws hclear hrest
    simp only [canonical, words, String.toList_append, String.reduceToList, List.append_assoc,
      List.cons_append, List.nil_append]
    apply ihtarget.spaced
    exact (ihvalue rest ws hclear hrest).spaced ['='] (.single (by decide))
  | binary _ _ _ _ ihlhs ihrhs =>
    intro rest ws hclear hrest
    simp only [canonical, words, String.toList_append, String.reduceToList, List.append_assoc,
      List.cons_append, List.nil_append]
    apply ihlhs.spaced
    exact (ihrhs rest ws hclear hrest).binary
  | unary _ hoperand ih =>
    intro rest ws hclear hrest
    -- nothing is put between the operator and its operand
    obtain ⟨c, cs, hcs, hequals, harrow⟩ := hoperand.starts
    simp only [canonical, words, String.toList_append, List.append_assoc, List.cons_append]
    exact (ih rest ws hclear hrest).unary ⟨c, cs ++ rest, by simp [hcs], hequals, harrow⟩
  | @call callee args hcallee _ ih =>
    intro rest ws hclear hrest
    simp only [canonical, words, canonicalList_eq_map, wordsList_eq_map, String.toList_append,
      String.reduceToList, List.append_assoc, List.cons_append, List.nil_append]
    have hargs : Writes (", ".intercalate (args.map canonical)) (commaWords (args.map words)) :=
      writes_commaList ih rfl gap_space
    refine (writes_name hcallee).closed ?_ (by decide)
    exact hargs.closed hrest (by decide)
  | index _ _ _ iharray ihposition =>
    intro rest ws hclear hrest
    simp only [canonical, words, String.toList_append, String.reduceToList, List.append_assoc,
      List.cons_append, List.nil_append]
    refine iharray.closed ?_ (by decide)
    exact ihposition.closed hrest (by decide)
  | @member object name _ _ hname ih =>
    intro rest ws hclear hrest
    obtain ⟨c, cs, hcs, hc, -⟩ := hname.exists_cons
    -- an object that is a number would take the point for that of a fraction, were a digit next
    have hpoint : Clear ('.' :: (name.toList ++ rest)) := by
      rw [hcs]
      exact clear_dot hc _
    simp only [canonical, words, String.toList_append, String.reduceToList, List.append_assoc,
      List.cons_append, List.nil_append]
    apply ih _ _ hpoint
    exact (hrest.name hname hclear).mark (by decide)
  | number h => exact fun rest ws hclear hrest => hrest.text h (.inl rfl) hclear
  | string h => exact fun rest ws hclear hrest => hrest.text h (.inr (.inl rfl)) hclear
  | @bool value =>
    intro rest ws hclear hrest
    cases value
    · exact hrest.keyword ['f', 'a', 'l', 's', 'e'] (by decide) hclear
    · exact hrest.keyword ['t', 'r', 'u', 'e'] (by decide) hclear
  | var h => exact writes_name h
  | paren _ ih =>
    intro rest ws hclear hrest
    simp only [canonical, words, String.toList_append, String.reduceToList, List.append_assoc,
      List.cons_append, List.nil_append]
    refine Spells.mark ?_ (by decide)
    exact ih.closed hrest (by decide)

/-! ## Statements -/

theorem gap_spaces (n : Nat) : Gap (List.replicate n ' ') := by
  induction n with
  | zero => exact .nil
  | succ n ih => exact .space (by decide) ih

theorem gap_indent (level : Nat) : Gap (indent level).toList := by
  rw [indent, String.toList_ofList]
  exact gap_spaces _

theorem LetDecl.WellFormed.writes {decl : LetDecl} (h : decl.WellFormed) :
    WritesFully decl.canonical decl.words := by
  intro rest ws hrest
  obtain ⟨name, type, value⟩ := decl
  simp only [canonical, words, Binder.words, String.toList_append, String.reduceToList,
    List.append_assoc, List.cons_append, List.nil_append]
  refine Spells.keyword_spaced ?_ ['l', 'e', 't'] (by decide)
  refine (writes_name h.name).closed (Spells.space ?_) (by decide)
  cases value with
  | none => exact h.type.writes.closed hrest (by decide)
  | some value =>
    have hvalue : value.WellFormed := h.value value rfl
    simp only [valueWords, String.toList_append, String.reduceToList, List.cons_append,
      List.nil_append]
    refine h.type.writes.spaced (Spells.spaced ?_ ['='] (.single (by decide)))
    exact hvalue.writes.closed hrest (by decide)

/-- A condition with a space after it. -/
theorem Expr.WellFormed.spells_condition {condition : Expr} (h : condition.WellFormed)
    {rest : List Char} {ws : List Word} (hrest : Spells rest ws) :
    Spells ('(' :: (condition.canonical.toList ++ ')' :: ' ' :: rest))
      (conditionWords condition ++ ws) := by
  rw [conditionWords, List.cons_append, List.append_assoc, List.singleton_append]
  refine Spells.mark ?_ (by decide)
  exact h.writes.closed hrest.space (by decide)

/-- Statements on lines of their own. -/
theorem writes_lines {level : Nat} {stmts : List Stmt}
    (h : ∀ stmt ∈ stmts, WritesFully (stmt.canonical level) stmt.words) :
    WritesFully (Stmt.canonicalLines level stmts) (Stmt.wordsList stmts) := by
  intro rest ws hrest
  induction stmts with
  | nil => simpa [Stmt.canonicalLines, Stmt.wordsList] using hrest
  | cons stmt others ih =>
    simp only [Stmt.canonicalLines, Stmt.wordsList, String.toList_append, String.reduceToList,
      List.append_assoc, List.cons_append, List.nil_append]
    refine Spells.gap (h stmt List.mem_cons_self _ _ (Spells.newline ?_)) (gap_indent level)
    exact ih fun other hother => h other (List.mem_cons_of_mem stmt hother)

/-- A statement can be written at every level of nesting. -/
theorem Stmt.WellFormed.writes {stmt : Stmt} (h : stmt.WellFormed) (level : Nat) :
    WritesFully (stmt.canonical level) stmt.words := by
  induction h generalizing level with
  | letDecl h =>
    rw [canonical, words]
    exact h.writes
  | expr h =>
    intro rest ws hrest
    simp only [canonical, words, String.toList_append, String.reduceToList, List.append_assoc,
      List.cons_append, List.nil_append]
    exact h.writes.closed hrest (by decide)
  | ifThen hcondition _ ih =>
    intro rest ws hrest
    simp only [canonical, words, String.toList_append, String.reduceToList, List.append_assoc,
      List.cons_append, List.nil_append]
    refine Spells.keyword_spaced ?_ ['i', 'f'] (by decide)
    exact hcondition.spells_condition (ih level rest ws hrest)
  | ifElse hcondition _ _ _ ihbody ihother =>
    intro rest ws hrest
    simp only [canonical, words, String.toList_append, String.reduceToList, List.append_assoc,
      List.cons_append, List.nil_append]
    refine Spells.keyword_spaced ?_ ['i', 'f'] (by decide)
    -- the body and the `else` share a line, with a space between them
    refine hcondition.spells_condition (ihbody level _ _ (Spells.space ?_))
    exact (ihother level rest ws hrest).keyword_spaced ['e', 'l', 's', 'e'] (by decide)
  | whileDo hcondition _ ih =>
    intro rest ws hrest
    simp only [canonical, words, String.toList_append, String.reduceToList, List.append_assoc,
      List.cons_append, List.nil_append]
    refine Spells.keyword_spaced ?_ ['w', 'h', 'i', 'l', 'e'] (by decide)
    exact hcondition.spells_condition (ih level rest ws hrest)
  | @ret value h =>
    intro rest ws hrest
    cases value with
    | none =>
      simp only [canonical, words, String.reduceToList, List.cons_append, List.nil_append]
      refine Spells.keyword ?_ ['r', 'e', 't', 'u', 'r', 'n'] (by decide)
        (clear_cons (by decide) (by decide) _)
      exact hrest.mark (by decide)
    | some value =>
      simp only [canonical, words, String.toList_append, String.reduceToList, List.append_assoc,
        List.cons_append, List.nil_append]
      refine Spells.keyword_spaced ?_ ['r', 'e', 't', 'u', 'r', 'n'] (by decide)
      exact (h value rfl).writes.closed hrest (by decide)
  | @block body _ ih =>
    intro rest ws hrest
    cases body with
    | nil =>
      simp only [canonical, words, wordsList, String.reduceToList, List.cons_append,
        List.nil_append]
      exact (hrest.mark (by decide)).mark (by decide)
    | cons first others =>
      simp only [canonical, words, String.toList_append, String.reduceToList, List.append_assoc,
        List.cons_append, List.nil_append]
      refine Spells.mark (Spells.newline ?_) (by decide)
      apply writes_lines fun stmt hstmt => ih stmt hstmt (level + 1)
      exact (hrest.mark (by decide)).gap (gap_indent level)

/-! ## Programs -/

theorem writes_path {path : QualifiedName} (h : path.WellFormed) :
    Writes path.dotted (segmentWords path.segments) :=
  writes_segments h.1 h.2

theorem Import.WellFormed.writes {decl : Import} (h : decl.WellFormed) :
    WritesFully decl.canonical decl.words := by
  intro rest ws hrest
  obtain ⟨path, localName⟩ := decl
  simp only [canonical, words, String.toList_append, String.reduceToList, List.append_assoc,
    List.cons_append, List.nil_append]
  refine Spells.keyword_spaced ?_ ['i', 'm', 'p', 'o', 'r', 't'] (by decide)
  cases localName with
  | none => exact (writes_path h.path).closed hrest (by decide)
  | some name =>
    have hname : IsName name := h.localName name rfl
    simp only [localNameWords, String.toList_append, String.reduceToList, List.cons_append,
      List.nil_append]
    refine (writes_path h.path).spaced (Spells.keyword_spaced ?_ ['a', 's'] (by decide))
    exact (writes_name hname).closed hrest (by decide)

/-- The fields of a structure on lines of their own. -/
theorem spells_fields {fields : List Binder} (h : ∀ field ∈ fields, field.WellFormed)
    {rest : List Char} {ws : List Word} (hrest : Spells rest ws) :
    Spells ((Binder.canonicalLines fields).toList ++ rest)
      (commaWords (fields.map Binder.words) ++ ws) := by
  have hfield : ∀ field ∈ fields, Writes (indent 1 ++ field.canonical) field.words := by
    intro field hmem rest ws hclear hrest
    rw [String.toList_append, List.append_assoc]
    exact ((h field hmem).writes rest ws hclear hrest).gap (gap_indent 1)
  rw [Binder.canonicalLines, String.toList_append, List.append_assoc]
  exact writes_commaList hfield rfl (.space (by decide) .nil) _ _
    (clear_cons (by decide) (by decide) _) hrest.newline

/-- A well-formed item is written as its words, with line feeds and indentations as gaps. -/
theorem Item.WellFormed.writes {item : Item} (h : item.WellFormed) :
    WritesFully item.canonical item.words := by
  intro rest ws hrest
  cases h with
  | typeAlias hname htype =>
    simp only [canonical, words, String.toList_append, String.reduceToList, List.append_assoc,
      List.cons_append, List.nil_append]
    refine Spells.keyword_spaced ?_ ['t', 'y', 'p', 'e'] (by decide)
    refine (writes_name hname).spaced (Spells.spaced ?_ ['='] (.single (by decide)))
    exact htype.writes.closed hrest (by decide)
  | @struct name fields hname hfields =>
    -- an empty structure is on one line, any other has a line for each field
    have hclosing : Spells ('\x7d' :: ';' :: rest)
        ((.rbrace, "\x7d") :: (.semicolon, ";") :: ws) :=
      (hrest.mark (by decide)).mark (by decide)
    cases fields with
    | nil =>
      simp only [canonical, words, List.map_nil, String.toList_append, String.reduceToList,
        List.append_assoc, List.cons_append, List.nil_append]
      refine Spells.keyword_spaced ?_ ['s', 't', 'r', 'u', 'c', 't'] (by decide)
      exact (writes_name hname).spaced (hclosing.mark (by decide))
    | cons first others =>
      simp only [canonical, words, String.toList_append, String.reduceToList, List.append_assoc,
        List.cons_append, List.nil_append]
      refine Spells.keyword_spaced ?_ ['s', 't', 'r', 'u', 'c', 't'] (by decide)
      refine (writes_name hname).spaced (Spells.mark (Spells.newline ?_) (by decide))
      exact spells_fields hfields hclosing
  | const hname htype hvalue =>
    simp only [canonical, words, Binder.words, String.toList_append, String.reduceToList,
      List.append_assoc, List.cons_append, List.nil_append]
    refine Spells.keyword_spaced ?_ ['c', 'o', 'n', 's', 't'] (by decide)
    refine (writes_name hname).closed (Spells.space ?_) (by decide)
    refine htype.writes.spaced (Spells.spaced ?_ ['='] (.single (by decide)))
    exact hvalue.writes.closed hrest (by decide)
  | @fn name params result body hname hparams hresult hbody =>
    have hblock := (Stmt.WellFormed.block hbody).writes 0 rest ws hrest
    have hlist : Writes (", ".intercalate (params.map Binder.canonical))
        (commaWords (params.map Binder.words)) :=
      writes_commaList (fun param hparam => (hparams param hparam).writes) rfl gap_space
    simp only [canonical, words, String.toList_append, String.reduceToList, List.append_assoc,
      List.cons_append, List.nil_append]
    refine Spells.keyword_spaced ?_ ['f', 'n'] (by decide)
    refine (writes_name hname).closed (hlist.closed ?_ (by decide)) (by decide)
    cases result with
    | none => exact hblock.space
    | some type =>
      simp only [resultWords, String.toList_append, String.reduceToList, List.cons_append,
        List.nil_append]
      refine Spells.space (Spells.spaced ?_ ['-', '>'] (.double (by decide)))
      exact (hresult type rfl).writes.spaced hblock
  | letDecl h => exact h.writes rest ws hrest

/-- Imports, each on a line of its own. -/
theorem spells_imports {imports : List Import} (h : ∀ decl ∈ imports, decl.WellFormed)
    {rest : List Char} {ws : List Word} (hrest : Spells rest ws) :
    Spells ((String.join (imports.map fun decl => decl.canonical ++ "\n")).toList ++ rest)
      (imports.flatMap Import.words ++ ws) := by
  induction imports with
  | nil => exact hrest
  | cons decl others ih =>
    obtain ⟨hdecl, hothers⟩ := List.forall_mem_cons.mp h
    simp only [List.map_cons, String.join_cons, List.flatMap_cons, String.toList_append,
      String.reduceToList, List.append_assoc, List.cons_append, List.nil_append]
    exact hdecl.writes _ _ (ih hothers).newline

/-- Declarations, each with an empty line before it. -/
theorem spells_items {items : List Item} (h : ∀ item ∈ items, item.WellFormed) :
    Spells (String.join (items.map fun item => "\n" ++ item.canonical ++ "\n")).toList
      (items.flatMap Item.words) := by
  induction items with
  | nil => exact spells_of_gap .nil
  | cons item others ih =>
    obtain ⟨hitem, hothers⟩ := List.forall_mem_cons.mp h
    simp only [List.map_cons, String.join_cons, List.flatMap_cons, String.toList_append,
      String.reduceToList, List.append_assoc, List.cons_append, List.nil_append]
    exact (hitem.writes _ _ (ih hothers).newline).newline

/-- The canonical text of a well-formed program spells the words of the program. -/
theorem Program.WellFormed.spells {program : Program} (h : program.WellFormed) :
    Spells program.canonical.toList program.words := by
  simp only [canonical, words, String.toList_append, String.reduceToList, List.append_assoc,
    List.cons_append, List.nil_append]
  refine Spells.keyword_spaced ?_ ['m', 'o', 'd', 'u', 'l', 'e'] (by decide)
  refine (writes_path h.moduleName).closed (Spells.newline ?_) (by decide)
  exact spells_imports h.imports (spells_items h.items)

end Quill
