import Quill.Proofs.Lexical.Spelling
import Quill.Proofs.RoundTrip.WellFormed

/-!
# The words of a tree

The words of the canonical text of a tree, said without the text: each construct has its marks and
keywords between the words of its parts, in the order of the source. Spaces, line breaks and
indentation have no words.

The name of a type is a keyword, or it is split at its points.
-/

set_option autoImplicit false

namespace Quill

open Lexical Text

/-! ## Operators -/

namespace BinaryOp

/-- The kind of the token that stands for an operator. -/
def kind : BinaryOp → Kind
  | or => .orOr
  | and => .andAnd
  | eq => .equal
  | ne => .notEqual
  | lt => .less
  | le => .lessEqual
  | gt => .greater
  | ge => .greaterEqual
  | add => .plus
  | sub => .minus
  | mul => .star
  | div => .slash
  | mod => .percent

@[simp] theorem ofKind?_kind (op : BinaryOp) : ofKind? op.kind = some op := by
  cases op <;> rfl

/-- An operator is written as its token is. -/
theorem isLexeme_symbol (op : BinaryOp) : IsLexeme op.kind op.symbol.toList := by
  cases op
  case or => exact .double (by decide)
  case and => exact .double (by decide)
  case eq => exact .double (by decide)
  case ne => exact .double (by decide)
  case le => exact .double (by decide)
  case ge => exact .double (by decide)
  all_goals exact .single (by decide)

end BinaryOp

namespace UnaryOp

/-- The kind of the token that stands for an operator. -/
def kind : UnaryOp → Kind
  | not => .bang
  | neg => .minus

@[simp] theorem ofKind?_kind (op : UnaryOp) : ofKind? op.kind = some op := by
  cases op <;> rfl

theorem isLexeme_symbol (op : UnaryOp) : IsLexeme op.kind op.symbol.toList := by
  cases op <;> exact .single (by decide)

end UnaryOp

/-! ## Lists and names -/

/-- The words of parts with commas between them. -/
def commaWords (parts : List (List Word)) : List Word :=
  [(Kind.comma, ",")].intercalate parts

/-- The words of names with points between them. -/
def segmentWords : List String → List Word
  | [] => []
  | [name] => [(.ident, name)]
  | name :: next :: others => (.ident, name) :: (.dot, ".") :: segmentWords (next :: others)

/-- The words of the name of a type. -/
def typeNameWords (name : String) : List Word :=
  match Kind.keyword? name with
  | some kind => [(kind, name)]
  | none => segmentWords ((name.toList.splitOn '.').map String.ofList)

/-! ## Names of types -/

/-- A name is a letter and name characters after it, and none of the keywords. -/
theorem IsName.exists_cons {name : String} (h : IsName name) :
    ∃ c cs, name.toList = c :: cs ∧ isLetter c = true ∧ (∀ d ∈ cs, isNamePart d = true) ∧
      name ∉ Kind.keywords.map Prod.fst := by
  unfold IsName at h
  generalize hword : name.toList = word at h
  cases h with
  | name hc hcs hfree =>
    rw [← hword, String.ofList_toList] at hfree
    exact ⟨_, _, rfl, hc, hcs, hfree⟩
  | keyword h => simp [Kind.keywords] at h
  | double h => simp [Kind.doubleMarks] at h
  | single h => simp [Kind.singleMarks] at h

/-- No name is a keyword. -/
theorem IsName.keyword? {name : String} (h : IsName name) : Kind.keyword? name = none := by
  obtain ⟨-, -, -, -, -, hfree⟩ := h.exists_cons
  exact keyword?_eq_none_iff.mpr hfree

/-- There is no point in a name. -/
theorem IsName.point_not_mem {name : String} (h : IsName name) : '.' ∉ name.toList := by
  obtain ⟨c, cs, hname, hc, hcs, -⟩ := h.exists_cons
  rw [hname]
  intro hpoint
  rcases List.mem_cons.mp hpoint with rfl | hpoint
  · exact absurd hc (by decide)
  · exact absurd (hcs _ hpoint) (by decide)

/-- A dotted name is no keyword: a single name is none, and no keyword has a point in it. -/
theorem keyword?_dotted {names : List String} (hne : names ≠ [])
    (hnames : ∀ name ∈ names, IsName name) :
    Kind.keyword? (QualifiedName.dotted ⟨names⟩) = none := by
  match names, hne with
  | [name], _ =>
    rw [QualifiedName.dotted, String.intercalate_singleton]
    exact (hnames name (by simp)).keyword?
  | name :: next :: others, _ =>
    -- two parts have a point between them, and no keyword has one
    have hpoint : '.' ∈ (QualifiedName.dotted ⟨name :: next :: others⟩).toList := by
      simp [QualifiedName.dotted]
    have hfree : ∀ word ∈ Kind.keywords.map Prod.fst, '.' ∉ word.toList := by decide +kernel
    exact keyword?_eq_none_iff.mpr fun hmem => hfree _ hmem hpoint

/-- The words of a dotted name are those of its parts. -/
theorem typeNameWords_dotted {names : List String} (hne : names ≠ [])
    (hnames : ∀ name ∈ names, IsName name) :
    typeNameWords (QualifiedName.dotted ⟨names⟩) = segmentWords names := by
  -- no part has a point, so the points are exactly those between the parts
  have hsplit : (QualifiedName.dotted ⟨names⟩).toList.splitOn '.' = names.map String.toList := by
    rw [QualifiedName.dotted, String.toList_intercalate]
    refine List.splitOn_intercalate '.' ?_ (by simpa using hne)
    intro word hword
    obtain ⟨name, hname, rfl⟩ := List.mem_map.mp hword
    exact (hnames name hname).point_not_mem
  simp only [typeNameWords, keyword?_dotted hne hnames, hsplit, List.map_map]
  congr 1
  conv => rhs; rw [← List.map_id names]
  exact List.map_congr_left fun name _ => String.ofList_toList

/-! ## Types and expressions -/

/-- The words of a type. Function types have none, since the language has no form for them. -/
def TypeExpr.words : TypeExpr → List Word
  | .named name => typeNameWords name
  | .array element => element.words ++ [(.lbracket, "["), (.rbracket, "]")]
  | .func _ _ => []

namespace Expr

mutual
/-- The words of an expression. -/
def words : Expr → List Word
  | .assign target value => words target ++ (.assign, "=") :: words value
  | .binary op lhs rhs => words lhs ++ (op.kind, op.symbol) :: words rhs
  | .unary op operand => (op.kind, op.symbol) :: words operand
  | .call callee args =>
    (.ident, callee) :: (.lparen, "(") :: (commaWords (wordsList args) ++ [(.rparen, ")")])
  | .index array position =>
    words array ++ (.lbracket, "[") :: (words position ++ [(.rbracket, "]")])
  | .member object name => words object ++ [(.dot, "."), (.ident, name)]
  | .number text => [(.number, text)]
  | .string text => [(.string, text)]
  | .bool value => [if value then (.kwTrue, "true") else (.kwFalse, "false")]
  | .var name => [(.ident, name)]
  | .paren inner => (.lparen, "(") :: (words inner ++ [(.rparen, ")")])

/-- The words of expressions, apart from each other. -/
def wordsList : List Expr → List (List Word)
  | [] => []
  | expr :: exprs => words expr :: wordsList exprs
end

theorem wordsList_eq_map (exprs : List Expr) : wordsList exprs = exprs.map words := by
  induction exprs with
  | nil => rfl
  | cons expr exprs ih => rw [wordsList, ih, List.map_cons]

end Expr

/-! ## Statements -/

/-- The words of a name with its type. -/
def Binder.words (binder : Binder) : List Word :=
  (.ident, binder.name) :: (.colon, ":") :: binder.type.words

/-- The words of the value that a declaration may have. -/
def valueWords : Option Expr → List Word
  | some value => (.assign, "=") :: value.words
  | none => []

/-- The words of the declaration of a variable. -/
def LetDecl.words (decl : LetDecl) : List Word :=
  (.kwLet, "let") :: (Binder.words ⟨decl.name, decl.type⟩ ++
    (valueWords decl.value ++ [(.semicolon, ";")]))

/-- The words of a condition. -/
def conditionWords (condition : Expr) : List Word :=
  (.lparen, "(") :: (condition.words ++ [(.rparen, ")")])

namespace Stmt

mutual
/-- The words of a statement. -/
def words : Stmt → List Word
  | .letDecl decl => decl.words
  | .expr value => value.words ++ [(.semicolon, ";")]
  | .ifThen condition body => (.kwIf, "if") :: (conditionWords condition ++ words body)
  | .ifElse condition body alternative =>
    (.kwIf, "if") :: (conditionWords condition ++
      (words body ++ (.kwElse, "else") :: words alternative))
  | .whileDo condition body => (.kwWhile, "while") :: (conditionWords condition ++ words body)
  | .ret none => [(.kwReturn, "return"), (.semicolon, ";")]
  | .ret (some value) => (.kwReturn, "return") :: (value.words ++ [(.semicolon, ";")])
  | .block body => (.lbrace, "\x7b") :: (wordsList body ++ [(.rbrace, "\x7d")])

/-- The words of statements, one after another. -/
def wordsList : List Stmt → List Word
  | [] => []
  | stmt :: stmts => words stmt ++ wordsList stmts
end

theorem wordsList_eq_flatMap (stmts : List Stmt) : wordsList stmts = stmts.flatMap words := by
  induction stmts with
  | nil => rfl
  | cons stmt stmts ih => rw [wordsList, ih, List.flatMap_cons]

end Stmt

/-! ## Programs -/

/-- The words of the result that a function may declare. -/
def resultWords : Option TypeExpr → List Word
  | some type => (.arrow, "->") :: type.words
  | none => []

/-- The words of a declaration. -/
def Item.words : Item → List Word
  | .typeAlias name type =>
    (.kwType, "type") :: (.ident, name) :: (.assign, "=") :: (type.words ++ [(.semicolon, ";")])
  | .struct name fields =>
    (.kwStruct, "struct") :: (.ident, name) :: (.lbrace, "\x7b") ::
      (commaWords (fields.map Binder.words) ++ [(.rbrace, "\x7d"), (.semicolon, ";")])
  | .const name type value =>
    (.kwConst, "const") :: (Binder.words ⟨name, type⟩ ++
      (.assign, "=") :: (value.words ++ [(.semicolon, ";")]))
  | .fn name params result body =>
    (.kwFn, "fn") :: (.ident, name) :: (.lparen, "(") ::
      (commaWords (params.map Binder.words) ++
        (.rparen, ")") :: (resultWords result ++ (Stmt.block body).words))
  | .letDecl decl => decl.words

/-- The words of the other name that an import may give. -/
def localNameWords : Option String → List Word
  | some name => [(.kwAs, "as"), (.ident, name)]
  | none => []

/-- The words of an import. -/
def Import.words (decl : Import) : List Word :=
  (.kwImport, "import") :: (segmentWords decl.path.segments ++
    (localNameWords decl.localName ++ [(.semicolon, ";")]))

/-- The words of a program. -/
def Program.words (program : Program) : List Word :=
  (.kwModule, "module") :: (segmentWords program.moduleName.segments ++
    (.semicolon, ";") :: (program.imports.flatMap Import.words ++
      program.items.flatMap Item.words))

end Quill
