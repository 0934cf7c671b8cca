import Quill.Proofs.Parsing.Rules

/-!
# The texts of a tree

A tree is a shape with texts in it: names, numbers and string literals. `mapTexts` changes every
text of a tree and nothing else: constructors, operators, boolean values, absent parts and the
lengths of lists stay. With all texts made empty only the shape is left (`Program.withoutTexts`).

A change of texts that is to say how much of a text is looked at is a view (`IsView`). The two that
matter are to look at all of it and to look at nothing.
-/

set_option autoImplicit false

namespace Quill

/-! ## Trees with other texts -/

namespace TypeExpr

mutual
/-- The type with every text changed. -/
def mapTexts (f : String → String) : TypeExpr → TypeExpr
  | .named name => .named (f name)
  | .array element => .array (mapTexts f element)
  | .func params result => .func (mapTextsList f params) (mapTexts f result)

/-- Types with every text changed. -/
def mapTextsList (f : String → String) : List TypeExpr → List TypeExpr
  | [] => []
  | type :: types => mapTexts f type :: mapTextsList f types
end

mutual
theorem mapTexts_id : ∀ type : TypeExpr, type.mapTexts id = type
  | .named name => rfl
  | .array element => by rw [mapTexts, mapTexts_id element]
  | .func params result => by rw [mapTexts, mapTextsList_id params, mapTexts_id result]

theorem mapTextsList_id : ∀ types : List TypeExpr, mapTextsList id types = types
  | [] => rfl
  | type :: types => by rw [mapTextsList, mapTexts_id type, mapTextsList_id types]
end

end TypeExpr

namespace Expr

mutual
/-- The expression with every text changed. -/
def mapTexts (f : String → String) : Expr → Expr
  | .assign target value => .assign (mapTexts f target) (mapTexts f value)
  | .binary op lhs rhs => .binary op (mapTexts f lhs) (mapTexts f rhs)
  | .unary op operand => .unary op (mapTexts f operand)
  | .call callee args => .call (f callee) (mapTextsList f args)
  | .index array position => .index (mapTexts f array) (mapTexts f position)
  | .member object name => .member (mapTexts f object) (f name)
  | .number text => .number (f text)
  | .string text => .string (f text)
  | .bool value => .bool value
  | .var name => .var (f name)
  | .paren inner => .paren (mapTexts f inner)

/-- Expressions with every text changed. -/
def mapTextsList (f : String → String) : List Expr → List Expr
  | [] => []
  | expr :: exprs => mapTexts f expr :: mapTextsList f exprs
end

mutual
theorem mapTexts_id : ∀ expr : Expr, expr.mapTexts id = expr
  | .assign target value => by rw [mapTexts, mapTexts_id target, mapTexts_id value]
  | .binary op lhs rhs => by rw [mapTexts, mapTexts_id lhs, mapTexts_id rhs]
  | .unary op operand => by rw [mapTexts, mapTexts_id operand]
  | .call callee args => by rw [mapTexts, mapTextsList_id args, id]
  | .index array position => by rw [mapTexts, mapTexts_id array, mapTexts_id position]
  | .member object name => by rw [mapTexts, mapTexts_id object, id]
  | .number text => rfl
  | .string text => rfl
  | .bool value => rfl
  | .var name => rfl
  | .paren inner => by rw [mapTexts, mapTexts_id inner]

theorem mapTextsList_id : ∀ exprs : List Expr, mapTextsList id exprs = exprs
  | [] => rfl
  | expr :: exprs => by rw [mapTextsList, mapTexts_id expr, mapTextsList_id exprs]
end

theorem mapTextsList_eq_map (f : String → String) (exprs : List Expr) :
    mapTextsList f exprs = exprs.map (mapTexts f) := by
  induction exprs with
  | nil => rfl
  | cons expr exprs ih => rw [mapTextsList, ih, List.map_cons]

/-- What is a name with other texts is a name. -/
theorem mapTexts_eq_var_iff {f : String → String} {expr : Expr} {name : String} :
    expr.mapTexts f = .var name ↔ ∃ other, expr = .var other ∧ f other = name := by
  cases expr <;> simp [mapTexts]

end Expr

/-- The declaration with every text changed. -/
def LetDecl.mapTexts (f : String → String) (decl : LetDecl) : LetDecl :=
  ⟨f decl.name, decl.type.mapTexts f, decl.value.map (Expr.mapTexts f)⟩

theorem LetDecl.mapTexts_id (decl : LetDecl) : decl.mapTexts id = decl := by
  have hvalue : Expr.mapTexts id = id := funext Expr.mapTexts_id
  rw [mapTexts, TypeExpr.mapTexts_id, hvalue, Option.map_id_apply]
  rfl

namespace Stmt

mutual
/-- The statement with every text changed. -/
def mapTexts (f : String → String) : Stmt → Stmt
  | .letDecl decl => .letDecl (decl.mapTexts f)
  | .expr value => .expr (value.mapTexts f)
  | .ifThen condition body => .ifThen (condition.mapTexts f) (mapTexts f body)
  | .ifElse condition body alternative =>
    .ifElse (condition.mapTexts f) (mapTexts f body) (mapTexts f alternative)
  | .whileDo condition body => .whileDo (condition.mapTexts f) (mapTexts f body)
  | .ret value => .ret (value.map (Expr.mapTexts f))
  | .block body => .block (mapTextsList f body)

/-- Statements with every text changed. -/
def mapTextsList (f : String → String) : List Stmt → List Stmt
  | [] => []
  | stmt :: stmts => mapTexts f stmt :: mapTextsList f stmts
end

mutual
theorem mapTexts_id : ∀ stmt : Stmt, stmt.mapTexts id = stmt
  | .letDecl decl => by rw [mapTexts, LetDecl.mapTexts_id decl]
  | .expr value => by rw [mapTexts, Expr.mapTexts_id value]
  | .ifThen condition body => by rw [mapTexts, Expr.mapTexts_id condition, mapTexts_id body]
  | .ifElse condition body alternative => by
    rw [mapTexts, Expr.mapTexts_id condition, mapTexts_id body, mapTexts_id alternative]
  | .whileDo condition body => by rw [mapTexts, Expr.mapTexts_id condition, mapTexts_id body]
  | .ret value => by
    have hvalue : Expr.mapTexts id = id := funext Expr.mapTexts_id
    rw [mapTexts, hvalue, Option.map_id_apply]
  | .block body => by rw [mapTexts, mapTextsList_id body]

theorem mapTextsList_id : ∀ stmts : List Stmt, mapTextsList id stmts = stmts
  | [] => rfl
  | stmt :: stmts => by rw [mapTextsList, mapTexts_id stmt, mapTextsList_id stmts]
end

theorem mapTextsList_eq_map (f : String → String) (stmts : List Stmt) :
    mapTextsList f stmts = stmts.map (mapTexts f) := by
  induction stmts with
  | nil => rfl
  | cons stmt stmts ih => rw [mapTextsList, ih, List.map_cons]

/-- Whether a statement could take an `else` does not depend on its texts. -/
theorem endsOpen_mapTexts (f : String → String) : ∀ stmt : Stmt,
    (stmt.mapTexts f).endsOpen = stmt.endsOpen
  | .letDecl _ | .expr _ | .ifThen _ _ | .ret _ | .block _ => rfl
  | .ifElse _ _ alternative => endsOpen_mapTexts f alternative
  | .whileDo _ body => endsOpen_mapTexts f body

end Stmt

/-- The import with every text changed. -/
def Import.mapTexts (f : String → String) (decl : Import) : Import :=
  ⟨⟨decl.path.segments.map f⟩, decl.localName.map f⟩

/-- The name and the type with every text changed. -/
def Binder.mapTexts (f : String → String) (binder : Binder) : Binder :=
  ⟨f binder.name, binder.type.mapTexts f⟩

/-- The declaration with every text changed. -/
def Item.mapTexts (f : String → String) : Item → Item
  | .typeAlias name type => .typeAlias (f name) (type.mapTexts f)
  | .struct name fields => .struct (f name) (fields.map (Binder.mapTexts f))
  | .const name type value => .const (f name) (type.mapTexts f) (value.mapTexts f)
  | .fn name params result body =>
    .fn (f name) (params.map (Binder.mapTexts f)) (result.map (TypeExpr.mapTexts f))
      (body.map (Stmt.mapTexts f))
  | .letDecl decl => .letDecl (decl.mapTexts f)

namespace Program

/-- The program with every text changed. -/
def mapTexts (f : String → String) (program : Program) : Program :=
  ⟨⟨program.moduleName.segments.map f⟩, program.imports.map (Import.mapTexts f),
    program.items.map (Item.mapTexts f)⟩

/-- The shape of a program: the program with every text empty. -/
def withoutTexts (program : Program) : Program :=
  program.mapTexts fun _ => ""

end Program

theorem Import.mapTexts_id (decl : Import) : decl.mapTexts id = decl := by
  rw [mapTexts, List.map_id, Option.map_id_apply]

theorem Binder.mapTexts_id (binder : Binder) : binder.mapTexts id = binder := by
  rw [mapTexts, TypeExpr.mapTexts_id, id]

theorem Item.mapTexts_id (item : Item) : item.mapTexts id = item := by
  have hbinder : Binder.mapTexts id = id := funext Binder.mapTexts_id
  have htype : TypeExpr.mapTexts id = id := funext TypeExpr.mapTexts_id
  have hstmt : Stmt.mapTexts id = id := funext Stmt.mapTexts_id
  cases item with
  | typeAlias name type => rw [mapTexts, TypeExpr.mapTexts_id, id]
  | struct name fields => rw [mapTexts, hbinder, List.map_id, id]
  | const name type value => rw [mapTexts, TypeExpr.mapTexts_id, Expr.mapTexts_id, id]
  | fn name params result body =>
    rw [mapTexts, hbinder, htype, hstmt, List.map_id, List.map_id, Option.map_id_apply, id]
  | letDecl decl => rw [mapTexts, LetDecl.mapTexts_id]

theorem Program.mapTexts_id (program : Program) : program.mapTexts id = program := by
  have himport : Import.mapTexts id = id := funext Import.mapTexts_id
  have hitem : Item.mapTexts id = id := funext Item.mapTexts_id
  rw [mapTexts, himport, hitem, List.map_id, List.map_id, List.map_id]

/-! ## Views -/

/-- How much of a text is looked at. A second look shows nothing else, and dotted names of parts
that look alike look alike. -/
structure IsView (f : String → String) : Prop where
  again : ∀ text, f (f text) = f text
  dotted : ∀ names others : List String, names.map f = others.map f →
    f (QualifiedName.dotted ⟨names⟩) = f (QualifiedName.dotted ⟨others⟩)

/-- All of a text is looked at. -/
theorem isView_id : IsView id where
  again _ := rfl
  dotted names others h := by
    rw [List.map_id, List.map_id] at h
    rw [h]

/-- Nothing of a text is looked at. -/
theorem isView_nothing : IsView fun _ => "" where
  again _ := rfl
  dotted _ _ _ := rfl

end Quill
