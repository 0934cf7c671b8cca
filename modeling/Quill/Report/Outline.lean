import Quill.Report.Layout
import Quill.Report.Quoted
import Quill.Syntax.Program
import Quill.Text.Classes

/-!
# The outline of a tree

An outline names every node of a tree and lists its parts, one to a line and indented by four
spaces a level, with a comma after each. A node with named parts is written in braces, a node
with a single unnamed part in parentheses, a list in brackets; an optional part is `None` or
`Some`. Texts are quoted, so that a text never breaks a line and never looks like structure.

Which characters are shown as they are is a parameter of the outline. The report uses
`Text.isPrintable`.
-/

set_option autoImplicit false

namespace Quill

open Report (Layout Style outlineEscape quoted)

namespace Report.Outline

/-- The conventions of outlines. -/
def style : Style := ⟨4, ","⟩

/-- A text. -/
def text (plain : Char → Bool) (value : String) : Layout :=
  .line (quoted (outlineEscape plain) value)

/-- A node with named parts. -/
def node (name : String) (parts : List (String × Layout)) : Layout :=
  .group (name ++ " \x7b") "\x7d" (parts.map fun part => (part.1 ++ ": ", part.2))

/-- A node with one unnamed part. -/
def wrap (name : String) (part : Layout) : Layout :=
  .list (name ++ "(") ")" [part]

/-- A list of parts. -/
def list (parts : List Layout) : Layout :=
  .list "[" "]" parts

/-- An optional part. -/
def option {α : Type} (outline : α → Layout) : Option α → Layout
  | some value => wrap "Some" (outline value)
  | none => .line "None"

end Report.Outline

open Report.Outline (node wrap list option)

namespace TypeExpr

mutual
/-- The outline of a type. -/
def outline (plain : Char → Bool) : TypeExpr → Layout
  | .named name => wrap "Simple" (Report.Outline.text plain name)
  | .array element => wrap "Array" (outline plain element)
  | .func params result =>
    node "Func" [("params", list (outlineList plain params)), ("ret", outline plain result)]

/-- The outlines of types. -/
def outlineList (plain : Char → Bool) : List TypeExpr → List Layout
  | [] => []
  | type :: types => outline plain type :: outlineList plain types
end

end TypeExpr

namespace Expr

mutual
/-- The outline of an expression. -/
def outline (plain : Char → Bool) : Expr → Layout
  | .assign target value =>
    node "Assign" [("target", outline plain target), ("value", outline plain value)]
  | .binary op lhs rhs =>
    node "Binary" [("op", .line op.name), ("lhs", outline plain lhs), ("rhs", outline plain rhs)]
  | .unary op operand =>
    node "Unary" [("op", .line op.name), ("expr", outline plain operand)]
  | .call callee args =>
    node "Call" [("callee", Report.Outline.text plain callee),
      ("args", list (outlineList plain args))]
  | .index array position =>
    node "Index" [("array", outline plain array), ("index", outline plain position)]
  | .member object name =>
    node "Member" [("object", outline plain object),
      ("member", Report.Outline.text plain name)]
  | .number text => wrap "Num" (Report.Outline.text plain text)
  | .string text => wrap "Str" (Report.Outline.text plain text)
  | .bool value => wrap "Bool" (.line (if value then "true" else "false"))
  | .var name => wrap "Var" (Report.Outline.text plain name)
  | .paren inner => wrap "Paren" (outline plain inner)

/-- The outlines of expressions. -/
def outlineList (plain : Char → Bool) : List Expr → List Layout
  | [] => []
  | expr :: exprs => outline plain expr :: outlineList plain exprs
end

end Expr

/-- The outline of a variable's declaration. -/
def LetDecl.outline (plain : Char → Bool) (decl : LetDecl) : Layout :=
  node "LetDecl" [("name", Report.Outline.text plain decl.name),
    ("ty", decl.type.outline plain), ("value", option (Expr.outline plain) decl.value)]

namespace Stmt

mutual
/-- The outline of a statement. -/
def outline (plain : Char → Bool) : Stmt → Layout
  | .letDecl decl => wrap "Let" (decl.outline plain)
  | .expr value => wrap "Expr" (value.outline plain)
  | .ifThen condition body =>
    node "If" [("cond", condition.outline plain), ("then_", outline plain body),
      ("else_", .line "None")]
  | .ifElse condition body alternative =>
    node "If" [("cond", condition.outline plain), ("then_", outline plain body),
      ("else_", wrap "Some" (outline plain alternative))]
  | .whileDo condition body =>
    node "While" [("cond", condition.outline plain), ("body", outline plain body)]
  | .ret value => wrap "Return" (option (Expr.outline plain) value)
  | .block body => wrap "Block" (node "Block" [("stmts", list (outlineList plain body))])

/-- The outlines of statements. -/
def outlineList (plain : Char → Bool) : List Stmt → List Layout
  | [] => []
  | stmt :: stmts => outline plain stmt :: outlineList plain stmts
end

end Stmt

/-- The outline of a dotted name. -/
def QualifiedName.outline (plain : Char → Bool) (name : QualifiedName) : Layout :=
  node "QualifiedId" [("segments", list (name.segments.map (Report.Outline.text plain)))]

/-- The outline of a name with its type, under the name of the role it has. -/
def Binder.outline (role : String) (plain : Char → Bool) (binder : Binder) : Layout :=
  node role [("name", Report.Outline.text plain binder.name), ("ty", binder.type.outline plain)]

/-- The outline of an import. -/
def Import.outline (plain : Char → Bool) (decl : Import) : Layout :=
  node "ImportDecl" [("path", decl.path.outline plain),
    ("alias", option (Report.Outline.text plain) decl.localName)]

/-- The outline of a declaration. -/
def Item.outline (plain : Char → Bool) : Item → Layout
  | .typeAlias name type =>
    wrap "TypeAlias" (node "TypeAlias" [("name", Report.Outline.text plain name),
      ("ty", type.outline plain)])
  | .struct name fields =>
    wrap "Struct" (node "StructDecl" [("name", Report.Outline.text plain name),
      ("fields", list (fields.map (Binder.outline "Field" plain)))])
  | .const name type value =>
    wrap "Const" (node "ConstDecl" [("name", Report.Outline.text plain name),
      ("ty", type.outline plain), ("value", value.outline plain)])
  | .fn name params result body =>
    wrap "Fn" (node "FnDecl" [("name", Report.Outline.text plain name),
      ("params", list (params.map (Binder.outline "Param" plain))),
      ("ret_ty", option (TypeExpr.outline plain) result),
      ("body", node "Block" [("stmts", list (Stmt.outlineList plain body))])])
  | .letDecl decl => wrap "Let" (decl.outline plain)

/-- The outline of a program. -/
def Program.outline (plain : Char → Bool) (program : Program) : Layout :=
  node "Program" [
    ("module", node "ModuleDecl" [("name", program.moduleName.outline plain)]),
    ("imports", list (program.imports.map (Import.outline plain))),
    ("items", list (program.items.map (Item.outline plain)))]

/-- The text of a program's outline. -/
def Program.outlineText (plain : Char → Bool) (program : Program) : String :=
  (program.outline plain).text Report.Outline.style

end Quill
