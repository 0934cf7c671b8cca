import Quill.Proofs.Lexical.Rules
import Quill.Proofs.Parsing.Rules

/-!
# Well-formed trees

The canonical text of a tree adds nothing to the tree, so not every tree comes back from its text.
Those that do are the well-formed ones:

* names are lexemes of their kind, and so are the texts of numbers and strings;
* a dotted name has at least one part, and a type is a built-in name, a dotted name or an array;
* operands stand on levels on which their operators take them without parentheses;
* the body of a conditional with an alternative does not end in a conditional without one.
-/

set_option autoImplicit false

namespace Quill

open Lexical

/-- The text is a name: an identifier that is no keyword. -/
def IsName (text : String) : Prop :=
  IsLexeme .ident text.toList

/-! ## Types and expressions -/

/-- Well-formed types. -/
inductive TypeExpr.WellFormed : TypeExpr → Prop
  | builtIn {name : String} : name = "int" ∨ name = "bool" ∨ name = "string" →
      WellFormed (.named name)
  | segments {names : List String} : names ≠ [] → (∀ name ∈ names, IsName name) →
      WellFormed (.named (QualifiedName.dotted ⟨names⟩))
  | array {element : TypeExpr} : WellFormed element → WellFormed (.array element)

/-- The level on which an expression stands without parentheses: 0 for assignments, that of the
operator for binary operators, 7 for unary operators and 8 for everything else. -/
def Expr.level : Expr → Nat
  | .assign _ _ => 0
  | .binary op _ _ => op.level
  | .unary _ _ => 7
  | _ => 8

theorem Expr.level_le (expr : Expr) : expr.level ≤ 8 := by
  cases expr with
  | binary op => exact Nat.le_trans op.level_le (by decide)
  | _ => simp [level]

/-- Well-formed expressions. -/
inductive Expr.WellFormed : Expr → Prop
  | assign {target value : Expr} : 1 ≤ target.level → WellFormed target → WellFormed value →
      WellFormed (.assign target value)
  | binary {op : BinaryOp} {lhs rhs : Expr} : op.level ≤ lhs.level → op.level + 1 ≤ rhs.level →
      WellFormed lhs → WellFormed rhs → WellFormed (.binary op lhs rhs)
  | unary {op : UnaryOp} {operand : Expr} : 7 ≤ operand.level → WellFormed operand →
      WellFormed (.unary op operand)
  | call {callee : String} {args : List Expr} : IsName callee →
      (∀ arg ∈ args, WellFormed arg) → WellFormed (.call callee args)
  | index {array position : Expr} : array.level = 8 → WellFormed array → WellFormed position →
      WellFormed (.index array position)
  | member {object : Expr} {name : String} : object.level = 8 → WellFormed object → IsName name →
      WellFormed (.member object name)
  | number {text : String} : IsLexeme .number text.toList → WellFormed (.number text)
  | string {text : String} : IsLexeme .string text.toList → WellFormed (.string text)
  | bool {value : Bool} : WellFormed (.bool value)
  | var {name : String} : IsName name → WellFormed (.var name)
  | paren {inner : Expr} : WellFormed inner → WellFormed (.paren inner)

/-! ## Statements -/

/-- A well-formed declaration of a variable. -/
structure LetDecl.WellFormed (decl : LetDecl) : Prop where
  name : IsName decl.name
  type : decl.type.WellFormed
  value : ∀ value ∈ decl.value, value.WellFormed

/-- Well-formed statements. -/
inductive Stmt.WellFormed : Stmt → Prop
  | letDecl {decl : LetDecl} : decl.WellFormed → WellFormed (.letDecl decl)
  | expr {value : Expr} : value.WellFormed → WellFormed (.expr value)
  | ifThen {condition : Expr} {body : Stmt} : condition.WellFormed → WellFormed body →
      WellFormed (.ifThen condition body)
  | ifElse {condition : Expr} {body alternative : Stmt} : condition.WellFormed →
      WellFormed body → body.endsOpen = false → WellFormed alternative →
      WellFormed (.ifElse condition body alternative)
  | whileDo {condition : Expr} {body : Stmt} : condition.WellFormed → WellFormed body →
      WellFormed (.whileDo condition body)
  | ret {value : Option Expr} : (∀ expr ∈ value, expr.WellFormed) → WellFormed (.ret value)
  | block {body : List Stmt} : (∀ stmt ∈ body, WellFormed stmt) → WellFormed (.block body)

/-! ## Programs -/

/-- A dotted name has at least one part, and its parts are names. -/
def QualifiedName.WellFormed (name : QualifiedName) : Prop :=
  name.segments ≠ [] ∧ ∀ segment ∈ name.segments, IsName segment

/-- A well-formed import. -/
structure Import.WellFormed (decl : Import) : Prop where
  path : decl.path.WellFormed
  localName : ∀ name ∈ decl.localName, IsName name

/-- A well-formed name with its type. -/
structure Binder.WellFormed (binder : Binder) : Prop where
  name : IsName binder.name
  type : binder.type.WellFormed

/-- Well-formed declarations. -/
inductive Item.WellFormed : Item → Prop
  | typeAlias {name : String} {type : TypeExpr} : IsName name → type.WellFormed →
      WellFormed (.typeAlias name type)
  | struct {name : String} {fields : List Binder} : IsName name →
      (∀ field ∈ fields, field.WellFormed) → WellFormed (.struct name fields)
  | const {name : String} {type : TypeExpr} {value : Expr} : IsName name → type.WellFormed →
      value.WellFormed → WellFormed (.const name type value)
  | fn {name : String} {params : List Binder} {result : Option TypeExpr} {body : List Stmt} :
      IsName name → (∀ param ∈ params, param.WellFormed) →
      (∀ type ∈ result, type.WellFormed) → (∀ stmt ∈ body, stmt.WellFormed) →
      WellFormed (.fn name params result body)
  | letDecl {decl : LetDecl} : decl.WellFormed → WellFormed (.letDecl decl)

/-- A well-formed program. -/
structure Program.WellFormed (program : Program) : Prop where
  moduleName : program.moduleName.WellFormed
  imports : ∀ decl ∈ program.imports, decl.WellFormed
  items : ∀ item ∈ program.items, item.WellFormed

end Quill
