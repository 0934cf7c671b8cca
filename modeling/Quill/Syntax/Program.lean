import Quill.Syntax.Stmt

/-!
# Programs

A program names its module, then imports other modules, then declares things. The order of
imports and of declarations is that of the source.
-/

set_option autoImplicit false

namespace Quill

/-- A name with dots between its parts. In a source it has at least one part. -/
structure QualifiedName where
  segments : List String
deriving DecidableEq, Repr

/-- The name written out. -/
def QualifiedName.dotted (name : QualifiedName) : String :=
  ".".intercalate name.segments

/-- The import of a module, perhaps under another name. -/
structure Import where
  path : QualifiedName
  localName : Option String
deriving DecidableEq, Repr

/-- A name with its type: a field of a structure or a parameter of a function. -/
structure Binder where
  name : String
  type : TypeExpr
deriving DecidableEq, Repr

/-- A declaration at the top level. -/
inductive Item where
  | typeAlias (name : String) (type : TypeExpr)
  | struct (name : String) (fields : List Binder)
  | const (name : String) (type : TypeExpr) (value : Expr)
  | fn (name : String) (params : List Binder) (result : Option TypeExpr) (body : List Stmt)
  | letDecl (decl : LetDecl)
deriving DecidableEq, Repr

/-- A whole program. -/
structure Program where
  moduleName : QualifiedName
  imports : List Import
  items : List Item
deriving DecidableEq, Repr

end Quill
