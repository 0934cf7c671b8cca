import Quill.Syntax.Program

/-!
# Canonical source text

Every tree has one source text, also a tree that no source has. The text follows the tree and
adds nothing to it: parentheses come from `Expr.paren` nodes alone, with one exception in types,
where an array of functions is written with the function type in parentheses.

Nested statements are indented by four spaces a level. The level is an argument of the
functions on statements; a statement does not indent its own first line.
-/

set_option autoImplicit false

namespace Quill

/-- The space before a line at a level of nesting. -/
def indent (level : Nat) : String :=
  String.ofList (List.replicate (4 * level) ' ')

namespace TypeExpr

/-- Whether a type is a function type, the only kind of type that an array suffix would not
apply to as a whole. -/
def isFunc : TypeExpr → Bool
  | .func _ _ => true
  | _ => false

mutual
/-- The text of a type. -/
def canonical : TypeExpr → String
  | .named name => name
  | .array element =>
    (if element.isFunc then "(" ++ canonical element ++ ")" else canonical element) ++ "[]"
  | .func params result =>
    "(" ++ ", ".intercalate (canonicalList params) ++ ") -> " ++ canonical result

/-- The texts of types. -/
def canonicalList : List TypeExpr → List String
  | [] => []
  | type :: types => canonical type :: canonicalList types
end

end TypeExpr

namespace Expr

mutual
/-- The text of an expression. -/
def canonical : Expr → String
  | .assign target value => canonical target ++ " = " ++ canonical value
  | .binary op lhs rhs => canonical lhs ++ " " ++ op.symbol ++ " " ++ canonical rhs
  | .unary op operand => op.symbol ++ canonical operand
  | .call callee args => callee ++ "(" ++ ", ".intercalate (canonicalList args) ++ ")"
  | .index array position => canonical array ++ "[" ++ canonical position ++ "]"
  | .member object name => canonical object ++ "." ++ name
  | .number text => text
  | .string text => text
  | .bool value => if value then "true" else "false"
  | .var name => name
  | .paren inner => "(" ++ canonical inner ++ ")"

/-- The texts of expressions. -/
def canonicalList : List Expr → List String
  | [] => []
  | expr :: exprs => canonical expr :: canonicalList exprs
end

end Expr

/-- The text of a variable's declaration. -/
def LetDecl.canonical (decl : LetDecl) : String :=
  "let " ++ decl.name ++ ": " ++ decl.type.canonical
    ++ (match decl.value with
      | some value => " = " ++ value.canonical
      | none => "")
    ++ ";"

namespace Stmt

mutual
/-- The text of a statement at a level of nesting. -/
def canonical (level : Nat) : Stmt → String
  | .letDecl decl => decl.canonical
  | .expr value => value.canonical ++ ";"
  | .ifThen condition body => "if (" ++ condition.canonical ++ ") " ++ canonical level body
  | .ifElse condition body alternative =>
    "if (" ++ condition.canonical ++ ") " ++ canonical level body ++ " else "
      ++ canonical level alternative
  | .whileDo condition body =>
    "while (" ++ condition.canonical ++ ") " ++ canonical level body
  | .ret none => "return;"
  | .ret (some value) => "return " ++ value.canonical ++ ";"
  | .block [] => "\x7b\x7d"
  | .block (first :: others) =>
    "\x7b\n" ++ canonicalLines (level + 1) (first :: others) ++ indent level ++ "\x7d"

/-- The lines of statements at a level of nesting. -/
def canonicalLines (level : Nat) : List Stmt → String
  | [] => ""
  | stmt :: stmts =>
    indent level ++ canonical level stmt ++ "\n" ++ canonicalLines level stmts
end

end Stmt

/-- The text of a name with its type. -/
def Binder.canonical (binder : Binder) : String :=
  binder.name ++ ": " ++ binder.type.canonical

/-- The lines of the fields of a structure. -/
def Binder.canonicalLines (fields : List Binder) : String :=
  ",\n".intercalate (fields.map fun field => indent 1 ++ field.canonical) ++ "\n"

/-- The text of a declaration. -/
def Item.canonical : Item → String
  | .typeAlias name type => "type " ++ name ++ " = " ++ type.canonical ++ ";"
  | .struct name [] => "struct " ++ name ++ " \x7b\x7d;"
  | .struct name (first :: others) =>
    "struct " ++ name ++ " \x7b\n" ++ Binder.canonicalLines (first :: others) ++ "\x7d;"
  | .const name type value =>
    "const " ++ name ++ ": " ++ type.canonical ++ " = " ++ value.canonical ++ ";"
  | .fn name params result body =>
    "fn " ++ name ++ "(" ++ ", ".intercalate (params.map Binder.canonical) ++ ")"
      ++ (match result with
        | some type => " -> " ++ type.canonical
        | none => "")
      ++ " " ++ (Stmt.block body).canonical 0
  | .letDecl decl => decl.canonical

/-- The text of an import. -/
def Import.canonical (decl : Import) : String :=
  "import " ++ decl.path.dotted
    ++ (match decl.localName with
      | some localName => " as " ++ localName
      | none => "")
    ++ ";"

/-- The text of a program: the module line, a line for each import, and each declaration after
an empty line. -/
def Program.canonical (program : Program) : String :=
  "module " ++ program.moduleName.dotted ++ ";\n"
    ++ String.join (program.imports.map fun decl => decl.canonical ++ "\n")
    ++ String.join (program.items.map fun item => "\n" ++ item.canonical ++ "\n")

end Quill
