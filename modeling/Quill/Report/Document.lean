import Quill.Program.OfSource
import Quill.Report.Json

/-!
# The JSON documents of tokens, trees and errors

Every node of a tree is an object with its fields by name, and an absent part is `null`. A node
that is one of several alternatives is wrapped in an object with one field, named for the
alternative.

The documents of the two commands start with a field that tells success from failure. A failure
to read a program also says which stage failed, and this alone tells the two kinds of error
apart.
-/

set_option autoImplicit false

namespace Quill

open Report (Json)

/-! ## Tokens and errors -/

/-- The document of a token. -/
def Token.json (token : Token) : Json :=
  .object [("kind", .string token.kind.name), ("text", .string token.text),
    ("line", .number token.pos.line), ("column", .number token.pos.column)]

/-- The document of a lexical error. -/
def LexicalError.json (error : LexicalError) : Json :=
  .object [("kind", .string error.kindName), ("message", .string error.message),
    ("line", .number error.pos.line), ("column", .number error.pos.column),
    ("tokens", .array (error.tokens.map Token.json))]

/-- The document of a syntax error. -/
def SyntaxError.json (error : SyntaxError) : Json :=
  .object [("kind", .string error.kind.name), ("message", .string error.message),
    ("offending_token", error.token.json)]

namespace Rejection

/-- The name of the stage that failed. -/
def stage : Rejection → String
  | lexical _ => "lex"
  | syntactic _ => "parse"

/-- The document of the error alone. -/
def json : Rejection → Json
  | lexical error => error.json
  | syntactic error => error.json

end Rejection

/-! ## Trees -/

namespace TypeExpr

mutual
/-- The document of a type. -/
def json : TypeExpr → Json
  | .named name => .variant "Simple" (.string name)
  | .array element => .variant "Array" (json element)
  | .func params result =>
    .variant "Func" (.object [("params", .array (jsonList params)), ("ret", json result)])

/-- The documents of types. -/
def jsonList : List TypeExpr → List Json
  | [] => []
  | type :: types => json type :: jsonList types
end

end TypeExpr

namespace Expr

mutual
/-- The document of an expression. -/
def json : Expr → Json
  | .assign target value =>
    .variant "Assign" (.object [("target", json target), ("value", json value)])
  | .binary op lhs rhs =>
    .variant "Binary" (.object [("op", .string op.name), ("lhs", json lhs), ("rhs", json rhs)])
  | .unary op operand =>
    .variant "Unary" (.object [("op", .string op.name), ("expr", json operand)])
  | .call callee args =>
    .variant "Call" (.object [("callee", .string callee), ("args", .array (jsonList args))])
  | .index array position =>
    .variant "Index" (.object [("array", json array), ("index", json position)])
  | .member object name =>
    .variant "Member" (.object [("object", json object), ("member", .string name)])
  | .number text => .variant "Num" (.string text)
  | .string text => .variant "Str" (.string text)
  | .bool value => .variant "Bool" (.bool value)
  | .var name => .variant "Var" (.string name)
  | .paren inner => .variant "Paren" (json inner)

/-- The documents of expressions. -/
def jsonList : List Expr → List Json
  | [] => []
  | expr :: exprs => json expr :: jsonList exprs
end

end Expr

/-- The document of a variable's declaration. -/
def LetDecl.json (decl : LetDecl) : Json :=
  .object [("name", .string decl.name), ("ty", decl.type.json),
    ("value", .ofOption Expr.json decl.value)]

namespace Stmt

mutual
/-- The document of a statement. -/
def json : Stmt → Json
  | .letDecl decl => .variant "Let" decl.json
  | .expr value => .variant "Expr" value.json
  | .ifThen condition body =>
    .variant "If" (.object [("cond", condition.json), ("then_", json body), ("else_", .null)])
  | .ifElse condition body alternative =>
    .variant "If" (.object [("cond", condition.json), ("then_", json body),
      ("else_", json alternative)])
  | .whileDo condition body =>
    .variant "While" (.object [("cond", condition.json), ("body", json body)])
  | .ret value => .variant "Return" (.ofOption Expr.json value)
  | .block body => .variant "Block" (.object [("stmts", .array (jsonList body))])

/-- The documents of statements. -/
def jsonList : List Stmt → List Json
  | [] => []
  | stmt :: stmts => json stmt :: jsonList stmts
end

end Stmt

/-- The document of a dotted name. -/
def QualifiedName.json (name : QualifiedName) : Json :=
  .object [("segments", .array (name.segments.map .string))]

/-- The document of a name with its type. -/
def Binder.json (binder : Binder) : Json :=
  .object [("name", .string binder.name), ("ty", binder.type.json)]

/-- The document of an import. -/
def Import.json (decl : Import) : Json :=
  .object [("path", decl.path.json), ("alias", .ofOption .string decl.localName)]

/-- The document of a declaration. -/
def Item.json : Item → Json
  | .typeAlias name type =>
    .variant "TypeAlias" (.object [("name", .string name), ("ty", type.json)])
  | .struct name fields =>
    .variant "Struct" (.object [("name", .string name),
      ("fields", .array (fields.map Binder.json))])
  | .const name type value =>
    .variant "Const" (.object [("name", .string name), ("ty", type.json),
      ("value", value.json)])
  | .fn name params result body =>
    .variant "Fn" (.object [("name", .string name), ("params", .array (params.map Binder.json)),
      ("ret_ty", .ofOption TypeExpr.json result),
      ("body", .object [("stmts", .array (Stmt.jsonList body))])])
  | .letDecl decl => .variant "Let" decl.json

/-- The document of a program. -/
def Program.json (program : Program) : Json :=
  .object [("module", .object [("name", program.moduleName.json)]),
    ("imports", .array (program.imports.map Import.json)),
    ("items", .array (program.items.map Item.json))]

/-! ## Documents of the two commands -/

/-- The document of a source read as tokens. -/
def Report.tokensDocument : Except LexicalError (List Token) → Json
  | .ok tokens =>
    .object [("success", .bool true), ("tokens", .array (tokens.map Token.json))]
  | .error error => .object [("success", .bool false), ("error", error.json)]

/-- The document of a source read as a program. -/
def Report.programDocument : Except Rejection Program → Json
  | .ok program => .object [("success", .bool true), ("program", program.json)]
  | .error why =>
    .object [("success", .bool false), ("stage", .string why.stage), ("error", why.json)]

end Quill
