import Quill.Grammar.Statements

/-!
# Reading declarations and programs

```
Program   := 'module' QualifiedName ';' Import* Item* EOF?
Import    := 'import' QualifiedName ('as' ID)? ';'
Item      := 'type' ID '=' Type ';'
           | 'struct' ID '{' (Binder (',' Binder)*)? '}' ';'
           | 'const' Binder '=' Expr ';'
           | 'fn' ID '(' (Binder (',' Binder)*)? ')' ('->' Type)? Block
           | LetDecl
```

Declarations go on until the end of the input. The end-of-input token itself may be missing, but
nothing may stand after it.
-/

set_option autoImplicit false

namespace Quill.Grammar

/-- The line that names the module. -/
def moduleHeader (ts : List Token) : Except Stop (Reading ts QualifiedName) := do
  let keyword ← expect .kwModule ts
  let name ← keyword.next fun us _ => qualifiedName us
  let closing ← name.expect .semicolon
  return closing.give name.value

/-- One import. -/
def importDecl (ts : List Token) : Except Stop (Reading ts Import) := do
  let keyword ← expect .kwImport ts
  let path ← keyword.next fun us _ => qualifiedName us
  match path.accept .kwAs with
  | some sign =>
    let localName ← sign.next fun us _ => name us
    let closing ← localName.expect .semicolon
    return closing.give ⟨path.value, some localName.value⟩
  | none =>
    let closing ← path.expect .semicolon
    return closing.give ⟨path.value, none⟩

/-- Another name for a type. -/
def typeAlias (ts : List Token) : Except Stop (Reading ts Item) := do
  let keyword ← expect .kwType ts
  let name ← keyword.next fun us _ => name us
  let sign ← name.expect .assign
  let type ← sign.next fun us _ => typeExpr us
  let closing ← type.expect .semicolon
  return closing.give (.typeAlias name.value type.value)

/-- A structure with its fields. -/
def structDecl (ts : List Token) : Except Stop (Reading ts Item) := do
  let keyword ← expect .kwStruct ts
  let name ← keyword.next fun us _ => name us
  let opening ← name.expect .lbrace
  let fields ← opening.next fun us _ => closedList .rbrace us fun vs _ => binder vs
  let closing ← fields.expect .semicolon
  return closing.give (.struct name.value fields.value)

/-- A constant with its value. -/
def constDecl (ts : List Token) : Except Stop (Reading ts Item) := do
  let keyword ← expect .kwConst ts
  let binding ← keyword.next fun us _ => binder us
  let sign ← binding.expect .assign
  let value ← sign.next fun us _ => expr us
  let closing ← value.expect .semicolon
  return closing.give (.const binding.value.name binding.value.type value.value)

/-- A function with its body. -/
def fnDecl (ts : List Token) : Except Stop (Reading ts Item) := do
  let keyword ← expect .kwFn ts
  let name ← keyword.next fun us _ => name us
  let opening ← name.expect .lparen
  let params ← opening.next fun us _ => closedList .rparen us fun vs _ => binder vs
  match params.accept .arrow with
  | some arrow =>
    let result ← arrow.next fun us _ => typeExpr us
    let body ← result.next fun us _ => block us
    return body.give (.fn name.value params.value (some result.value) body.value)
  | none =>
    let body ← params.next fun us _ => block us
    return body.give (.fn name.value params.value none body.value)

/-- One declaration at the top level. -/
def item (ts : List Token) : Except Stop (Reading ts Item) :=
  match ahead ts with
  | .kwType => typeAlias ts
  | .kwStruct => structDecl ts
  | .kwConst => constDecl ts
  | .kwFn => fnDecl ts
  | .kwLet => do
    let decl ← letDecl ts
    return decl.give (.letDecl decl.value)
  | _ => .error ⟨.noDeclaration, ts⟩

/-- The imports, as many as follow one another, and the tokens after them. -/
def imports (ts : List Token) : Except Stop (List Import × List Token) :=
  if ahead ts = .kwImport then do
    let first ← importDecl ts
    let (others, rest) ← imports first.rest
    return (first.value :: others, rest)
  else return ([], ts)
termination_by ts.length
decreasing_by exact first.shorter

/-- The declarations up to the end of the input, and the tokens from there on. -/
def items (ts : List Token) : Except Stop (List Item × List Token) :=
  if ahead ts = .eof then return ([], ts)
  else do
    let first ← item ts
    let (others, rest) ← items first.rest
    return (first.value :: others, rest)
termination_by ts.length
decreasing_by exact first.shorter

/-- A whole program. -/
def program (ts : List Token) : Except Stop Program := do
  let moduleName ← moduleHeader ts
  let (imports, rest) ← imports moduleName.rest
  let (items, rest) ← items rest
  match rest with
  | _ :: extra :: rest => throw ⟨.trailing, extra :: rest⟩
  | _ => return ⟨moduleName.value, imports, items⟩

end Quill.Grammar
