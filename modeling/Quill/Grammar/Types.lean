import Quill.Grammar.Reading
import Quill.Syntax.Program

/-!
# Reading names and types

```
QualifiedName := ID ('.' ID)*
Type          := SimpleType ('[' ']')*
SimpleType    := INT | BOOL | STRING | QualifiedName | '(' Type ')'
Binder        := ID ':' Type
```

A built-in type is named by the text of its token, a user type by its dotted name. Parentheses
only group and leave no trace.
-/

set_option autoImplicit false

namespace Quill.Grammar

/-- The parts of a dotted name. -/
def segments (ts : List Token) : Except Stop (Reading ts (List String)) := do
  let first ← name ts
  match first.accept .dot with
  | some dot =>
    let others ← dot.next fun us _ => segments us
    return others.give (first.value :: others.value)
  | none => return first.give [first.value]
termination_by ts.length

/-- A name with dots between its parts. -/
def qualifiedName (ts : List Token) : Except Stop (Reading ts QualifiedName) := do
  let parts ← segments ts
  return parts.give ⟨parts.value⟩

/-- The array suffixes after a type. -/
def arraySuffixes {ts : List Token} (type : Reading ts TypeExpr) :
    Except Stop (Reading ts TypeExpr) :=
  match accept .lbracket type.rest with
  | some opening => do
    let closing ← opening.expect .rbracket
    arraySuffixes ((type.extend closing).give (.array type.value))
  | none => .ok type
termination_by type.rest.length
decreasing_by exact closing.shorter

/-- A built-in type, whose name is the text of its token. -/
def builtIn (kind : Kind) (ts : List Token) : Except Stop (Reading ts TypeExpr) := do
  let found ← expect kind ts
  return found.give (.named found.value.text)

mutual
/-- A type. -/
def typeExpr (ts : List Token) : Except Stop (Reading ts TypeExpr) := do
  let type ← simpleType ts
  arraySuffixes type
termination_by (ts.length, 1)

/-- A type without array suffixes of its own. -/
def simpleType (ts : List Token) : Except Stop (Reading ts TypeExpr) :=
  match ahead ts with
  | .kwInt => builtIn .kwInt ts
  | .kwBool => builtIn .kwBool ts
  | .kwString => builtIn .kwString ts
  | .ident => do
    let name ← qualifiedName ts
    return name.give (.named name.value.dotted)
  | .lparen => do
    let opening ← expect .lparen ts
    let type ← opening.next fun us _ => typeExpr us
    let closing ← type.expect .rparen
    return closing.give type.value
  | _ => .error ⟨.noType, ts⟩
termination_by (ts.length, 0)
end

/-- A name with its type. -/
def binder (ts : List Token) : Except Stop (Reading ts Binder) := do
  let name ← name ts
  let colon ← name.expect .colon
  let type ← colon.next fun us _ => typeExpr us
  return type.give ⟨name.value, type.value⟩

end Quill.Grammar
