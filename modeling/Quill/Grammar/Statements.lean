import Quill.Grammar.Expressions
import Quill.Grammar.Types

/-!
# Reading statements

```
Stmt      := LetDecl | Block
           | 'if' Condition Stmt ('else' Stmt)?
           | 'while' Condition Stmt
           | 'return' Expr? ';'
           | Expr ';'
LetDecl   := 'let' Binder ('=' Expr)? ';'
Condition := '(' Expr ')'
Block     := '{' Stmt* '}'
```

An `else` goes to the nearest conditional that is still open. The statements of a block go on
until a closing brace or the end of the input; there the closing brace is required.
-/

set_option autoImplicit false

namespace Quill.Grammar

/-- The declaration of a variable. -/
def letDecl (ts : List Token) : Except Stop (Reading ts LetDecl) := do
  let keyword ← expect .kwLet ts
  let binding ← keyword.next fun us _ => binder us
  match binding.accept .assign with
  | some sign =>
    let value ← sign.next fun us _ => expr us
    let closing ← value.expect .semicolon
    return closing.give ⟨binding.value.name, binding.value.type, some value.value⟩
  | none =>
    let closing ← binding.expect .semicolon
    return closing.give ⟨binding.value.name, binding.value.type, none⟩

/-- An expression in parentheses that decides what is run. -/
def condition (ts : List Token) : Except Stop (Reading ts Expr) := do
  let opening ← expect .lparen ts
  let value ← opening.next fun us _ => expr us
  let closing ← value.expect .rparen
  return closing.give value.value

/-- A return with or without a value. -/
def returnStmt (ts : List Token) : Except Stop (Reading ts Stmt) := do
  let keyword ← expect .kwReturn ts
  match keyword.accept .semicolon with
  | some closing => return closing.give (.ret none)
  | none =>
    let value ← keyword.next fun us _ => expr us
    let closing ← value.expect .semicolon
    return closing.give (.ret (some value.value))

/-- An expression as a statement. -/
def exprStmt (ts : List Token) : Except Stop (Reading ts Stmt) := do
  let value ← expr ts
  let closing ← value.expect .semicolon
  return closing.give (.expr value.value)

mutual
/-- A statement. -/
def stmt (ts : List Token) : Except Stop (Reading ts Stmt) :=
  match ahead ts with
  | .kwLet => do
    let decl ← letDecl ts
    return decl.give (.letDecl decl.value)
  | .kwIf => conditional ts
  | .kwWhile => loop ts
  | .kwReturn => returnStmt ts
  | .lbrace => do
    let body ← block ts
    return body.give (.block body.value)
  | _ => exprStmt ts
termination_by (ts.length, 1)

/-- A conditional, with its alternative if there is one. -/
def conditional (ts : List Token) : Except Stop (Reading ts Stmt) := do
  let keyword ← expect .kwIf ts
  let test ← keyword.next fun us _ => condition us
  let body ← test.next fun us _ => stmt us
  match body.accept .kwElse with
  | some other =>
    let alternative ← other.next fun us _ => stmt us
    return alternative.give (.ifElse test.value body.value alternative.value)
  | none => return body.give (.ifThen test.value body.value)
termination_by (ts.length, 0)

/-- A loop. -/
def loop (ts : List Token) : Except Stop (Reading ts Stmt) := do
  let keyword ← expect .kwWhile ts
  let test ← keyword.next fun us _ => condition us
  let body ← test.next fun us _ => stmt us
  return body.give (.whileDo test.value body.value)
termination_by (ts.length, 0)

/-- Statements in braces. -/
def block (ts : List Token) : Except Stop (Reading ts (List Stmt)) := do
  let opening ← expect .lbrace ts
  opening.next fun us _ => blockRest us
termination_by (ts.length, 0)

/-- The statements of a block and the brace that closes it. -/
def blockRest (ts : List Token) : Except Stop (Reading ts (List Stmt)) :=
  match accept .rbrace ts with
  | some closing => .ok (closing.give [])
  | none =>
    if ahead ts = .eof then .error ⟨.expected .rbrace, ts⟩
    else do
      let first ← stmt ts
      let others ← first.next fun us _ => blockRest us
      return others.give (first.value :: others.value)
termination_by (ts.length, 2)
end

end Quill.Grammar
