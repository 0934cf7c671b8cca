import Quill.Grammar.Reading
import Quill.Syntax.Expr

/-!
# Reading expressions

```
Expr      := Binary(6) ('=' Expr)?
Binary(0) := Unary
Binary(n+1) := Binary(n) (op Binary(n))*       op of looseness n
Unary     := ('!' | '-') Unary | Suffixed
Suffixed  := Primary ('(' (Expr (',' Expr)*)? ')' | '[' Expr ']' | '.' ID)*
Primary   := ID | NUM | STRING_LIT | TRUE | FALSE | '(' Expr ')'
```

Assignment groups to the right, binary operators of one level to the left. Arguments may follow
a plain name only; this is decided by the tree read so far, before the arguments are looked at.

Each step either uses a token before it reads an expression again or goes one rule down in the
list above, so the pair of the number of tokens left and the place of the rule decreases.
-/

set_option autoImplicit false

namespace Quill.Grammar

/-- The next token as a binary operator of one level, if it is one. -/
def binaryOp (level : Nat) : (ts : List Token) → Option (Reading ts BinaryOp)
  | [] => none
  | t :: ts =>
    match BinaryOp.ofKind? t.kind with
    | some op => if op.looseness = level then some ((Reading.head t ts).give op) else none
    | none => none

/-- The next token as a unary operator, if it is one. -/
def unaryOp : (ts : List Token) → Option (Reading ts UnaryOp)
  | [] => none
  | t :: ts =>
    match UnaryOp.ofKind? t.kind with
    | some op => some ((Reading.head t ts).give op)
    | none => none

mutual
/-- An expression. -/
def expr (ts : List Token) : Except Stop (Reading ts Expr) := do
  let target ← binary BinaryOp.levels ts
  match target.accept .assign with
  | some sign =>
    let value ← sign.next fun us _ => expr us
    return value.give (.assign target.value value.value)
  | none => return target
termination_by (ts.length, BinaryOp.levels + 4)

/-- An expression built from operands by binary operators of looseness below `level`. -/
def binary (level : Nat) (ts : List Token) : Except Stop (Reading ts Expr) :=
  match level with
  | 0 => unary ts
  | level + 1 => do
    let lhs ← binary level ts
    chain level lhs
termination_by (ts.length, level + 3)
decreasing_by
  · exact Prod.Lex.right _ (by omega)
  · exact Prod.Lex.right _ (by omega)
  · exact Prod.Lex.left _ _ lhs.shorter

/-- The operators of one level with their right operands, after a left operand. -/
def chain {ts : List Token} (level : Nat) (lhs : Reading ts Expr) :
    Except Stop (Reading ts Expr) :=
  match binaryOp level lhs.rest with
  | some op => do
    let rhs ← op.next fun us _ => binary level us
    chain level ((lhs.extend rhs).give (.binary op.value lhs.value rhs.value))
  | none => .ok lhs
termination_by (lhs.rest.length, 0)
decreasing_by
  · exact Prod.Lex.left _ _ (by assumption)
  · exact Prod.Lex.left _ _ rhs.shorter

/-- An operand of a binary operator: unary operators, then an expression with suffixes. -/
def unary (ts : List Token) : Except Stop (Reading ts Expr) :=
  match unaryOp ts with
  | some op => do
    let operand ← op.next fun us _ => unary us
    return operand.give (.unary op.value operand.value)
  | none => suffixed ts
termination_by (ts.length, 2)

/-- A primary expression with its calls, subscripts and member accesses. -/
def suffixed (ts : List Token) : Except Stop (Reading ts Expr) := do
  let head ← primary ts
  suffixes head
termination_by (ts.length, 1)
decreasing_by
  · exact Prod.Lex.right _ (by omega)
  · exact Prod.Lex.left _ _ head.shorter

/-- The calls, subscripts and member accesses after an expression. -/
def suffixes {ts : List Token} (head : Reading ts Expr) : Except Stop (Reading ts Expr) :=
  match ahead head.rest with
  | .lparen =>
    match head.value with
    | .var callee => do
      let opening ← expect .lparen head.rest
      let args ← opening.next fun us _ => closedList .rparen us fun vs _ => expr vs
      suffixes ((head.extend args).give (.call callee args.value))
    | _ => .error ⟨.callTarget, head.rest⟩
  | .lbracket => do
    let opening ← expect .lbracket head.rest
    let position ← opening.next fun us _ => expr us
    let closing ← position.expect .rbracket
    suffixes ((head.extend closing).give (.index head.value position.value))
  | .dot => do
    let dot ← expect .dot head.rest
    let member ← dot.next fun us _ => name us
    suffixes ((head.extend member).give (.member head.value member.value))
  | _ => .ok head
termination_by (head.rest.length, 0)
decreasing_by
  · exact Prod.Lex.left _ _ (by omega)
  · exact Prod.Lex.left _ _ args.shorter
  · exact Prod.Lex.left _ _ (by assumption)
  · exact Prod.Lex.left _ _ closing.shorter
  · exact Prod.Lex.left _ _ member.shorter

/-- A name, a literal, or an expression in parentheses. -/
def primary (ts : List Token) : Except Stop (Reading ts Expr) :=
  match ts with
  | [] => .error ⟨.noExpression, []⟩
  | t :: us =>
    match t.kind with
    | .ident => .ok ((Reading.head t us).give (.var t.text))
    | .number => .ok ((Reading.head t us).give (.number t.text))
    | .string => .ok ((Reading.head t us).give (.string t.text))
    | .kwTrue => .ok ((Reading.head t us).give (.bool true))
    | .kwFalse => .ok ((Reading.head t us).give (.bool false))
    | .lparen => do
      let inner ← (Reading.head t us).next fun vs _ => expr vs
      let closing ← inner.expect .rparen
      return closing.give (.paren inner.value)
    | _ => .error ⟨.noExpression, t :: us⟩
termination_by (ts.length, 0)
end

end Quill.Grammar
