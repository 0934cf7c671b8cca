import Quill.Syntax.Program
import Quill.Token.Basic

/-!
# The grammar, declared

Which token lists each rule of the grammar has, and which tree goes with each of them, said
without a reader. A rule speaks of the kinds of tokens alone; their texts go into the tree and
their positions are of no interest. The end-of-input token is part of no rule.

```
Program   := 'module' Segments ';' Import* Item*
Import    := 'import' Segments ('as' ID)? ';'
Item      := 'type' ID '=' Type ';'
           | 'struct' ID '{' (Binder (',' Binder)*)? '}' ';'
           | 'const' Binder '=' Expr ';'
           | 'fn' ID '(' (Binder (',' Binder)*)? ')' ('->' Type)? Block
           | Let
Segments  := ID ('.' ID)*
Binder    := ID ':' Type
Type      := Simple | Type '[' ']'
Simple    := INT | BOOL | STRING | Segments | '(' Type ')'
Let       := 'let' Binder ('=' Expr)? ';'
Stmt      := Let | Block | 'if' Condition Stmt ('else' Stmt)? | 'while' Condition Stmt
           | 'return' Expr? ';' | Expr ';'
Condition := '(' Expr ')'
Block     := '{' Stmt* '}'
Expr      := Level 0
Level 0   := Level 1 ('=' Level 0)?
Level n   := Level (n+1) | Level n op Level (n+1)        op of level n, n = 1 .. 6
Level 7   := Level 8 | ('!' | '-') Level 7
Level 8   := Level 9 | Level 8 '(' (Expr (',' Expr)*)? ')' | Level 8 '[' Expr ']' | Level 8 '.' ID
Level 9   := ID | NUM | STRING_LIT | TRUE | FALSE | '(' Expr ')'
```

Two conditions are not part of these rules: arguments follow a plain name only, and the body of a
conditional with an alternative does not end in a conditional that could take the `else`.
-/

set_option autoImplicit false

namespace Quill

/-- The level of the rule that applies an operator: 1 for `||` up to 6 for `*`, `/` and `%`. -/
def BinaryOp.level (op : BinaryOp) : Nat :=
  BinaryOp.levels - op.looseness

theorem BinaryOp.level_add_looseness (op : BinaryOp) : op.level + op.looseness = 6 := by
  cases op <;> rfl

/-- Operators of one looseness are of one level. -/
theorem BinaryOp.level_eq_of_looseness_eq {op other : BinaryOp}
    (h : op.looseness = other.looseness) : op.level = other.level := by
  have hop := op.level_add_looseness
  have hother := other.level_add_looseness
  omega

theorem BinaryOp.level_pos (op : BinaryOp) : 0 < op.level := by
  cases op <;> decide

theorem BinaryOp.level_le (op : BinaryOp) : op.level ≤ 6 := by
  cases op <;> decide

/-- Whether a statement ends in a conditional without an alternative, which an `else` directly
after the statement would belong to. -/
def Stmt.endsOpen : Stmt → Bool
  | .ifThen _ _ => true
  | .ifElse _ _ alternative => alternative.endsOpen
  | .whileDo _ body => body.endsOpen
  | _ => false

namespace Grammar

/-! ## Names and types -/

/-- Names with dots between them. -/
inductive DerivesSegments : List Token → List String → Prop
  | one {name : Token} : name.kind = .ident → DerivesSegments [name] [name.text]
  | more {name dot : Token} {us : List Token} {others : List String} : name.kind = .ident →
      dot.kind = .dot → DerivesSegments us others →
      DerivesSegments (name :: dot :: us) (name.text :: others)

/-- The two rules for types. -/
inductive TypeRule where
  | type | simple

/-- Types. Parentheses leave no trace in the tree, and a dotted name is one string. -/
inductive DerivesType : TypeRule → List Token → TypeExpr → Prop
  | simple {us : List Token} {type : TypeExpr} : DerivesType .simple us type →
      DerivesType .type us type
  | array {us : List Token} {opening closing : Token} {element : TypeExpr} :
      DerivesType .type us element → opening.kind = .lbracket → closing.kind = .rbracket →
      DerivesType .type (us ++ [opening, closing]) (.array element)
  | builtIn {name : Token} : name.kind = .kwInt ∨ name.kind = .kwBool ∨ name.kind = .kwString →
      DerivesType .simple [name] (.named name.text)
  | segments {us : List Token} {names : List String} : DerivesSegments us names →
      DerivesType .simple us (.named (QualifiedName.dotted ⟨names⟩))
  | group {us : List Token} {opening closing : Token} {type : TypeExpr} :
      opening.kind = .lparen → DerivesType .type us type → closing.kind = .rparen →
      DerivesType .simple (opening :: (us ++ [closing])) type

/-- A name with its type. -/
inductive DerivesBinder : List Token → Binder → Prop
  | intro {name colon : Token} {us : List Token} {type : TypeExpr} : name.kind = .ident →
      colon.kind = .colon → DerivesType .type us type →
      DerivesBinder (name :: colon :: us) ⟨name.text, type⟩

/-! ## Expressions -/

/-- Parts with commas between them, perhaps none. Each part is a token list with what it stands
for. -/
inductive CommaJoined {α : Type} : List (List Token × α) → List Token → Prop
  | none : CommaJoined [] []
  | one {part : List Token × α} : CommaJoined [part] part.1
  | more {part next : List Token × α} {parts : List (List Token × α)} {comma : Token}
      {us : List Token} : comma.kind = .comma → CommaJoined (next :: parts) us →
      CommaJoined (part :: next :: parts) (part.1 ++ comma :: us)

/-- Expressions, by the level of the rule. -/
inductive DerivesExpr : Nat → List Token → Expr → Prop
  | lift {level : Nat} {us : List Token} {expr : Expr} : DerivesExpr (level + 1) us expr →
      DerivesExpr level us expr
  | assign {us vs : List Token} {sign : Token} {target value : Expr} : DerivesExpr 1 us target →
      sign.kind = .assign → DerivesExpr 0 vs value →
      DerivesExpr 0 (us ++ sign :: vs) (.assign target value)
  | binary {us vs : List Token} {sign : Token} {op : BinaryOp} {lhs rhs : Expr} :
      DerivesExpr op.level us lhs → BinaryOp.ofKind? sign.kind = some op →
      DerivesExpr (op.level + 1) vs rhs →
      DerivesExpr op.level (us ++ sign :: vs) (.binary op lhs rhs)
  | unary {us : List Token} {sign : Token} {op : UnaryOp} {operand : Expr} :
      UnaryOp.ofKind? sign.kind = some op → DerivesExpr 7 us operand →
      DerivesExpr 7 (sign :: us) (.unary op operand)
  | call {us inner : List Token} {opening closing : Token} {callee : String}
      {args : List (List Token × Expr)} : DerivesExpr 8 us (.var callee) →
      opening.kind = .lparen → CommaJoined args inner →
      (∀ arg ∈ args, DerivesExpr 0 arg.1 arg.2) → closing.kind = .rparen →
      DerivesExpr 8 (us ++ opening :: (inner ++ [closing])) (.call callee (args.map Prod.snd))
  | index {us vs : List Token} {opening closing : Token} {array position : Expr} :
      DerivesExpr 8 us array → opening.kind = .lbracket → DerivesExpr 0 vs position →
      closing.kind = .rbracket →
      DerivesExpr 8 (us ++ opening :: (vs ++ [closing])) (.index array position)
  | member {us : List Token} {dot name : Token} {object : Expr} : DerivesExpr 8 us object →
      dot.kind = .dot → name.kind = .ident →
      DerivesExpr 8 (us ++ [dot, name]) (.member object name.text)
  | var {name : Token} : name.kind = .ident → DerivesExpr 9 [name] (.var name.text)
  | number {literal : Token} : literal.kind = .number →
      DerivesExpr 9 [literal] (.number literal.text)
  | string {literal : Token} : literal.kind = .string →
      DerivesExpr 9 [literal] (.string literal.text)
  | kwTrue {literal : Token} : literal.kind = .kwTrue → DerivesExpr 9 [literal] (.bool true)
  | kwFalse {literal : Token} : literal.kind = .kwFalse → DerivesExpr 9 [literal] (.bool false)
  | paren {us : List Token} {opening closing : Token} {inner : Expr} : opening.kind = .lparen →
      DerivesExpr 0 us inner → closing.kind = .rparen →
      DerivesExpr 9 (opening :: (us ++ [closing])) (.paren inner)

/-- What is derived at a level is derived at every earlier one. -/
theorem DerivesExpr.lower {level below : Nat} {us : List Token} {expr : Expr}
    (h : DerivesExpr level us expr) (hle : below ≤ level) : DerivesExpr below us expr := by
  induction hle with
  | refl => exact h
  | step _ ih => exact ih h.lift

/-! ## Statements -/

/-- Declarations of variables. -/
inductive DerivesLet : List Token → LetDecl → Prop
  | bare {us : List Token} {keyword closing : Token} {binder : Binder} : keyword.kind = .kwLet →
      DerivesBinder us binder → closing.kind = .semicolon →
      DerivesLet (keyword :: (us ++ [closing])) ⟨binder.name, binder.type, none⟩
  | valued {us vs : List Token} {keyword sign closing : Token} {binder : Binder} {value : Expr} :
      keyword.kind = .kwLet → DerivesBinder us binder → sign.kind = .assign →
      DerivesExpr 0 vs value → closing.kind = .semicolon →
      DerivesLet (keyword :: (us ++ sign :: (vs ++ [closing])))
        ⟨binder.name, binder.type, some value⟩

/-- Expressions in parentheses that decide what is run. -/
inductive DerivesCondition : List Token → Expr → Prop
  | intro {us : List Token} {opening closing : Token} {value : Expr} : opening.kind = .lparen →
      DerivesExpr 0 us value → closing.kind = .rparen →
      DerivesCondition (opening :: (us ++ [closing])) value

/-- Statements. -/
inductive DerivesStmt : List Token → Stmt → Prop
  | letDecl {us : List Token} {decl : LetDecl} : DerivesLet us decl →
      DerivesStmt us (.letDecl decl)
  | expr {us : List Token} {closing : Token} {value : Expr} : DerivesExpr 0 us value →
      closing.kind = .semicolon → DerivesStmt (us ++ [closing]) (.expr value)
  | ifThen {us vs : List Token} {keyword : Token} {condition : Expr} {body : Stmt} :
      keyword.kind = .kwIf → DerivesCondition us condition → DerivesStmt vs body →
      DerivesStmt (keyword :: (us ++ vs)) (.ifThen condition body)
  | ifElse {us vs ws : List Token} {keyword other : Token} {condition : Expr}
      {body alternative : Stmt} : keyword.kind = .kwIf → DerivesCondition us condition →
      DerivesStmt vs body → body.endsOpen = false → other.kind = .kwElse →
      DerivesStmt ws alternative →
      DerivesStmt (keyword :: (us ++ (vs ++ other :: ws))) (.ifElse condition body alternative)
  | whileDo {us vs : List Token} {keyword : Token} {condition : Expr} {body : Stmt} :
      keyword.kind = .kwWhile → DerivesCondition us condition → DerivesStmt vs body →
      DerivesStmt (keyword :: (us ++ vs)) (.whileDo condition body)
  | leave {keyword closing : Token} : keyword.kind = .kwReturn → closing.kind = .semicolon →
      DerivesStmt [keyword, closing] (.ret none)
  | ret {us : List Token} {keyword closing : Token} {value : Expr} : keyword.kind = .kwReturn →
      DerivesExpr 0 us value → closing.kind = .semicolon →
      DerivesStmt (keyword :: (us ++ [closing])) (.ret (some value))
  | block {opening closing : Token} {body : List (List Token × Stmt)} : opening.kind = .lbrace →
      (∀ part ∈ body, DerivesStmt part.1 part.2) → closing.kind = .rbrace →
      DerivesStmt (opening :: (body.flatMap Prod.fst ++ [closing])) (.block (body.map Prod.snd))

/-! ## Programs -/

/-- Imports. -/
inductive DerivesImport : List Token → Import → Prop
  | bare {us : List Token} {keyword closing : Token} {segments : List String} :
      keyword.kind = .kwImport → DerivesSegments us segments → closing.kind = .semicolon →
      DerivesImport (keyword :: (us ++ [closing])) ⟨⟨segments⟩, none⟩
  | renamed {us : List Token} {keyword sign name closing : Token} {segments : List String} :
      keyword.kind = .kwImport → DerivesSegments us segments → sign.kind = .kwAs →
      name.kind = .ident → closing.kind = .semicolon →
      DerivesImport (keyword :: (us ++ [sign, name, closing])) ⟨⟨segments⟩, some name.text⟩

/-- Declarations at the top level. The block of a function is derived as a statement. -/
inductive DerivesItem : List Token → Item → Prop
  | typeAlias {us : List Token} {keyword name sign closing : Token} {type : TypeExpr} :
      keyword.kind = .kwType → name.kind = .ident → sign.kind = .assign →
      DerivesType .type us type → closing.kind = .semicolon →
      DerivesItem (keyword :: name :: sign :: (us ++ [closing])) (.typeAlias name.text type)
  | struct {inner : List Token} {keyword name opening last closing : Token}
      {fields : List (List Token × Binder)} : keyword.kind = .kwStruct → name.kind = .ident →
      opening.kind = .lbrace → CommaJoined fields inner →
      (∀ field ∈ fields, DerivesBinder field.1 field.2) → last.kind = .rbrace →
      closing.kind = .semicolon →
      DerivesItem (keyword :: name :: opening :: (inner ++ [last, closing]))
        (.struct name.text (fields.map Prod.snd))
  | const {us vs : List Token} {keyword sign closing : Token} {binder : Binder} {value : Expr} :
      keyword.kind = .kwConst → DerivesBinder us binder → sign.kind = .assign →
      DerivesExpr 0 vs value → closing.kind = .semicolon →
      DerivesItem (keyword :: (us ++ sign :: (vs ++ [closing])))
        (.const binder.name binder.type value)
  | procedure {inner block : List Token} {keyword name opening last : Token}
      {params : List (List Token × Binder)} {body : List Stmt} : keyword.kind = .kwFn →
      name.kind = .ident → opening.kind = .lparen → CommaJoined params inner →
      (∀ param ∈ params, DerivesBinder param.1 param.2) → last.kind = .rparen →
      DerivesStmt block (.block body) →
      DerivesItem (keyword :: name :: opening :: (inner ++ last :: block))
        (.fn name.text (params.map Prod.snd) none body)
  | function {inner us block : List Token} {keyword name opening last arrow : Token}
      {params : List (List Token × Binder)} {result : TypeExpr} {body : List Stmt} :
      keyword.kind = .kwFn → name.kind = .ident → opening.kind = .lparen →
      CommaJoined params inner → (∀ param ∈ params, DerivesBinder param.1 param.2) →
      last.kind = .rparen → arrow.kind = .arrow → DerivesType .type us result →
      DerivesStmt block (.block body) →
      DerivesItem (keyword :: name :: opening :: (inner ++ last :: arrow :: (us ++ block)))
        (.fn name.text (params.map Prod.snd) (some result) body)
  | letDecl {us : List Token} {decl : LetDecl} : DerivesLet us decl →
      DerivesItem us (.letDecl decl)

/-- Programs. -/
inductive DerivesProgram : List Token → Program → Prop
  | intro {us : List Token} {keyword closing : Token} {segments : List String}
      {imports : List (List Token × Import)} {items : List (List Token × Item)} :
      keyword.kind = .kwModule → DerivesSegments us segments → closing.kind = .semicolon →
      (∀ decl ∈ imports, DerivesImport decl.1 decl.2) →
      (∀ item ∈ items, DerivesItem item.1 item.2) →
      DerivesProgram
        (keyword :: (us ++ closing :: (imports.flatMap Prod.fst ++ items.flatMap Prod.fst)))
        ⟨⟨segments⟩, imports.map Prod.snd, items.map Prod.snd⟩

end Grammar

end Quill
