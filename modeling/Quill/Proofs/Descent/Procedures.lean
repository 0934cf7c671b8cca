import Quill.Proofs.Parsing.Equations.Programs

/-!
# Recursive descent by index

The grammar's readers hand the tokens that are left from one to the next, each with a proof that
they have become fewer. Here the same readers are procedures that share one token list and an index
into it, and nothing is proved on the way: a procedure may look at the token at the index, move the
index on, call other procedures, and end. Past the last token it sees the end of the input, and
moving on does nothing.

Nothing bounds the depth to which procedures call one another, so a run is given a depth that it may
not exceed, and it gives nothing if that is too small. That some depth is always enough, and that
the index only grows, is shown in `Quill.Proofs.Descent.Indices`.

A loop is a procedure of its own. Each of its rounds is a call of the next one.
-/

set_option autoImplicit false

namespace Quill.Descent

open Grammar (exactly operatorOf)

/-! ## Procedures -/

/-- The procedures, each with the type of what it finds. -/
inductive Procedure : Type → Type
  | name : Procedure String
  | qualifiedName : Procedure QualifiedName
  /-- The names after the first one, each with a point before it. -/
  | moreNames : Procedure (List String)
  | typeExpr : Procedure TypeExpr
  | simpleType : Procedure TypeExpr
  /-- The array suffixes after a type. -/
  | arraySuffixes (type : TypeExpr) : Procedure TypeExpr
  | binder : Procedure Binder
  /-- The fields or parameters after the first one, each with a comma before it. -/
  | moreBinders : Procedure (List Binder)
  | params : Procedure (List Binder)
  | expr : Procedure Expr
  /-- An expression whose operators are of looseness below the level. -/
  | binary (level : Fin (BinaryOp.levels + 1)) : Procedure Expr
  /-- The operators of one level after their first operand. -/
  | chain (level : Fin BinaryOp.levels) (lhs : Expr) : Procedure Expr
  | unary : Procedure Expr
  | suffixed : Procedure Expr
  /-- The calls, subscripts and members after an expression. -/
  | suffixes (head : Expr) : Procedure Expr
  | callArgs : Procedure (List Expr)
  /-- The arguments after the first one, each with a comma before it. -/
  | moreArgs : Procedure (List Expr)
  | primary : Procedure Expr
  | letDecl : Procedure LetDecl
  | stmt : Procedure Stmt
  | conditional : Procedure Stmt
  | loop : Procedure Stmt
  | returnStmt : Procedure Stmt
  | block : Procedure (List Stmt)
  /-- The statements up to a closing brace or the end of the input. -/
  | stmts : Procedure (List Stmt)
  | moduleHeader : Procedure QualifiedName
  | importDecl : Procedure Import
  | typeAlias : Procedure Item
  | structDecl : Procedure Item
  | constDecl : Procedure Item
  | fnDecl : Procedure Item
  | item : Procedure Item
  /-- The imports, as many as follow one another. -/
  | imports : Procedure (List Import)
  /-- The declarations up to the end of the input. -/
  | items : Procedure (List Item)
  | program : Procedure Program

/-! ## Scripts -/

/-- What a procedure does in one call. -/
inductive Script (α : Type) : Type 1
  | done (value : α)
  | fail (cause : SyntaxCause)
  /-- Looks at the token at the index, if there is one. -/
  | look (next : Option Token → Script α)
  /-- Moves the index on, unless it is past the last token. -/
  | bump (next : Script α)
  | call {β : Type} (procedure : Procedure β) (next : β → Script α)

/-- The kind of the token at the index. -/
def kindOf (t : Option Token) : Kind :=
  t.elim .eof Token.kind

/-- The text of the token at the index. -/
def textOf (t : Option Token) : String :=
  t.elim "" Token.text

namespace Script

variable {α β : Type}

/-- Goes on by the kind of the token at the index. -/
def byKind (next : Kind → Script α) : Script α :=
  look fun t => next (kindOf t)

/-- Moves past the token at the index, which has to be of a kind. -/
def expect (kind : Kind) (next : String → Script α) : Script α :=
  look fun t => if kindOf t = kind then bump (next (textOf t)) else fail (.expected kind)

/-- Moves past the token at the index if its kind is chosen. -/
def choose (choice : Kind → Option β) (yes : β → Script α) (no : Script α) : Script α :=
  byKind fun kind =>
    match choice kind with
    | some chosen => bump (yes chosen)
    | none => no

/-- Moves past the token at the index if it is of a kind. -/
def ifNext (kind : Kind) (yes no : Script α) : Script α :=
  choose (exactly kind) (fun _ => yes) no

/-- One round of a loop over elements with a separator before each. -/
def further (separator : Kind) (element : Procedure α) (more : Procedure (List α)) :
    Script (List α) :=
  ifNext separator (call element fun next => call more fun others => done (next :: others))
    (done [])

/-- One round of a loop over elements that follow one another. -/
def each (starts : Kind → Bool) (element : Procedure α) (more : Procedure (List α)) :
    Script (List α) :=
  byKind fun kind =>
    if starts kind then call element fun first => call more fun others => done (first :: others)
    else done []

/-- A list, perhaps empty, up to its closing token. -/
def upTo (close : Kind) (element : Procedure β) (more : Procedure (List β))
    (next : List β → Script α) : Script α :=
  byKind fun kind =>
    if kind = close then next []
    else call element fun first => call more fun others => next (first :: others)

end Script

open Script

/-- Reads arguments after an expression, which has to be a plain name. -/
def Script.callOn : Expr → Script Expr
  | .var callee => call .callArgs fun args => call (.suffixes (.call callee args)) done
  | _ => fail .callTarget

/-- Passes the end of the input, after which no token may stand. -/
def Script.endsAfter (tree : Program) : Script Program :=
  expect .eof fun _ => look fun
    | some _ => fail .trailing
    | none => done tree

/-- The script of a procedure. -/
def Procedure.script {α : Type} : Procedure α → Script α
  | .name => expect .ident done
  | .qualifiedName =>
    call .name fun first => call .moreNames fun others => done ⟨first :: others⟩
  | .moreNames => further .dot .name .moreNames
  | .typeExpr => call .simpleType fun type => call (.arraySuffixes type) done
  | .simpleType => look fun t =>
    match kindOf t with
    | .kwInt | .kwBool | .kwString => bump (done (.named (textOf t)))
    | .ident => call .qualifiedName fun name => done (.named name.dotted)
    | .lparen => bump (call .typeExpr fun inner => expect .rparen fun _ => done inner)
    | _ => fail .noType
  | .arraySuffixes type =>
    ifNext .lbracket (expect .rbracket fun _ => call (.arraySuffixes (.array type)) done)
      (done type)
  | .binder =>
    call .name fun name => expect .colon fun _ => call .typeExpr fun type => done ⟨name, type⟩
  | .moreBinders => further .comma .binder .moreBinders
  | .params => upTo .rparen .binder .moreBinders done
  | .expr => call (.binary (Fin.last _)) fun target =>
    ifNext .assign (call .expr fun value => done (.assign target value)) (done target)
  | .binary level =>
    match level with
    | ⟨0, _⟩ => call .unary done
    | ⟨level + 1, h⟩ =>
      call (.binary ⟨level, Nat.lt_of_succ_lt h⟩) fun lhs =>
        call (.chain ⟨level, Nat.lt_of_succ_lt_succ h⟩ lhs) done
  | .chain level lhs =>
    choose (operatorOf level)
      (fun op => call (.binary level.castSucc) fun rhs =>
        call (.chain level (.binary op lhs rhs)) done)
      (done lhs)
  | .unary =>
    choose UnaryOp.ofKind? (fun op => call .unary fun operand => done (.unary op operand))
      (call .suffixed done)
  | .suffixed => call .primary fun head => call (.suffixes head) done
  | .suffixes head => byKind fun
    | .lparen => callOn head
    | .lbracket => bump (call .expr fun position =>
        expect .rbracket fun _ => call (.suffixes (.index head position)) done)
    | .dot => bump (call .name fun member => call (.suffixes (.member head member)) done)
    | _ => done head
  | .callArgs =>
    expect .lparen fun _ => upTo .rparen .expr .moreArgs fun args =>
      expect .rparen fun _ => done args
  | .moreArgs => further .comma .expr .moreArgs
  | .primary => look fun t =>
    match kindOf t with
    | .ident => bump (done (.var (textOf t)))
    | .number => bump (done (.number (textOf t)))
    | .string => bump (done (.string (textOf t)))
    | .kwTrue => bump (done (.bool true))
    | .kwFalse => bump (done (.bool false))
    | .lparen => bump (call .expr fun inner => expect .rparen fun _ => done (.paren inner))
    | _ => fail .noExpression
  | .letDecl =>
    expect .kwLet fun _ => call .binder fun binding =>
      ifNext .assign
        (call .expr fun value =>
          expect .semicolon fun _ => done ⟨binding.name, binding.type, some value⟩)
        (expect .semicolon fun _ => done ⟨binding.name, binding.type, none⟩)
  | .stmt => byKind fun
    | .kwLet => call .letDecl fun decl => done (.letDecl decl)
    | .kwIf => call .conditional done
    | .kwWhile => call .loop done
    | .kwReturn => call .returnStmt done
    | .lbrace => call .block fun body => done (.block body)
    | _ => call .expr fun value => expect .semicolon fun _ => done (.expr value)
  | .conditional =>
    expect .kwIf fun _ => expect .lparen fun _ => call .expr fun test => expect .rparen fun _ =>
      call .stmt fun body =>
        ifNext .kwElse (call .stmt fun alternative => done (.ifElse test body alternative))
          (done (.ifThen test body))
  | .loop =>
    expect .kwWhile fun _ => expect .lparen fun _ => call .expr fun test => expect .rparen fun _ =>
      call .stmt fun body => done (.whileDo test body)
  | .returnStmt => expect .kwReturn fun _ =>
    byKind fun kind =>
      if kind = .semicolon then expect .semicolon fun _ => done (.ret none)
      else call .expr fun value => expect .semicolon fun _ => done (.ret (some value))
  | .block =>
    expect .lbrace fun _ => call .stmts fun body => expect .rbrace fun _ => done body
  | .stmts => each (fun kind => !(kind == .rbrace || kind == .eof)) .stmt .stmts
  | .moduleHeader =>
    expect .kwModule fun _ => call .qualifiedName fun name => expect .semicolon fun _ => done name
  | .importDecl =>
    expect .kwImport fun _ => call .qualifiedName fun path =>
      ifNext .kwAs
        (call .name fun localName => expect .semicolon fun _ => done ⟨path, some localName⟩)
        (expect .semicolon fun _ => done ⟨path, none⟩)
  | .typeAlias =>
    expect .kwType fun _ => call .name fun name => expect .assign fun _ =>
      call .typeExpr fun type => expect .semicolon fun _ => done (.typeAlias name type)
  | .structDecl =>
    expect .kwStruct fun _ => call .name fun name => expect .lbrace fun _ =>
      upTo .rbrace .binder .moreBinders fun fields =>
        expect .rbrace fun _ => expect .semicolon fun _ => done (.struct name fields)
  | .constDecl =>
    expect .kwConst fun _ => call .binder fun binding => expect .assign fun _ =>
      call .expr fun value => expect .semicolon fun _ =>
        done (.const binding.name binding.type value)
  | .fnDecl =>
    expect .kwFn fun _ => call .name fun name => expect .lparen fun _ =>
      call .params fun params => expect .rparen fun _ =>
        ifNext .arrow
          (call .typeExpr fun result =>
            call .block fun body => done (.fn name params (some result) body))
          (call .block fun body => done (.fn name params none body))
  | .item => byKind fun
    | .kwType => call .typeAlias done
    | .kwStruct => call .structDecl done
    | .kwConst => call .constDecl done
    | .kwFn => call .fnDecl done
    | .kwLet => call .letDecl fun decl => done (.letDecl decl)
    | _ => fail .noDeclaration
  | .imports => each (fun kind => kind == .kwImport) .importDecl .imports
  | .items => each (fun kind => !(kind == .eof)) .item .items
  | .program =>
    call .moduleHeader fun moduleName => call .imports fun imports => call .items fun items =>
      endsAfter ⟨moduleName, imports, items⟩

/-! ## Runs -/

/-- How a call ends: what it finds or why it fails, and the index where it does. -/
abbrev Ending (α : Type) := Except SyntaxCause α × Nat

/-- A procedure and the index at which it is called. -/
structure Call where
  {Found : Type}
  procedure : Procedure Found
  index : Nat

section

variable (ts : List Token) (callee : {β : Type} → Procedure β → Nat → Option (Ending β))

/-- Does what a script says, from an index on. -/
def Script.exec {α : Type} : Script α → Nat → Option (Ending α)
  | done value, i => some (.ok value, i)
  | fail cause, i => some (.error cause, i)
  | look next, i => (next ts[i]?).exec i
  | bump next, i => next.exec (if i < ts.length then i + 1 else i)
  | call procedure next, i =>
    match callee procedure i with
    | some (.ok value, j) => (next value).exec j
    | some (.error cause, j) => some (.error cause, j)
    | none => none

/-- The calls that a script makes from an index on, without the calls in them. -/
def Script.calls {α : Type} : Script α → Nat → List Call
  | done _, _ => []
  | fail _, _ => []
  | look next, i => (next ts[i]?).calls i
  | bump next, i => next.calls (if i < ts.length then i + 1 else i)
  | call procedure next, i =>
    ⟨procedure, i⟩ ::
      match callee procedure i with
      | some (.ok value, j) => (next value).calls j
      | _ => []

end

/-- A call of a procedure at an index. Calls in calls may go as deep as the given depth. -/
def Procedure.run (ts : List Token) : (depth : Nat) → {α : Type} → Procedure α → Nat →
    Option (Ending α)
  | 0, _, _, _ => none
  | depth + 1, _, procedure, i => procedure.script.exec ts (run ts depth) i

end Quill.Descent
