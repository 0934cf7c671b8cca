import Quill.Grammar.Programs
import Quill.Proofs.Parsing.Equations.Expressions

/-!
# The readers of statements, declarations and programs, as functions of the tokens

One equation a reader, as for types and expressions. Imports and declarations are read up to where
they end, and this may be at once, so their readers are such functions as they stand.
-/

set_option autoImplicit false

namespace Quill.Grammar

open Reading (outcome)

/-! ## Statements -/

/-- A declaration of a variable, with a value or without one. -/
theorem finds_letDecl : finds letDecl = (do
    let _ ← token .kwLet
    let binding ← finds binder
    ifToken .assign
      (do
        let value ← finds expr
        let _ ← token .semicolon
        return ⟨binding.name, binding.type, some value⟩)
      (do
        let _ ← token .semicolon
        return ⟨binding.name, binding.type, none⟩)) := by
  funext ts
  show outcome (letDecl ts) = _
  rw [letDecl]
  refine finds_bind rfl fun keyword us h => ?_
  refine finds_next fun binding us h => ?_
  refine finds_following (by decide) (fun sign vs h => ?_) ?_
  · refine finds_next fun value us h => ?_
    exact finds_next fun _ _ _ => rfl
  · exact finds_next fun _ _ _ => rfl

/-- A condition is an expression in parentheses. -/
theorem finds_condition : finds condition = (do
    let _ ← token .lparen
    let value ← finds expr
    let _ ← token .rparen
    return value) := by
  funext ts
  show outcome (condition ts) = _
  rw [condition]
  refine finds_bind rfl fun opening us h => ?_
  refine finds_next fun value us h => ?_
  exact finds_next fun _ _ _ => rfl

/-- A return statement, with a value or without one. -/
theorem finds_returnStmt : finds returnStmt = (do
    let _ ← token .kwReturn
    ifToken .semicolon (return .ret none)
      (do
        let value ← finds expr
        let _ ← token .semicolon
        return .ret (some value))) := by
  funext ts
  show outcome (returnStmt ts) = _
  rw [returnStmt]
  refine finds_bind rfl fun keyword us h => ?_
  refine finds_following (by decide) (fun closing vs h => rfl) ?_
  refine finds_next fun value us h => ?_
  exact finds_next fun _ _ _ => rfl

/-- An expression with a semicolon is a statement. -/
theorem finds_exprStmt : finds exprStmt = (do
    let value ← finds expr
    let _ ← token .semicolon
    return .expr value) := by
  funext ts
  show outcome (exprStmt ts) = _
  rw [exprStmt]
  refine finds_bind rfl fun value us h => ?_
  exact finds_next fun _ _ _ => rfl

/-- A statement by the kind of its first token. -/
theorem finds_stmt : finds stmt = byAhead fun
    | .kwLet => do
      let decl ← finds letDecl
      return .letDecl decl
    | .kwIf => finds conditional
    | .kwWhile => finds loop
    | .kwReturn => finds returnStmt
    | .lbrace => do
      let body ← finds block
      return .block body
    | _ => finds exprStmt := by
  funext ts
  show outcome (stmt ts) = _
  rw [stmt, byAhead]
  generalize ahead ts = kind
  cases kind with
  | kwLet => exact finds_bind rfl fun _ _ _ => rfl
  | lbrace => exact finds_bind rfl fun _ _ _ => rfl
  | _ => rfl

/-- A conditional takes an `else` that is ahead, so that the nearest one has it. -/
theorem finds_conditional : finds conditional = (do
    let _ ← token .kwIf
    let test ← finds condition
    let body ← finds stmt
    ifToken .kwElse
      (do
        let alternative ← finds stmt
        return .ifElse test body alternative)
      (return .ifThen test body)) := by
  funext ts
  show outcome (conditional ts) = _
  rw [conditional]
  refine finds_bind rfl fun keyword us h => ?_
  refine finds_next fun test us h => ?_
  refine finds_next fun body us h => ?_
  refine finds_following (by decide) (fun other vs h => ?_) rfl
  exact finds_next fun _ _ _ => rfl

/-- A loop is a condition and a body. -/
theorem finds_loop : finds loop = (do
    let _ ← token .kwWhile
    let test ← finds condition
    let body ← finds stmt
    return .whileDo test body) := by
  funext ts
  show outcome (loop ts) = _
  rw [loop]
  refine finds_bind rfl fun keyword us h => ?_
  refine finds_next fun test us h => ?_
  exact finds_next fun _ _ _ => rfl

/-- A block is an opening brace and the rest of the block. -/
theorem finds_block : finds block = (do
    let _ ← token .lbrace
    finds blockRest) := by
  funext ts
  show outcome (block ts) = _
  rw [block]
  exact finds_bind rfl fun opening us h => Reading.outcome_next _

/-- The rest of a block is its closing brace, or a statement and the rest after it. At the end of
the input the brace is missed. -/
theorem finds_blockRest : finds blockRest = ifToken .rbrace (return []) (byAhead fun kind =>
    if kind = .eof then halt (.expected .rbrace)
    else do
      let first ← finds stmt
      let others ← finds blockRest
      return first :: others) := by
  funext ts
  show outcome (blockRest ts) = _
  rw [blockRest]
  refine finds_accept (by decide) (fun closing us h => rfl) ?_
  rw [byAhead]
  split
  · rfl
  · refine finds_bind rfl fun first us h => ?_
    exact finds_next fun _ _ _ => rfl

/-! ## Declarations -/

/-- The header of a module is its qualified name. -/
theorem finds_moduleHeader : finds moduleHeader = (do
    let _ ← token .kwModule
    let name ← finds qualifiedName
    let _ ← token .semicolon
    return name) := by
  funext ts
  show outcome (moduleHeader ts) = _
  rw [moduleHeader]
  refine finds_bind rfl fun keyword us h => ?_
  refine finds_next fun name us h => ?_
  exact finds_next fun _ _ _ => rfl

/-- An import, with a local name or without one. -/
theorem finds_importDecl : finds importDecl = (do
    let _ ← token .kwImport
    let path ← finds qualifiedName
    ifToken .kwAs
      (do
        let localName ← finds name
        let _ ← token .semicolon
        return ⟨path, some localName⟩)
      (do
        let _ ← token .semicolon
        return ⟨path, none⟩)) := by
  funext ts
  show outcome (importDecl ts) = _
  rw [importDecl]
  refine finds_bind rfl fun keyword us h => ?_
  refine finds_next fun path us h => ?_
  refine finds_following (by decide) (fun sign vs h => ?_) ?_
  · refine finds_next fun localName us h => ?_
    exact finds_next fun _ _ _ => rfl
  · exact finds_next fun _ _ _ => rfl

/-- A type alias is a name, an equals sign and a type. -/
theorem finds_typeAlias : finds typeAlias = (do
    let _ ← token .kwType
    let name ← finds name
    let _ ← token .assign
    let type ← finds typeExpr
    let _ ← token .semicolon
    return .typeAlias name type) := by
  funext ts
  show outcome (typeAlias ts) = _
  rw [typeAlias]
  refine finds_bind rfl fun keyword us h => ?_
  refine finds_next fun name us h => ?_
  refine finds_next fun sign us h => ?_
  refine finds_next fun type us h => ?_
  exact finds_next fun _ _ _ => rfl

/-- A struct is a name with a list of fields. -/
theorem finds_structDecl : finds structDecl = (do
    let _ ← token .kwStruct
    let name ← finds name
    let _ ← token .lbrace
    let fields ← findsList .rbrace binder
    let _ ← token .semicolon
    return .struct name fields) := by
  funext ts
  show outcome (structDecl ts) = _
  rw [structDecl]
  refine finds_bind rfl fun keyword us h => ?_
  refine finds_next fun name us h => ?_
  refine finds_next fun opening us h => ?_
  refine finds_bind (Reading.outcome_next _) fun fields us h => ?_
  exact finds_next fun _ _ _ => rfl

/-- A constant is a name with its type, and a value. -/
theorem finds_constDecl : finds constDecl = (do
    let _ ← token .kwConst
    let binding ← finds binder
    let _ ← token .assign
    let value ← finds expr
    let _ ← token .semicolon
    return .const binding.name binding.type value) := by
  funext ts
  show outcome (constDecl ts) = _
  rw [constDecl]
  refine finds_bind rfl fun keyword us h => ?_
  refine finds_next fun binding us h => ?_
  refine finds_next fun sign us h => ?_
  refine finds_next fun value us h => ?_
  exact finds_next fun _ _ _ => rfl

/-- A function is a name, a list of parameters, a result type if there is an arrow, and a block. -/
theorem finds_fnDecl : finds fnDecl = (do
    let _ ← token .kwFn
    let name ← finds name
    let _ ← token .lparen
    let params ← findsList .rparen binder
    ifToken .arrow
      (do
        let result ← finds typeExpr
        let body ← finds block
        return .fn name params (some result) body)
      (do
        let body ← finds block
        return .fn name params none body)) := by
  funext ts
  show outcome (fnDecl ts) = _
  rw [fnDecl]
  refine finds_bind rfl fun keyword us h => ?_
  refine finds_next fun name us h => ?_
  refine finds_next fun opening us h => ?_
  refine finds_bind (Reading.outcome_next _) fun params us h => ?_
  refine finds_following (by decide) (fun arrow vs h => ?_) ?_
  · refine finds_next fun result us h => ?_
    exact finds_next fun _ _ _ => rfl
  · exact finds_next fun _ _ _ => rfl

/-- An item by the kind of its first token. -/
theorem finds_item : finds item = byAhead fun
    | .kwType => finds typeAlias
    | .kwStruct => finds structDecl
    | .kwConst => finds constDecl
    | .kwFn => finds fnDecl
    | .kwLet => do
      let decl ← finds letDecl
      return .letDecl decl
    | _ => halt .noDeclaration := by
  funext ts
  show outcome (item ts) = _
  rw [item, byAhead]
  generalize ahead ts = kind
  cases kind with
  | kwLet => exact finds_bind rfl fun _ _ _ => rfl
  | _ => rfl

/-! ## Programs -/

/-- What is read after a reading starts from the tokens it leaves. -/
theorem reading_bind {α β : Type} {ts : List Token} {found : Except Stop (Reading ts α)}
    {second : Reading ts α → Except Stop β} {next : α × List Token → Except Stop β}
    (h : ∀ reading, second reading = next (reading.value, reading.rest)) :
    (found >>= second) = (outcome found >>= next) := by
  cases found with
  | ok reading => exact h reading
  | error stop => rfl

/-- Imports are read as long as an `import` is ahead. -/
theorem imports_eq : (imports : Finds (List Import)) = byAhead fun kind =>
    if kind = .kwImport then do
      let first ← finds importDecl
      let others ← imports
      return first :: others
    else return [] := by
  funext ts
  rw [imports, byAhead]
  split
  · exact reading_bind fun _ => rfl
  · rfl

/-- Items are read until the end of the input is ahead. -/
theorem items_eq : (items : Finds (List Item)) = byAhead fun kind =>
    if kind = .eof then return []
    else do
      let first ← finds item
      let others ← items
      return first :: others := by
  funext ts
  rw [items, byAhead]
  split
  · rfl
  · exact reading_bind fun _ => rfl

/-- A program up to the end of the input. -/
def findsProgram : Finds Program := do
  let moduleName ← finds moduleHeader
  let imports ← (imports : Finds (List Import))
  let items ← (items : Finds (List Item))
  return ⟨moduleName, imports, items⟩

/-- After a program stands one token at most, that at which the input ends. -/
def endOfInput : Program × List Token → Except Stop Program
  | (_, _ :: extra :: rest) => .error ⟨.trailing, extra :: rest⟩
  | (program, _) => .ok program

/-- A program is read by its parts, and then the end of the input has to be ahead. -/
theorem program_eq (ts : List Token) : program ts = (findsProgram ts >>= endOfInput) := by
  rw [program, findsProgram, bind_apply, bind_assoc]
  refine reading_bind fun name => ?_
  rw [bind_apply, bind_assoc]
  refine bind_congr fun ⟨imports, rest⟩ => ?_
  rw [bind_apply, bind_assoc]
  refine bind_congr fun ⟨items, rest⟩ => ?_
  match rest with
  | [] | [_] | _ :: _ :: _ => rfl

end Quill.Grammar
