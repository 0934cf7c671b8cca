import Quill.Grammar.Types
import Quill.Proofs.Parsing.Finds
import Quill.Proofs.Parsing.Levels

/-!
# The readers of types and expressions, as functions of the tokens

Each reader of the grammar does the steps that its rule says, in their order, and nothing else. One
equation a reader says so for what it finds. The loops after a type and after an expression are
taken from any list that the value so far was read from.
-/

set_option autoImplicit false

namespace Quill.Grammar

open Reading (outcome)

/-! ## Names and types -/

/-- A name is the text of an identifier. -/
theorem finds_name : finds name = (do
    let found ← token .ident
    return found.text) := by
  funext ts
  show outcome (name ts) = _
  rw [name]
  exact finds_bind rfl fun _ _ _ => rfl

/-- Segments are a name, and more of them after a point. -/
theorem finds_segments : finds segments = (do
    let first ← finds name
    ifToken .dot
      (do
        let others ← finds segments
        return first :: others)
      (return [first])) := by
  funext ts
  show outcome (segments ts) = _
  rw [segments]
  refine finds_bind rfl fun first us h => ?_
  refine finds_following (by decide) (fun dot vs h => ?_) rfl
  exact finds_next fun _ _ _ => rfl

/-- A qualified name is made of its segments. -/
theorem finds_qualifiedName : finds qualifiedName = (do
    let parts ← finds segments
    return ⟨parts⟩) := by
  funext ts
  show outcome (qualifiedName ts) = _
  rw [qualifiedName]
  exact finds_bind rfl fun _ _ _ => rfl

/-- The type that a keyword names. -/
theorem finds_builtIn (kind : Kind) : finds (builtIn kind) = (do
    let found ← token kind
    return .named found.text) := by
  funext ts
  show outcome (builtIn kind ts) = _
  rw [builtIn]
  exact finds_bind rfl fun _ _ _ => rfl

/-- A type without array suffixes, by the kind of its first token. -/
theorem finds_simpleType : finds simpleType = byAhead fun
    | .kwInt => finds (builtIn .kwInt)
    | .kwBool => finds (builtIn .kwBool)
    | .kwString => finds (builtIn .kwString)
    | .ident => do
      let name ← finds qualifiedName
      return .named name.dotted
    | .lparen => do
      let _ ← token .lparen
      let type ← finds typeExpr
      let _ ← token .rparen
      return type
    | _ => halt .noType := by
  funext ts
  show outcome (simpleType ts) = _
  rw [simpleType, byAhead]
  generalize ahead ts = kind
  cases kind with
  | ident => exact finds_bind rfl fun _ _ _ => rfl
  | lparen =>
    refine finds_bind rfl fun opening us h => ?_
    refine finds_next fun type us h => ?_
    exact finds_next fun _ _ _ => rfl
  | _ => rfl

/-- The array suffixes after a type, read from any list. -/
theorem arraySuffixes_rounds :
    (∀ {ts : List Token} type rest h, outcome (arraySuffixes (⟨type, rest, h⟩ : Reading ts _)) =
      findsAfter arraySuffixes type rest) ∧
    ∀ type, findsAfter arraySuffixes type = ifToken .lbracket
      (do
        let _ ← token .rbracket
        findsAfter arraySuffixes (.array type))
      (return type) := by
  apply findsAfter_of_round
  intro type rest below ts h
  rw [arraySuffixes]
  rcases accept_cases .lbracket (by decide) rest with
    ⟨hnone, hahead⟩ | ⟨opening, us, rfl, hopening, hsome⟩
  · rw [ifToken_of_ne hahead]
    simp only [hnone]
    rfl
  · rw [ifToken_cons hopening]
    simp only [hsome]
    -- the two brackets are used, so that the next round has fewer tokens
    refine finds_next fun closing vs hless => ?_
    exact below _ _ _ hless

/-- A type is a simple type with array suffixes. -/
theorem finds_typeExpr : finds typeExpr = (do
    let type ← finds simpleType
    findsAfter arraySuffixes type) := by
  funext ts
  show outcome (typeExpr ts) = _
  rw [typeExpr]
  exact finds_bind rfl fun type rest h => arraySuffixes_rounds.1 type rest h

/-- A name with its type: a name, a colon, a type. -/
theorem finds_binder : finds binder = (do
    let name ← finds name
    let _ ← token .colon
    let type ← finds typeExpr
    return ⟨name, type⟩) := by
  funext ts
  show outcome (binder ts) = _
  rw [binder]
  refine finds_bind rfl fun name us h => ?_
  refine finds_next fun colon us h => ?_
  exact finds_next fun _ _ _ => rfl

/-! ## Lists -/

section

variable {α : Type} {close : Kind} {element : (ts : List Token) → Except Stop (Reading ts α)}

/-- One element or more with commas between them, then the closing token. -/
def findsMany (close : Kind) (element : (ts : List Token) → Except Stop (Reading ts α)) :
    Finds (List α) :=
  finds fun ts => commaList close ts fun us _ => element us

/-- Elements with commas between them, perhaps none, then the closing token. -/
def findsList (close : Kind) (element : (ts : List Token) → Except Stop (Reading ts α)) :
    Finds (List α) :=
  finds fun ts => closedList close ts fun us _ => element us

/-- One element or more: an element, and more after a comma or the closing mark. -/
theorem findsMany_eq : findsMany close element = (do
    let first ← finds element
    ifToken .comma
      (do
        let others ← findsMany close element
        return first :: others)
      (do
        let _ ← token close
        return [first])) := by
  funext ts
  show outcome (commaList close ts _) = _
  rw [commaList]
  refine finds_bind rfl fun first us h => ?_
  refine finds_following (by decide) (fun comma vs h => ?_) ?_
  · exact finds_bind (Reading.outcome_next _) fun _ _ _ => rfl
  · exact finds_next fun _ _ _ => rfl

/-- A list is its closing mark, or one element or more up to that mark. -/
theorem findsList_eq (hclose : close ≠ .eof) : findsList close element =
    ifToken close (return []) (findsMany close element) := by
  funext ts
  show outcome (closedList close ts _) = _
  rw [closedList]
  exact finds_accept hclose (fun _ _ _ => rfl) rfl

end

/-! ## Expressions -/

/-- The operator of a level that a kind of token stands for. -/
def operatorOf (level : Nat) (kind : Kind) : Option BinaryOp :=
  match BinaryOp.ofKind? kind with
  | some op => if op.looseness = level then some op else none
  | none => none

/-- An operator that is found at the looseness of another is one of the table, at the same level. -/
theorem ofKind?_of_operatorOf {kind : Kind} {op other : BinaryOp}
    (h : operatorOf op.looseness kind = some other) :
    BinaryOp.ofKind? kind = some other ∧ other.level = op.level := by
  rw [operatorOf] at h
  split at h
  · rename_i found hfound
    split at h
    · rename_i hlooseness
      obtain rfl := Option.some.inj h
      exact ⟨hfound, BinaryOp.level_eq_of_looseness_eq hlooseness⟩
    · simp at h
  · simp at h

/-- The reader of an operator of a level looks the kind up in the table. -/
theorem binaryOp_eq_map (level : Nat) (t : Token) (us : List Token) :
    binaryOp level (t :: us) =
      (operatorOf level t.kind).map fun op => ⟨op, us, Nat.lt_succ_self _⟩ := by
  rw [binaryOp, operatorOf]
  cases BinaryOp.ofKind? t.kind with
  | none => rfl
  | some op =>
    by_cases hlevel : op.looseness = level
    · simp only [if_pos hlevel, Option.map_some]
      rfl
    · simp only [if_neg hlevel, Option.map_none]

/-- The reader of a unary operator looks the kind up in the table. -/
theorem unaryOp_eq_map (t : Token) (us : List Token) :
    unaryOp (t :: us) =
      (UnaryOp.ofKind? t.kind).map fun op => ⟨op, us, Nat.lt_succ_self _⟩ := by
  rw [unaryOp]
  cases UnaryOp.ofKind? t.kind <;> rfl

/-- What a level adds after an expression. -/
def after (level : Nat) : Expr → Finds Expr :=
  findsAfter (goOn level)

/-- The loop over a chain, whatever list the left operand was read from: with an operator of the
level it goes on with a longer left operand, else that operand is the result. -/
theorem chain_rounds (level : Nat) :
    (∀ {ts : List Token} lhs rest h, outcome (chain level (⟨lhs, rest, h⟩ : Reading ts _)) =
      findsAfter (chain level) lhs rest) ∧
    ∀ lhs, findsAfter (chain level) lhs = ifChosen (operatorOf level)
      (fun op => do
        let rhs ← finds (binary level)
        findsAfter (chain level) (.binary op lhs rhs))
      (return lhs) := by
  apply findsAfter_of_round
  intro lhs rest below ts h
  rw [chain]
  cases rest with
  | nil => rfl
  | cons t us =>
    dsimp only
    rw [binaryOp_eq_map, ifChosen]
    cases operatorOf level t.kind with
    | none => rfl
    | some op =>
      -- the operator and its operand are used, so that the next round has fewer tokens
      refine finds_next fun rhs vs hless => ?_
      exact below _ _ _ hless

/-- The loop over suffixes, whatever list the head was read from: a call, an index, a member, or the
head itself. -/
theorem suffixes_rounds :
    (∀ {ts : List Token} head rest h, outcome (suffixes (⟨head, rest, h⟩ : Reading ts _)) =
      findsAfter suffixes head rest) ∧
    ∀ head, findsAfter suffixes head = byAhead fun
      | .lparen =>
        match head with
        | .var callee => do
          let _ ← token .lparen
          let args ← findsList .rparen expr
          findsAfter suffixes (.call callee args)
        | _ => halt .callTarget
      | .lbracket => do
        let _ ← token .lbracket
        let position ← finds expr
        let _ ← token .rbracket
        findsAfter suffixes (.index head position)
      | .dot => do
        let _ ← token .dot
        let member ← finds name
        findsAfter suffixes (.member head member)
      | _ => return head := by
  apply findsAfter_of_round
  intro head rest below ts h
  rw [suffixes, byAhead]
  dsimp only
  generalize ahead rest = kind
  cases kind with
  | lparen =>
    cases head with
    | var callee =>
      refine finds_bind rfl fun opening us hopening => ?_
      refine finds_bind (Reading.outcome_next _) fun args vs hless => ?_
      exact below _ _ _ hless
    | _ => rfl
  | lbracket =>
    refine finds_bind rfl fun opening us h => ?_
    refine finds_next fun position us h => ?_
    refine finds_next fun closing us hless => ?_
    exact below _ _ _ hless
  | dot =>
    refine finds_bind rfl fun dot us h => ?_
    refine finds_next fun member us hless => ?_
    exact below _ _ _ hless
  | _ => rfl

/-- An operand of one token. -/
theorem finds_operand {kind : Kind} {t : Token} (h : t.kind = kind) (us : List Token)
    (tree : Token → Expr) : Except.ok (tree t, us) = (do
      let found ← token kind
      return tree found : Finds Expr) (t :: us) := by
  rw [bind_of_ok (token_cons h us)]
  rfl

/-- A primary expression by the kind of its first token. -/
theorem finds_primary : finds primary = byAhead fun
    | .ident => do
      let found ← token .ident
      return .var found.text
    | .number => do
      let found ← token .number
      return .number found.text
    | .string => do
      let found ← token .string
      return .string found.text
    | .kwTrue => do
      let _ ← token .kwTrue
      return .bool true
    | .kwFalse => do
      let _ ← token .kwFalse
      return .bool false
    | .lparen => do
      let _ ← token .lparen
      let inner ← finds expr
      let _ ← token .rparen
      return .paren inner
    | _ => halt .noExpression := by
  funext ts
  show outcome (primary ts) = _
  cases ts with
  | nil =>
    rw [primary]
    rfl
  | cons t us =>
    rw [primary, byAhead, ahead]
    generalize hkind : t.kind = kind
    cases kind with
    | ident => exact finds_operand hkind us fun found => .var found.text
    | number => exact finds_operand hkind us fun found => .number found.text
    | string => exact finds_operand hkind us fun found => .string found.text
    | kwTrue => exact finds_operand hkind us fun _ => .bool true
    | kwFalse => exact finds_operand hkind us fun _ => .bool false
    | lparen =>
      refine Eq.trans ?_ (bind_of_ok (token_cons hkind us)).symm
      refine finds_next fun inner us h => ?_
      exact finds_next fun _ _ _ => rfl
    | _ => rfl

/-! ## Levels -/

/-- An assignment, whatever list its target was read from. -/
theorem outcome_assigned {ts : List Token} (target : Expr) (rest : List Token)
    (h : rest.length < ts.length) :
    outcome (assigned (⟨target, rest, h⟩ : Reading ts Expr)) = ifToken .assign
      (do
        let value ← finds (readAt 0)
        return .assign target value)
      (return target) rest := by
  rw [assigned]
  refine finds_following (by decide) (fun sign vs h => ?_) rfl
  exact finds_next fun _ _ _ => rfl

/-- What a level adds does not depend on the list that the expression was read from. -/
theorem outcome_goOn {ts : List Token} (level : Nat) (first : Expr) (rest : List Token)
    (h : rest.length < ts.length) :
    outcome (goOn level (⟨first, rest, h⟩ : Reading ts Expr)) = after level first rest := by
  rcases level_cases level with rfl | ⟨op, rfl⟩ | rfl | rfl | ⟨n, rfl⟩
  · exact (outcome_assigned first rest h).trans (outcome_assigned first rest _).symm
  · rw [after, findsAfter, goOn_level, goOn_level]
    exact (chain_rounds op.looseness).1 first rest h
  · rfl
  · exact suffixes_rounds.1 first rest h
  · rfl

/-- After an expression of level 1 an assignment sign takes an assigned value, and the two are one
assignment. -/
theorem after_zero (target : Expr) : after 0 target = ifToken .assign
    (do
      let value ← finds (readAt 0)
      return .assign target value)
    (return target) :=
  funext fun rest => outcome_assigned target rest _

/-- After an operand an operator of the same level takes an operand of the next level, and reading
goes on with the two as one operand. -/
theorem after_level (op : BinaryOp) (lhs : Expr) :
    after op.level lhs = ifChosen (operatorOf op.looseness)
      (fun other => do
        let rhs ← finds (readAt (op.level + 1))
        after op.level (.binary other lhs rhs))
      (return lhs) := by
  have hafter : after op.level = findsAfter (chain op.looseness) := by
    funext lhs rest
    rw [after, findsAfter, goOn_level, findsAfter]
  have hread : readAt (op.level + 1) = binary op.looseness := funext (readAt_level_succ op)
  rw [hafter, hread]
  exact (chain_rounds op.looseness).2 lhs

/-- After a head a suffix is read by its first token; a call needs a plain name for its head. -/
theorem after_eight (head : Expr) : after 8 head = byAhead fun
    | .lparen =>
      match head with
      | .var callee => do
        let _ ← token .lparen
        let args ← findsList .rparen (readAt 0)
        after 8 (.call callee args)
      | _ => halt .callTarget
    | .lbracket => do
      let _ ← token .lbracket
      let position ← finds (readAt 0)
      let _ ← token .rbracket
      after 8 (.index head position)
    | .dot => do
      let _ ← token .dot
      let member ← finds name
      after 8 (.member head member)
    | _ => return head :=
  suffixes_rounds.2 head

/-- An expression of a level starts with one of the next level, unless the level is that of the
unary operators. -/
theorem finds_readAt {level : Nat} (h : level ≠ 7) : finds (readAt level) = (do
    let first ← finds (readAt (level + 1))
    after level first) := by
  funext ts
  show outcome (readAt level ts) = _
  rw [readAt_eq_bind h]
  exact finds_bind rfl fun first rest hrest => outcome_goOn level first rest hrest

/-- A unary operator has an expression of its own level for an operand. -/
theorem finds_readAt_seven : finds (readAt 7) = ifChosen UnaryOp.ofKind?
    (fun op => do
      let operand ← finds (readAt 7)
      return .unary op operand)
    (finds (readAt 8)) := by
  funext ts
  show outcome (readAt 7 ts) = _
  rw [readAt_seven]
  cases ts with
  | nil => rfl
  | cons t us =>
    rw [unaryOp_eq_map, ifChosen]
    cases UnaryOp.ofKind? t.kind with
    | none => rfl
    | some op => exact finds_next fun _ _ _ => rfl

end Quill.Grammar
