import Quill.Proofs.Descent.Indices
import Quill.Proofs.Parsing.Equations.Loops
import Quill.Proofs.Parsing.FirstError

/-!
# The procedures find what the readers find

Each procedure is a reader of the grammar, or a loop in one (`Procedure.reader`). What its script
does to an index, done to the tokens from the index on, is what the reader does
(`Procedure.reader_eq`). So what a run gives is what the reader finds (`Procedure.run_finds`).

So every procedure ends (`Procedure.run_ends`). A reader of the grammar is a function on all token
lists because its type says that it uses a token; a procedure has no such type, and what it finds is
the same.
-/

set_option autoImplicit false

namespace Quill.Descent

open Grammar (Finds finds findsAfter findsList token halt byAhead ifToken ifChosen ahead)

/-! ## The readers -/

/-- The reader that a procedure is. -/
def Procedure.reader {α : Type} : Procedure α → Finds α
  | .name => finds Grammar.name
  | .qualifiedName => finds Grammar.qualifiedName
  | .moreNames => Grammar.further .dot Grammar.name
  | .typeExpr => finds Grammar.typeExpr
  | .simpleType => finds Grammar.simpleType
  | .arraySuffixes type => findsAfter Grammar.arraySuffixes type
  | .binder => finds Grammar.binder
  | .moreBinders => Grammar.further .comma Grammar.binder
  | .params => Grammar.listUpTo .rparen Grammar.binder
  | .expr => finds Grammar.expr
  | .binary level => finds (Grammar.binary level)
  | .chain level lhs => findsAfter (Grammar.chain level) lhs
  | .unary => finds Grammar.unary
  | .suffixed => finds Grammar.suffixed
  | .suffixes head => findsAfter Grammar.suffixes head
  | .callArgs => do
    let _ ← token .lparen
    findsList .rparen Grammar.expr
  | .moreArgs => Grammar.further .comma Grammar.expr
  | .primary => finds Grammar.primary
  | .letDecl => finds Grammar.letDecl
  | .stmt => finds Grammar.stmt
  | .conditional => finds Grammar.conditional
  | .loop => finds Grammar.loop
  | .returnStmt => finds Grammar.returnStmt
  | .block => finds Grammar.block
  | .stmts => Grammar.statements
  | .moduleHeader => finds Grammar.moduleHeader
  | .importDecl => finds Grammar.importDecl
  | .typeAlias => finds Grammar.typeAlias
  | .structDecl => finds Grammar.structDecl
  | .constDecl => finds Grammar.constDecl
  | .fnDecl => finds Grammar.fnDecl
  | .item => finds Grammar.item
  | .imports => Grammar.imports
  | .items => Grammar.items
  | .program => fun ts => (Grammar.program ts).map fun tree => (tree, [])

/-- What a script does to the tokens from the index on. -/
def Script.acts {α : Type} : Script α → Finds α
  | done value => pure value
  | fail cause => halt cause
  | look next => fun us => (next us.head?).acts us
  | bump next => fun us => next.acts us.tail
  | call procedure next => do
    let value ← procedure.reader
    (next value).acts

/-- The kind of the first token, with end of input in place of a missing one, is the kind ahead. -/
theorem kindOf_head? (us : List Token) : kindOf us.head? = ahead us := by
  cases us <;> rfl

namespace Script

variable {α β : Type}

theorem acts_done (value : α) : (done value).acts = pure value := rfl

/-- Calling a procedure acts as its reader, and then as the script that gets the value. -/
theorem acts_call (procedure : Procedure β) (next : β → Script α) :
    (call procedure next).acts = (procedure.reader >>= fun value => (next value).acts) := rfl

/-- A script that looks at the next kind acts as the reader that decides by it. -/
theorem acts_byKind (next : Kind → Script α) :
    (byKind next).acts = byAhead fun kind => (next kind).acts := by
  funext us
  show (next (kindOf us.head?)).acts us = (next (ahead us)).acts us
  rw [kindOf_head?]

/-- Expecting a kind acts as reading a token of it, and then as the script that gets the text. -/
theorem acts_expect {kind : Kind} (h : kind ≠ .eof) (next : String → Script α) :
    (expect kind next).acts = (token kind >>= fun t => (next t.text).acts) := by
  funext us
  show (if kindOf us.head? = kind then _ else _ : Script α).acts us = _
  rw [kindOf_head?, Grammar.bind_apply]
  by_cases hahead : ahead us = kind
  · rw [if_pos hahead]
    cases us with
    | nil => exact absurd hahead.symm h
    | cons t us =>
      rw [Grammar.token_cons hahead]
      rfl
  · rw [if_neg hahead, Grammar.token_of_ne hahead]
    rfl

/-- At the end of the input that end is there to be passed, whether a token stands for it or
not. -/
theorem acts_expect_eof {us : List Token} (hahead : ahead us = .eof) (next : String → Script α) :
    (expect .eof next).acts us = (next (textOf us.head?)).acts us.tail := by
  show (if kindOf us.head? = .eof then _ else _ : Script α).acts us = _
  rw [kindOf_head?, if_pos hahead]
  rfl

/-- A choice by the next kind acts as the reader that takes the token if it is chosen. -/
theorem acts_choose {choice : Kind → Option β} (heof : choice .eof = none) (yes : β → Script α)
    (no : Script α) : (choose choice yes no).acts =
      ifChosen choice (fun chosen => (yes chosen).acts) no.acts := by
  funext us
  rw [choose, acts_byKind, byAhead]
  rcases Grammar.ifChosen_cases heof us with ⟨hnone, hno⟩ | ⟨t, vs, chosen, rfl, hchosen, hyes⟩
  · rw [hnone, hno]
  · rw [ahead, hchosen, hyes]
    rfl

/-- An optional token acts as the reader that takes the token if it is there. -/
theorem acts_ifNext {kind : Kind} (h : kind ≠ .eof) (yes no : Script α) :
    (ifNext kind yes no).acts = ifToken kind yes.acts no.acts :=
  acts_choose (Grammar.exactly_of_ne h.symm) _ _

section

variable {element : Procedure α} {more : Procedure (List α)}
  {read : (ts : List Token) → Except Stop (Reading ts α)}

/-- A token that is looked at and then required. -/
theorem acts_peek {kind : Kind} (h : kind ≠ .eof) (yes no : Script α) :
    (byKind fun other => if other = kind then expect kind fun _ => yes else no).acts =
      ifToken kind yes.acts no.acts := by
  funext us
  rw [acts_byKind, byAhead]
  rcases Grammar.ifToken_cases kind h us with ⟨hahead, hif⟩ | ⟨t, vs, rfl, ht, hif⟩
  · rw [hif, if_neg hahead]
  · rw [hif, ahead, if_pos ht, acts_expect h, Grammar.bind_of_ok (Grammar.token_cons ht vs)]

/-- A token whose kind is known is passed. -/
theorem acts_bump {kind : Kind} (h : kind ≠ .eof) {us : List Token} (hahead : ahead us = kind)
    (next : String → Script α) : (bump (next (textOf us.head?))).acts us =
      (token kind >>= fun t => (next t.text).acts) us := by
  cases us with
  | nil => exact absurd hahead.symm h
  | cons t us =>
    rw [Grammar.bind_of_ok (Grammar.token_cons hahead us)]
    rfl

/-- A loop over what starts with given kinds acts as one element and then the loop again, or as
nothing. -/
theorem acts_each (starts : Kind → Bool) (element : Procedure α) (more : Procedure (List α)) :
    (each starts element more).acts = byAhead fun kind =>
      if starts kind then do
        let first ← element.reader
        let others ← more.reader
        return first :: others
      else return [] := by
  rw [each, acts_byKind]
  refine congrArg byAhead (funext fun kind => ?_)
  split <;> rfl

/-- A loop over elements with separators acts as the reader of further elements. -/
theorem acts_further {separator : Kind} (h : separator ≠ .eof)
    (helement : element.reader = finds read)
    (hmore : more.reader = Grammar.further separator read) :
    (further separator element more).acts = Grammar.further separator read := by
  rw [further, acts_ifNext h, Grammar.further_eq h]
  simp only [acts_call, acts_done, helement, hmore]

/-- A list up to its closing mark acts as the reader of such lists. -/
theorem acts_upTo {close : Kind} (read : (ts : List Token) → Except Stop (Reading ts α))
    (helement : element.reader = finds read)
    (hmore : more.reader = Grammar.further .comma read) (next : List α → Script β) :
    (upTo close element more next).acts =
      (Grammar.listUpTo close read >>= fun values => (next values).acts) := by
  funext us
  rw [upTo, acts_byKind]
  show (if ahead us = close then next [] else _ : Script β).acts us =
    ((if ahead us = close then pure [] else _) >>= fun values => (next values).acts) us
  split
  · rfl
  · simp only [acts_call, helement, hmore, bind_assoc, pure_bind]

end

/-- The list of parameters or fields up to a mark acts as the reader of names with types. -/
theorem acts_binders (close : Kind) (next : List Binder → Script β) :
    (upTo close .binder .moreBinders next).acts =
      (Grammar.listUpTo close Grammar.binder >>= fun values => (next values).acts) :=
  acts_upTo Grammar.binder rfl rfl next

/-- The list of arguments up to a mark acts as the reader of expressions. -/
theorem acts_args (close : Kind) (next : List Expr → Script β) :
    (upTo close .expr .moreArgs next).acts =
      (Grammar.listUpTo close Grammar.expr >>= fun values => (next values).acts) :=
  acts_upTo Grammar.expr rfl rfl next

end Script

namespace Procedure

open Script

/-- A type without suffixes: the reader is what its script acts as. -/
theorem reader_simpleType : simpleType.reader = simpleType.script.acts := by
  rw [script, reader, Grammar.finds_simpleType]
  funext us
  rw [acts, byAhead]
  dsimp only
  rw [kindOf_head?]
  generalize hahead : ahead us = kind
  cases kind with
  | kwInt | kwBool | kwString =>
    refine Eq.trans ?_ (acts_bump (by decide) hahead fun text => done (TypeExpr.named text)).symm
    dsimp only
    rw [Grammar.finds_builtIn]
    rfl
  | lparen =>
    refine Eq.trans ?_ (acts_bump (by decide) hahead fun _ => call .typeExpr fun inner =>
      expect .rparen fun _ => done inner).symm
    simp (disch := decide) only [acts_call, acts_expect, acts_done, reader]
  | _ => rfl

/-- Primary expressions: the reader is what its script acts as. -/
theorem reader_primary : primary.reader = primary.script.acts := by
  rw [script, reader, Grammar.finds_primary]
  funext us
  rw [acts, byAhead]
  dsimp only
  rw [kindOf_head?]
  generalize hahead : ahead us = kind
  cases kind with
  | ident => exact (acts_bump (by decide) hahead fun text => done (Expr.var text)).symm
  | number => exact (acts_bump (by decide) hahead fun text => done (Expr.number text)).symm
  | string => exact (acts_bump (by decide) hahead fun text => done (Expr.string text)).symm
  | kwTrue => exact (acts_bump (by decide) hahead fun _ => done (Expr.bool true)).symm
  | kwFalse => exact (acts_bump (by decide) hahead fun _ => done (Expr.bool false)).symm
  | lparen =>
    refine Eq.trans ?_ (acts_bump (by decide) hahead fun _ => call .expr fun inner =>
      expect .rparen fun _ => done (Expr.paren inner)).symm
    simp (disch := decide) only [acts_call, acts_expect, acts_done, reader]
  | _ => rfl

/-- Chains of a level: the reader is what its script acts as. -/
theorem reader_binary (level : Fin (BinaryOp.levels + 1)) :
    (binary level).reader = (binary level).script.acts := by
  obtain ⟨level, h⟩ := level
  cases level with
  | zero =>
    show finds (Grammar.binary 0) = (finds Grammar.unary >>= pure)
    rw [Grammar.finds_binary_zero, bind_pure]
  | succ level =>
    show finds (Grammar.binary (level + 1)) = _
    rw [Grammar.finds_binary_succ, script]
    simp only [acts_call, acts_done, reader, bind_pure]

/-- Suffixes of an expression: the reader is what its script acts as. -/
theorem reader_suffixes (head : Expr) :
    (suffixes head).reader = (suffixes head).script.acts := by
  rw [script, reader, Grammar.suffixes_rounds.2, acts_byKind]
  funext us
  rw [byAhead, byAhead]
  generalize hahead : ahead us = kind
  cases kind with
  | lparen =>
    cases head with
    | var callee =>
      simp only [callOn, acts_call, acts_done, reader, bind_assoc, bind_pure]
    | _ => rfl
  | lbracket =>
    refine Eq.trans ?_ (acts_bump (by decide) hahead fun _ => call .expr fun position =>
      expect .rbracket fun _ => call (.suffixes (.index head position)) done).symm
    simp (disch := decide) only [acts_call, acts_expect, acts_done, reader, bind_pure]
  | dot =>
    refine Eq.trans ?_ (acts_bump (by decide) hahead fun _ => call .name fun member =>
      call (.suffixes (.member head member)) done).symm
    simp only [acts_call, acts_done, reader, bind_pure]
  | _ => rfl

/-- Statements: the reader is what its script acts as. -/
theorem reader_stmt : stmt.reader = stmt.script.acts := by
  rw [script, reader, Grammar.finds_stmt, acts_byKind]
  refine congrArg byAhead (funext fun kind => ?_)
  have hexpr : finds Grammar.exprStmt =
      (call .expr fun value => expect .semicolon fun _ => done (Stmt.expr value)).acts := by
    rw [Grammar.finds_exprStmt]
    simp (disch := decide) only [acts_call, acts_expect, acts_done, reader]
  cases kind with
  | kwLet | lbrace => rfl
  | kwIf | kwWhile | kwReturn => exact (bind_pure _).symm
  | _ => exact hexpr

/-- A program is followed by the end of the input, and the declarations go on until they are at
it. -/
theorem reader_program : program.reader = program.script.acts := by
  funext ts
  have hscript : program.script.acts =
      (Grammar.findsProgram >>= fun tree => (endsAfter tree).acts) := by
    rw [script, Grammar.findsProgram]
    simp only [acts_call, reader, bind_assoc, pure_bind]
  show (Grammar.program ts).map _ = program.script.acts ts
  rw [hscript, Grammar.program_eq, Grammar.bind_apply]
  cases hfound : Grammar.findsProgram ts with
  | error stop => rfl
  | ok found =>
    obtain ⟨tree, rest⟩ := found
    have hend := (Grammar.findsProgram_eq_ok hfound).1
    show _ = (endsAfter tree).acts rest
    rw [endsAfter, acts_expect_eof hend]
    -- at the end of the input a token may stand for it, with further tokens after it or none
    cases rest with
    | nil => rfl
    | cons last extra => cases extra <;> rfl

/-- A procedure does to the tokens what the reader does. -/
theorem reader_eq {α : Type} (p : Procedure α) : p.reader = p.script.acts := by
  cases p with
  | name =>
    rw [script, acts_expect (by decide)]
    exact Grammar.finds_name
  | qualifiedName =>
    rw [script, reader, Grammar.finds_qualifiedName, Grammar.segments_eq_further]
    simp only [acts_call, acts_done, reader, bind_assoc, pure_bind]
  | moreNames | moreBinders | moreArgs => exact (acts_further (by decide) rfl rfl).symm
  | simpleType => exact reader_simpleType
  | arraySuffixes type =>
    rw [script, reader, Grammar.arraySuffixes_rounds.2]
    simp (disch := decide) only [acts_ifNext, acts_expect, acts_call, acts_done, reader, bind_pure]
  | expr =>
    rw [script, reader, Grammar.finds_expr]
    simp (disch := decide) only [acts_ifNext, acts_call, acts_done, reader]
    rfl
  | binary level => exact reader_binary level
  | chain level lhs =>
    rw [script, reader, (Grammar.chain_rounds level).2, acts_choose (by rfl)]
    simp only [acts_call, acts_done, reader, bind_pure]
    rfl
  | unary =>
    rw [script, reader, Grammar.finds_unary, acts_choose (by rfl)]
    simp only [acts_call, acts_done, reader, bind_pure]
  | suffixes head => exact reader_suffixes head
  | callArgs =>
    rw [script, reader, Grammar.findsList_eq_listUpTo (by decide)]
    simp (disch := decide) only [acts_expect, acts_args, acts_done]
  | primary => exact reader_primary
  | stmt => exact reader_stmt
  | stmts =>
    have hstarts : ∀ kind : Kind, (!(kind == .rbrace || kind == .eof)) = true ↔
        ¬ (kind = .rbrace ∨ kind = .eof) := by simp
    rw [script, reader, Grammar.statements_eq, acts_each]
    simp only [hstarts, ite_not, reader]
  | item =>
    rw [script, reader, Grammar.finds_item, acts_byKind]
    refine congrArg byAhead (funext fun kind => ?_)
    cases kind with
    | kwType | kwStruct | kwConst | kwFn => exact (bind_pure _).symm
    | _ => rfl
  | imports =>
    rw [script, reader, Grammar.imports_eq, acts_each]
    simp only [beq_iff_eq, reader]
  | items =>
    have hstarts : ∀ kind : Kind, (!(kind == .eof)) = true ↔ ¬ kind = .eof := by simp
    rw [script, reader, Grammar.items_eq, acts_each]
    simp only [hstarts, ite_not, reader]
  | program => exact reader_program
  -- one step after another, as in the equation of the reader
  | typeExpr | suffixed | binder | params | letDecl | conditional | loop | returnStmt | block
  | moduleHeader | importDecl | typeAlias | structDecl | constDecl | fnDecl =>
    simp (disch := decide) only [script, reader, acts_done, acts_call, acts_expect, acts_ifNext,
      acts_peek, acts_binders, bind_assoc, pure_bind, bind_pure, Grammar.finds_typeExpr,
      Grammar.finds_suffixed, Grammar.finds_binder, Grammar.finds_letDecl,
      Grammar.finds_conditional, Grammar.finds_loop, Grammar.finds_condition,
      Grammar.finds_returnStmt, Grammar.finds_block, Grammar.finds_moduleHeader,
      Grammar.finds_importDecl, Grammar.finds_typeAlias, Grammar.finds_structDecl,
      Grammar.finds_constDecl, Grammar.finds_fnDecl, Grammar.blockRest_eq_statements,
      Grammar.findsList_eq_listUpTo]

end Procedure

/-! ## Runs -/

/-- What is found by a call, with the tokens from the index where it ends. -/
def Ending.found {α : Type} (ts : List Token) : Ending α → Except Stop (α × List Token)
  | (.ok value, j) => .ok (value, ts.drop j)
  | (.error cause, j) => .error ⟨cause, ts.drop j⟩

/-- A script does to an index what it does to the tokens from there on, as the calls in it do. -/
theorem Script.exec_acts {ts : List Token}
    {callee : {β : Type} → Procedure β → Nat → Option (Ending β)}
    (hcallee : ∀ {β : Type} (q : Procedure β) j ending, callee q j = some ending →
      q.reader (ts.drop j) = ending.found ts)
    {α : Type} (script : Script α) (j : Nat) (ending : Ending α)
    (h : script.exec ts callee j = some ending) : script.acts (ts.drop j) = ending.found ts := by
  induction script generalizing j with
  | done value =>
    obtain rfl := Option.some.inj h
    rfl
  | fail cause =>
    obtain rfl := Option.some.inj h
    rfl
  | look next ih =>
    show (next (ts.drop j).head?).acts (ts.drop j) = _
    rw [List.head?_drop]
    exact ih _ j h
  -- past the last token the index stays, and the tokens from there on stay empty
  | bump next ih =>
    have hdrop : (ts.drop j).tail = ts.drop (if j < ts.length then j + 1 else j) := by
      split
      · exact List.tail_drop
      · rename_i hover
        rw [List.drop_eq_nil_of_le (Nat.le_of_not_lt hover)]
        rfl
    show next.acts (ts.drop j).tail = _
    rw [hdrop]
    exact ih _ h
  -- a call that fails ends the script, and so does its reader
  | call q next ih =>
    rw [exec] at h
    rw [acts_call, Grammar.bind_apply]
    split at h
    · rename_i value k hcall
      rw [hcallee q j _ hcall]
      exact ih value k h
    · rename_i cause k hcall
      obtain rfl := Option.some.inj h
      rw [hcallee q j _ hcall]
      rfl
    · exact absurd h (by simp)

/-- A run gives what the reader finds. -/
theorem Procedure.run_finds (ts : List Token) (depth : Nat) {α : Type} (p : Procedure α) (i : Nat)
    (ending : Ending α) (h : p.run ts depth i = some ending) :
    p.reader (ts.drop i) = ending.found ts := by
  induction depth generalizing α p i ending with
  | zero => simp [run] at h
  | succ depth ih =>
    rw [p.reader_eq]
    exact Script.exec_acts ih p.script i ending h

/-- Whatever the tokens are and wherever it is called, a procedure ends, and with what the reader
finds in the tokens from there on. The index is not moved back, nor past the last token, and a
procedure that succeeds has moved it, unless it may stay. What is called within it and is not lower,
as the next round of a loop, is called at a later index. -/
theorem Procedure.run_ends {α : Type} (p : Procedure α) (ts : List Token) (i : Nat) :
    ∃ (result : Except SyntaxCause α) (j : Nat),
      (∀ depth, 13 * (ts.length - i) + p.rank < depth →
        p.run ts depth i = some (result, j)) ∧
      p.reader (ts.drop i) = Ending.found ts (result, j) ∧
      i ≤ j ∧ j ≤ max i ts.length ∧
      (result.isOk = true → i < j ∨ p.mayStay (kindOf ts[i]?) = true) ∧
      ∀ depth, ∀ c ∈ p.script.calls ts (run ts depth) i,
        i ≤ c.index ∧ c.index ≤ max i ts.length ∧ (p.rank ≤ c.procedure.rank → i < c.index) := by
  obtain ⟨⟨result, j⟩, hrun⟩ := exists_run ts (13 * (ts.length - i) + p.rank + 1) p i (by omega)
  obtain ⟨⟨hle, hend⟩, hmoved⟩ := run_endsWell ts _ p i _ hrun
  refine ⟨result, j, ?_, run_finds ts _ p i _ hrun, hle, hend, hmoved, ?_⟩
  · intro depth hdepth
    exact run_mono ts hdepth p i _ hrun
  · intro depth c hc
    -- a call at a later index, or one at the same index that is of a lower rank
    rcases calls_descend ts depth p i c hc with ⟨hlater, hlength⟩ | ⟨hindex, hlower⟩
    · exact ⟨Nat.le_of_lt hlater, by omega, fun _ => hlater⟩
    · exact ⟨by omega, by omega, fun hrank => absurd hlower (Nat.not_lt.mpr hrank)⟩

/-- Between parentheses there may be no parameter, and then the index stays. -/
example : Procedure.params.run [⟨.rparen, ")", Pos.start⟩] 3 0 = some (.ok [], 0) := rfl

end Quill.Descent
