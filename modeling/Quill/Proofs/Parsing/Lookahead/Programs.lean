import Quill.Proofs.Parsing.Equations.Programs
import Quill.Proofs.Parsing.Lookahead.Expressions

/-!
# One token of lookahead in statements, declarations and programs

No reader of these looks back at what it has read, so nothing has to be known of it.
-/

set_option autoImplicit false

namespace Quill.Grammar

section

variable (n : Nat)

/-! ## Statements -/

theorem inStep_letDecl : InStep n anything (finds letDecl) (finds letDecl) := by
  rw [finds_letDecl]
  refine inStep_token_bind (by decide) fun _ _ => ?_
  refine (inStep_binder n).bind fun _ _ _ => ?_
  refine inStep_ifToken (by decide) ?_ ?_
  · refine (inStep_expr n).bind fun _ _ _ => ?_
    exact inStep_token_bind (by decide) fun _ _ => inStep_pure trivial
  · exact inStep_token_bind (by decide) fun _ _ => inStep_pure trivial

theorem inStep_condition : InStep n anything (finds condition) (finds condition) := by
  rw [finds_condition]
  refine inStep_token_bind (by decide) fun _ _ => ?_
  refine (inStep_expr n).bind fun _ _ _ => ?_
  exact inStep_token_bind (by decide) fun _ _ => inStep_pure trivial

theorem inStep_returnStmt : InStep n anything (finds returnStmt) (finds returnStmt) := by
  rw [finds_returnStmt]
  refine inStep_token_bind (by decide) fun _ _ => ?_
  refine inStep_ifToken (by decide) (inStep_pure trivial) ?_
  refine (inStep_expr n).bind fun _ _ _ => ?_
  exact inStep_token_bind (by decide) fun _ _ => inStep_pure trivial

theorem inStep_exprStmt : InStep n anything (finds exprStmt) (finds exprStmt) := by
  rw [finds_exprStmt]
  refine (inStep_expr n).bind fun _ _ _ => ?_
  exact inStep_token_bind (by decide) fun _ _ => inStep_pure trivial

end

section

variable {n : Nat} (below : InStep n anything (finds stmt) (finds stmt))

include below

theorem inStep_conditional :
    InStep (n + 1) anything (finds conditional) (finds conditional) := by
  rw [finds_conditional]
  refine inStep_token_fewer (by decide) fun _ _ => ?_
  refine (inStep_condition n).bind fun _ _ _ => ?_
  refine below.bind fun _ _ _ => ?_
  refine inStep_ifToken (by decide) ?_ (inStep_pure trivial)
  exact below.bind fun _ _ _ => inStep_pure trivial

theorem inStep_loopStmt : InStep (n + 1) anything (finds loop) (finds loop) := by
  rw [finds_loop]
  refine inStep_token_fewer (by decide) fun _ _ => ?_
  refine (inStep_condition n).bind fun _ _ _ => ?_
  exact below.bind fun _ _ _ => inStep_pure trivial

/-- A statement makes the lists shorter before the rest of the block is read. -/
theorem inStep_blockRest : InStep n anything (finds blockRest) (finds blockRest) := by
  induction n with
  | zero => exact inStep_zero _ _ _
  | succ n ih =>
    rw [finds_blockRest]
    refine inStep_ifToken_fewer (by decide) (inStep_pure trivial) ?_
    refine inStep_byAhead fun kind => ?_
    split
    · exact inStep_halt
    · refine below.bind_fewer (finds_usesToken _) fun _ _ _ => ?_
      have others := ih (below.mono (Nat.le_succ n))
      exact others.bind fun _ _ _ => inStep_pure trivial

theorem inStep_block : InStep (n + 1) anything (finds block) (finds block) := by
  rw [finds_block]
  exact inStep_token_fewer (by decide) fun _ _ => inStep_blockRest below

end

section

variable (n : Nat)

/-- A statement by its first token; the branches need statements in shorter lists only. -/
theorem inStep_stmt : InStep n anything (finds stmt) (finds stmt) := by
  induction n with
  | zero => exact inStep_zero _ _ _
  | succ n below =>
    rw [finds_stmt]
    refine inStep_byAhead fun kind => ?_
    split
    · exact (inStep_letDecl _).bind fun _ _ _ => inStep_pure trivial
    · exact inStep_conditional below
    · exact inStep_loopStmt below
    · exact inStep_returnStmt _
    · exact (inStep_block below).bind fun _ _ _ => inStep_pure trivial
    · exact inStep_exprStmt _

theorem inStep_body : InStep n anything (finds block) (finds block) :=
  (inStep_block (inStep_stmt n)).mono (Nat.le_succ n)

/-! ## Declarations -/

theorem inStep_moduleHeader : InStep n anything (finds moduleHeader) (finds moduleHeader) := by
  rw [finds_moduleHeader]
  refine inStep_token_bind (by decide) fun _ _ => ?_
  refine (inStep_qualifiedName n).bind fun _ _ _ => ?_
  exact inStep_token_bind (by decide) fun _ _ => inStep_pure trivial

theorem inStep_importDecl : InStep n anything (finds importDecl) (finds importDecl) := by
  rw [finds_importDecl]
  refine inStep_token_bind (by decide) fun _ _ => ?_
  refine (inStep_qualifiedName n).bind fun _ _ _ => ?_
  refine inStep_ifToken (by decide) ?_ ?_
  · refine (inStep_name n).bind fun _ _ _ => ?_
    exact inStep_token_bind (by decide) fun _ _ => inStep_pure trivial
  · exact inStep_token_bind (by decide) fun _ _ => inStep_pure trivial

theorem inStep_typeAlias : InStep n anything (finds typeAlias) (finds typeAlias) := by
  rw [finds_typeAlias]
  refine inStep_token_bind (by decide) fun _ _ => ?_
  refine (inStep_name n).bind fun _ _ _ => ?_
  refine inStep_token_bind (by decide) fun _ _ => ?_
  refine (inStep_typeExpr n).bind fun _ _ _ => ?_
  exact inStep_token_bind (by decide) fun _ _ => inStep_pure trivial

theorem inStep_structDecl : InStep n anything (finds structDecl) (finds structDecl) := by
  rw [finds_structDecl]
  refine inStep_token_bind (by decide) fun _ _ => ?_
  refine (inStep_name n).bind fun _ _ _ => ?_
  refine inStep_token_bind (by decide) fun _ _ => ?_
  refine (inStep_findsList (by decide) (inStep_binder n)).bind fun _ _ _ => ?_
  exact inStep_token_bind (by decide) fun _ _ => inStep_pure trivial

theorem inStep_constDecl : InStep n anything (finds constDecl) (finds constDecl) := by
  rw [finds_constDecl]
  refine inStep_token_bind (by decide) fun _ _ => ?_
  refine (inStep_binder n).bind fun _ _ _ => ?_
  refine inStep_token_bind (by decide) fun _ _ => ?_
  refine (inStep_expr n).bind fun _ _ _ => ?_
  exact inStep_token_bind (by decide) fun _ _ => inStep_pure trivial

theorem inStep_fnDecl : InStep n anything (finds fnDecl) (finds fnDecl) := by
  rw [finds_fnDecl]
  refine inStep_token_bind (by decide) fun _ _ => ?_
  refine (inStep_name n).bind fun _ _ _ => ?_
  refine inStep_token_bind (by decide) fun _ _ => ?_
  refine (inStep_findsList (by decide) (inStep_binder n)).bind fun _ _ _ => ?_
  refine inStep_ifToken (by decide) ?_ ?_
  · refine (inStep_typeExpr n).bind fun _ _ _ => ?_
    exact (inStep_body n).bind fun _ _ _ => inStep_pure trivial
  · exact (inStep_body n).bind fun _ _ _ => inStep_pure trivial

/-- An item by its first token. -/
theorem inStep_item : InStep n anything (finds item) (finds item) := by
  rw [finds_item]
  refine inStep_byAhead fun kind => ?_
  split
  · exact inStep_typeAlias n
  · exact inStep_structDecl n
  · exact inStep_constDecl n
  · exact inStep_fnDecl n
  · exact (inStep_letDecl n).bind fun _ _ _ => inStep_pure trivial
  · exact inStep_halt

/-! ## Programs -/

theorem inStep_imports : InStep n anything imports imports := by
  induction n with
  | zero => exact inStep_zero _ _ _
  | succ n ih =>
    rw [imports_eq]
    refine inStep_byAhead fun kind => ?_
    split
    · refine (inStep_importDecl _).bind_fewer (finds_usesToken _) fun _ _ _ => ?_
      exact ih.bind fun _ _ _ => inStep_pure trivial
    · exact inStep_pure trivial

/-- An item makes the lists shorter before the further items are read. -/
theorem inStep_items : InStep n anything items items := by
  induction n with
  | zero => exact inStep_zero _ _ _
  | succ n ih =>
    rw [items_eq]
    refine inStep_byAhead fun kind => ?_
    split
    · exact inStep_pure trivial
    · refine (inStep_item _).bind_fewer (finds_usesToken _) fun _ _ _ => ?_
      exact ih.bind fun _ _ _ => inStep_pure trivial

/-- The program as a whole is read in step by lists of the same kinds. -/
theorem inStep_findsProgram : InStep n anything findsProgram findsProgram := by
  refine (inStep_moduleHeader n).bind fun _ _ _ => ?_
  refine (inStep_imports n).bind fun _ _ _ => ?_
  exact (inStep_items n).bind fun _ _ _ => inStep_pure trivial

end

end Quill.Grammar
