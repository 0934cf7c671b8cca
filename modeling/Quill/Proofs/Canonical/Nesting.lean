import Quill.Proofs.Canonical.Printer
import Quill.Proofs.Canonical.Texts

/-!
# Nested statements are indented texts

The level at which a statement is written says only how far its lines are indented. One level more
puts the space of one level after every line feed of the text (`Stmt.canonical_succ`), whatever
blocks, conditionals and loops are nested in the statement. So the text of a block is made of the
texts of its statements alone, and the text of a program of those of its declarations
(`canonical_layout`).

The line feeds of a canonical text are those of blocks and structures, as long as there is none in
the names and literals of the tree: a literal that has one is not indented.
-/

set_option autoImplicit false

namespace Quill

/-! ## Texts of one line -/

/-- There is no line feed in a text. -/
def OneLine (text : String) : Prop :=
  '\n' ∉ text.toList

instance (text : String) : Decidable (OneLine text) :=
  inferInstanceAs (Decidable (¬ _))

/-- A text in two parts is on one line just when both parts are. -/
@[simp] theorem oneLine_append {s t : String} : OneLine (s ++ t) ↔ OneLine s ∧ OneLine t := by
  rw [OneLine, String.toList_append, List.mem_append, not_or]
  rfl

/-- Texts on one line each, listed with a separator on one line, are on one line. -/
theorem oneLine_intercalate {separator : String} {texts : List String}
    (hseparator : OneLine separator) (htexts : ∀ text ∈ texts, OneLine text) :
    OneLine (separator.intercalate texts) := by
  intro hline
  rcases mem_of_mem_intercalate hline with hmem | ⟨text, htext, hmem⟩
  · exact hseparator hmem
  · exact htexts text htext hmem

namespace TypeExpr

mutual
theorem oneLine_canonical : ∀ type : TypeExpr, (∀ text ∈ type.texts, OneLine text) →
    OneLine type.canonical
  | .named name, h => h name List.mem_cons_self
  | .array element, h => by
    have helement := oneLine_canonical element h
    cases hfunc : element.isFunc <;> simp +decide [canonical, hfunc, helement]
  | .func params result, h => by
    obtain ⟨hparams, hresult⟩ := List.forall_mem_append.mp h
    have hlist := oneLine_intercalate (show OneLine ", " by decide)
      (oneLine_canonicalList params hparams)
    simp +decide [canonical, hlist, oneLine_canonical result hresult]

theorem oneLine_canonicalList : ∀ types : List TypeExpr,
    (∀ text ∈ textsList types, OneLine text) → ∀ text ∈ canonicalList types, OneLine text
  | [], _ => List.forall_mem_nil _
  | type :: types, h => by
    obtain ⟨htype, htypes⟩ := List.forall_mem_append.mp h
    exact List.forall_mem_cons.mpr
      ⟨oneLine_canonical type htype, oneLine_canonicalList types htypes⟩
end

end TypeExpr

/-- No symbol of a binary operator has a line feed. -/
theorem BinaryOp.oneLine_symbol (op : BinaryOp) : OneLine op.symbol := by
  cases op <;> decide

theorem UnaryOp.oneLine_symbol (op : UnaryOp) : OneLine op.symbol := by
  cases op <;> decide

namespace Expr

mutual
theorem oneLine_canonical : ∀ expr : Expr, (∀ text ∈ expr.texts, OneLine text) →
    OneLine expr.canonical
  | .assign target value, h => by
    obtain ⟨htarget, hvalue⟩ := List.forall_mem_append.mp h
    simp +decide [canonical, oneLine_canonical target htarget, oneLine_canonical value hvalue]
  | .binary op lhs rhs, h => by
    obtain ⟨hlhs, hrhs⟩ := List.forall_mem_append.mp h
    simp +decide [canonical, op.oneLine_symbol, oneLine_canonical lhs hlhs,
      oneLine_canonical rhs hrhs]
  | .unary op operand, h => by
    simp [canonical, op.oneLine_symbol, oneLine_canonical operand h]
  | .call callee args, h => by
    obtain ⟨hcallee, hargs⟩ := List.forall_mem_cons.mp h
    have hlist := oneLine_intercalate (show OneLine ", " by decide)
      (oneLine_canonicalList args hargs)
    simp +decide [canonical, hcallee, hlist]
  | .index array position, h => by
    obtain ⟨harray, hposition⟩ := List.forall_mem_append.mp h
    simp +decide [canonical, oneLine_canonical array harray,
      oneLine_canonical position hposition]
  | .member object name, h => by
    obtain ⟨hobject, hname⟩ := List.forall_mem_append.mp h
    simp +decide [canonical, oneLine_canonical object hobject, hname name List.mem_cons_self]
  | .number text, h => h text List.mem_cons_self
  | .string text, h => h text List.mem_cons_self
  | .bool value, _ => by cases value <;> decide
  | .var name, h => h name List.mem_cons_self
  | .paren inner, h => by
    simp +decide [canonical, oneLine_canonical inner h]

theorem oneLine_canonicalList : ∀ exprs : List Expr,
    (∀ text ∈ textsList exprs, OneLine text) → ∀ text ∈ canonicalList exprs, OneLine text
  | [], _ => List.forall_mem_nil _
  | expr :: exprs, h => by
    obtain ⟨hexpr, hexprs⟩ := List.forall_mem_append.mp h
    exact List.forall_mem_cons.mpr
      ⟨oneLine_canonical expr hexpr, oneLine_canonicalList exprs hexprs⟩
end

end Expr

/-- A declaration of a variable is on one line if the texts in it are. -/
theorem LetDecl.oneLine_canonical (decl : LetDecl) (h : ∀ text ∈ decl.texts, OneLine text) :
    OneLine decl.canonical := by
  obtain ⟨name, type, value⟩ := decl
  obtain ⟨hname, hparts⟩ := List.forall_mem_cons.mp h
  obtain ⟨htype, hvalue⟩ := List.forall_mem_append.mp hparts
  cases value with
  | none => simp +decide [canonical, hname, type.oneLine_canonical htype]
  | some value =>
    have hexpr := value.oneLine_canonical fun text htext => hvalue text (by simpa using htext)
    simp +decide [canonical, hname, type.oneLine_canonical htype, hexpr]

/-! ## Nesting -/

/-- A text with the space of one level after every line feed. -/
def nest (text : String) : String :=
  String.ofList (text.toList.flatMap fun c =>
    if c = '\n' then '\n' :: (indent 1).toList else [c])

/-- Two texts put together are nested one by one. -/
theorem nest_append (s t : String) : nest (s ++ t) = nest s ++ nest t := by
  rw [nest, String.toList_append, List.flatMap_append, String.ofList_append]
  rfl

/-- Nothing is put into a text of one line. -/
theorem nest_of_oneLine {text : String} (h : OneLine text) : nest text = text := by
  have hkept : ∀ cs : List Char, '\n' ∉ cs →
      (cs.flatMap fun c => if c = '\n' then '\n' :: (indent 1).toList else [c]) = cs := by
    intro cs hcs
    induction cs with
    | nil => rfl
    | cons c cs ih =>
      rw [List.mem_cons, not_or] at hcs
      rw [List.flatMap_cons, ih hcs.2, if_neg (Ne.symm hcs.1), List.singleton_append]
  rw [nest, hkept _ h, String.ofList_toList]

theorem nest_newline : nest "\n" = "\n" ++ indent 1 := by decide

/-- The spaces before a line are on one line. -/
theorem oneLine_indent (level : Nat) : OneLine (indent level) := by
  rw [OneLine, indent, String.toList_ofList, List.mem_replicate]
  rintro ⟨-, hspace⟩
  exact absurd hspace (by decide)

namespace Stmt

mutual
/-- One level more is the space of one level after every line feed. -/
theorem canonical_succ : ∀ (stmt : Stmt) (level : Nat), (∀ text ∈ stmt.texts, OneLine text) →
    stmt.canonical (level + 1) = nest (stmt.canonical level)
  | .letDecl decl, level, h => (nest_of_oneLine (decl.oneLine_canonical h)).symm
  | .expr value, level, h => by
    have hvalue := value.oneLine_canonical h
    simp +decide [canonical, nest_of_oneLine, hvalue]
  | .ifThen condition body, level, h => by
    obtain ⟨hcondition, hbody⟩ := List.forall_mem_append.mp h
    have hline := condition.oneLine_canonical hcondition
    simp +decide [canonical, nest_append, nest_of_oneLine, hline, canonical_succ body level hbody]
  | .ifElse condition body alternative, level, h => by
    obtain ⟨hcondition, hbranches⟩ := List.forall_mem_append.mp h
    obtain ⟨hbody, halternative⟩ := List.forall_mem_append.mp hbranches
    have hline := condition.oneLine_canonical hcondition
    simp +decide [canonical, nest_append, nest_of_oneLine, hline, canonical_succ body level hbody,
      canonical_succ alternative level halternative]
  | .whileDo condition body, level, h => by
    obtain ⟨hcondition, hbody⟩ := List.forall_mem_append.mp h
    have hline := condition.oneLine_canonical hcondition
    simp +decide [canonical, nest_append, nest_of_oneLine, hline, canonical_succ body level hbody]
  | .ret none, level, _ => by
    simp +decide [canonical, nest_of_oneLine]
  | .ret (some value), level, h => by
    have hvalue := value.oneLine_canonical fun text htext => h text (by simpa [texts] using htext)
    simp +decide [canonical, nest_of_oneLine, hvalue]
  | .block [], level, _ => by
    simp +decide [canonical, nest_of_oneLine]
  | .block (first :: others), level, h => by
    -- the lines end with a line feed, so the space that nesting puts after it is that of the brace
    have hlines := canonicalLines_succ (first :: others) (level + 1) h
    have hopen : nest "\x7b\n" = "\x7b\n" ++ indent 1 := by decide
    have hclose : nest "\x7d" = "\x7d" := by decide
    calc (block (first :: others)).canonical (level + 1)
      _ = "\x7b\n" ++ (canonicalLines (level + 2) (first :: others) ++ indent 1) ++ indent level
          ++ "\x7d" := by
        rw [canonical, Printer.indent_succ, ← String.append_assoc, ← String.append_assoc]
      _ = "\x7b\n" ++ indent 1 ++ nest (canonicalLines (level + 1) (first :: others))
          ++ indent level ++ "\x7d" := by
        rw [← hlines, ← String.append_assoc]
      _ = nest ((block (first :: others)).canonical level) := by
        rw [canonical, nest_append, nest_append, nest_append, hopen, hclose,
          nest_of_oneLine (oneLine_indent level)]

/-- The lines of one level more: the space before the first line is that before every other. -/
theorem canonicalLines_succ : ∀ (stmts : List Stmt) (level : Nat),
    (∀ text ∈ textsList stmts, OneLine text) →
      indent 1 ++ nest (canonicalLines level stmts) = canonicalLines (level + 1) stmts ++ indent 1
  | [], level, _ => by simp +decide [canonicalLines, nest_of_oneLine]
  | first :: others, level, h => by
    obtain ⟨hfirst, hothers⟩ := List.forall_mem_append.mp h
    calc indent 1 ++ nest (canonicalLines level (first :: others))
      _ = indent 1 ++ indent level ++ nest (first.canonical level) ++ "\n" ++
          (indent 1 ++ nest (canonicalLines level others)) := by
        simp only [canonicalLines, nest_append, nest_newline,
          nest_of_oneLine (oneLine_indent level), String.append_assoc]
      _ = canonicalLines (level + 1) (first :: others) ++ indent 1 := by
        rw [canonicalLines_succ others level hothers, ← canonical_succ first level hfirst,
          ← Printer.indent_succ, canonicalLines, ← String.append_assoc]
end

/-- A statement at some level has its lines indented that often. -/
theorem canonical_level (stmt : Stmt) (h : ∀ text ∈ stmt.texts, OneLine text) (level : Nat) :
    stmt.canonical level = level.repeat nest (stmt.canonical 0) := by
  induction level with
  | zero => rfl
  | succ level ih => rw [canonical_succ stmt level h, ih, Nat.repeat]

/-- The lines of the first level, each made of the text of its statement alone. -/
theorem canonicalLines_one (stmts : List Stmt) (h : ∀ text ∈ textsList stmts, OneLine text) :
    canonicalLines 1 stmts =
      String.join (stmts.map fun stmt => "    " ++ nest (stmt.canonical 0) ++ "\n") := by
  induction stmts with
  | nil => rfl
  | cons first others ih =>
    obtain ⟨hfirst, hothers⟩ := List.forall_mem_append.mp h
    rw [canonicalLines, canonical_succ first 0 hfirst, ih hothers, List.map_cons, String.join_cons]
    rfl

/-- A block is made of the texts of its statements alone. -/
theorem canonical_block {stmts : List Stmt} (hne : stmts ≠ [])
    (h : ∀ text ∈ textsList stmts, OneLine text) : (block stmts).canonical 0 =
      "\x7b\n" ++ String.join (stmts.map fun stmt => "    " ++ nest (stmt.canonical 0) ++ "\n") ++
        "\x7d" := by
  obtain ⟨first, others, rfl⟩ := List.exists_cons_of_ne_nil hne
  rw [← canonicalLines_one _ h, canonical, show indent 0 = "" from rfl, String.append_empty]

end Stmt

/-! ## The layout -/

/-- What is written for a program is made of what is written for its declarations, and what is
written for a block of what is written for its statements, with the lines of those indented. A
printer keeps what it has written before and adds the text of the node, for a statement the text
that a new printer writes with its lines indented as often as the printer is deep, and it comes back
to its depth after every node. -/
theorem canonical_layout :
    (∀ program : Program, (Printer.start.program program).out =
      "module " ++ program.moduleName.dotted ++ ";\n"
        ++ String.join (program.imports.map fun decl => decl.canonical ++ "\n")
        ++ String.join (program.items.map fun item =>
            "\n" ++ (Printer.start.item item).out ++ "\n")) ∧
    (∀ stmts, stmts ≠ [] → (∀ text ∈ Stmt.textsList stmts, OneLine text) →
      (Printer.start.stmt (.block stmts)).out =
        "\x7b\n" ++ String.join (stmts.map fun stmt =>
            "    " ++ nest (Printer.start.stmt stmt).out ++ "\n") ++ "\x7d") ∧
    (∀ p : Printer,
      (∀ type, (p.type type).out = p.out ++ type.canonical ∧ (p.type type).depth = p.depth) ∧
      (∀ expr, (p.expr expr).out = p.out ++ expr.canonical ∧ (p.expr expr).depth = p.depth) ∧
      (∀ stmt, (p.stmt stmt).out = p.out ++ stmt.canonical p.depth ∧
        (p.stmt stmt).depth = p.depth) ∧
      (∀ stmt : Stmt, (∀ text ∈ stmt.texts, OneLine text) →
        (p.stmt stmt).out = p.out ++ p.depth.repeat nest (Printer.start.stmt stmt).out) ∧
      (∀ item, (p.item item).depth = p.depth) ∧
      ∀ program, (p.program program).depth = p.depth) ∧
    (∀ item, (Printer.start.item item).out = item.canonical) ∧
    ∀ program, (Printer.start.program program).out = program.canonical := by
  -- a new printer has nothing written and is at depth 0, so that it writes just the text of a node
  have hstmt : ∀ stmt, (Printer.start.stmt stmt).out = stmt.canonical 0 := by
    intro stmt
    rw [Printer.stmt_eq, Printer.out_start_push]
    rfl
  have hitem : ∀ item, (Printer.start.item item).out = item.canonical := by
    intro item
    rw [Printer.item_eq _ _ rfl, Printer.out_start_push]
  have hprogram : ∀ program, (Printer.start.program program).out = program.canonical := by
    intro program
    rw [Printer.program_eq _ _ rfl, Printer.out_start_push]
  refine ⟨?_, ?_, ?_, hitem, hprogram⟩
  · intro program
    simp only [hprogram, hitem]
    rfl
  · intro stmts hne h
    simp only [hstmt]
    exact Stmt.canonical_block hne h
  · intro p
    refine ⟨?_, ?_, ?_, ?_, p.item_depth, p.program_depth⟩
    · intro type
      exact Printer.out_depth_of_eq_push (Printer.type_eq type p)
    · intro expr
      exact Printer.out_depth_of_eq_push (Printer.expr_eq expr p)
    · intro stmt
      exact Printer.out_depth_of_eq_push (Printer.stmt_eq stmt p)
    · -- its text at the depth is its text at depth 0, nested as often
      intro stmt h
      rw [Printer.stmt_eq, Printer.out_push, Stmt.canonical_level stmt h, hstmt]

/-- A loop in a conditional: its lines are indented once for each block that they are in, also by a
printer that is inside a block already. -/
theorem canonical_layout_loop_in_conditional :
    let loop := Stmt.whileDo (.var "go") (.block [.ret none])
    let conditional := Stmt.ifThen (.var "on") (.block [loop])
    let stmts := [conditional, .expr (.call "f" [])]
    let inside : Printer := ⟨"\x7b\n    ", 1⟩
    stmts ≠ [] ∧ (∀ text ∈ Stmt.textsList stmts, OneLine text) ∧
      (Printer.start.stmt (.block stmts)).out =
        "\x7b\n" ++ String.join (stmts.map fun stmt =>
            "    " ++ nest (Printer.start.stmt stmt).out ++ "\n") ++ "\x7d" ∧
      (Printer.start.stmt (.block stmts)).out =
        "\x7b\n    if (on) \x7b\n        while (go) \x7b\n            return;\n" ++
          "        \x7d\n    \x7d\n    f();\n\x7d" ∧
      (Printer.start.stmt (.block stmts)).depth = 0 ∧
      (∀ text ∈ conditional.texts, OneLine text) ∧
      (inside.stmt conditional).out = inside.out ++ nest (Printer.start.stmt conditional).out ∧
      (inside.stmt conditional).out =
        "\x7b\n    if (on) \x7b\n        while (go) \x7b\n            return;\n" ++
          "        \x7d\n    \x7d" ∧
      (inside.stmt conditional).depth = 1 := by
  intro loop conditional stmts inside
  obtain ⟨-, hblock, hprinter, -⟩ := canonical_layout
  have hne : stmts ≠ [] := List.cons_ne_nil _ _
  have hlines : ∀ text ∈ Stmt.textsList stmts, OneLine text := by decide
  have hconditional : ∀ text ∈ conditional.texts, OneLine text := by decide
  obtain ⟨-, -, hstart, -⟩ := hprinter Printer.start
  obtain ⟨-, -, hinside, hdeep, -⟩ := hprinter inside
  refine ⟨hne, hlines, hblock stmts hne hlines, ?_, (hstart _).2, hconditional,
    hdeep conditional hconditional, ?_, (hinside conditional).2⟩
  · rw [(hstart _).1]
    decide
  · rw [(hinside _).1]
    decide

end Quill
