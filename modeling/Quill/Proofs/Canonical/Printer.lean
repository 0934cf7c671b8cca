import Quill.Syntax.Canonical

/-!
# The printer

The canonical text as it is written from left to right: a printer has the text that is written so
far and a depth of nesting, which blocks and structures change while their lines are written. The
functions on trees (`Expr.canonical`, `Stmt.canonical` and the others) have neither; they take the
level as an argument and put texts together.

The two agree. Whatever the printer has written before, it writes the canonical text of a node at
its depth and nothing else, and comes back to that depth (`stmt_eq`, `item_depth`, `program_eq`).
-/

set_option autoImplicit false

namespace Quill

/-- The text that is written so far, and the depth at which lines are padded. -/
structure Printer where
  out : String
  depth : Nat
deriving DecidableEq, Repr

namespace Printer

/-! ## Writing -/

/-- A printer that has written nothing. -/
def start : Printer :=
  ⟨"", 0⟩

/-- Writes a text behind what is written so far. -/
def push (p : Printer) (text : String) : Printer :=
  { p with out := p.out ++ text }

/-- Goes one level deeper; the lines that follow are padded once more. -/
def deeper (p : Printer) : Printer :=
  { p with depth := p.depth + 1 }

/-- Comes back from a level. -/
def shallower (p : Printer) : Printer :=
  { p with depth := p.depth - 1 }

/-- Writes space of one level as often as is said. -/
def pushIndents (p : Printer) : Nat → Printer
  | 0 => p
  | level + 1 => p.push (indent 1) |>.pushIndents level

/-- Writes the space before a line. -/
def pad (p : Printer) : Printer :=
  p.pushIndents p.depth

/-- Writing a text appends it to what is written. -/
theorem out_push (p : Printer) (text : String) : (p.push text).out = p.out ++ text :=
  rfl

/-- Where nothing is written before, what is written is all. -/
theorem out_start_push (text : String) : (start.push text).out = text :=
  String.empty_append

/-- Writing a text leaves the depth. -/
@[simp] theorem depth_push (p : Printer) (text : String) : (p.push text).depth = p.depth :=
  rfl

@[simp] theorem depth_deeper (p : Printer) : p.deeper.depth = p.depth + 1 :=
  rfl

/-- What writes a text and nothing else keeps what was written before, and the depth. -/
theorem out_depth_of_eq_push {p q : Printer} {text : String} (h : q = p.push text) :
    q.out = p.out ++ text ∧ q.depth = p.depth := by
  subst h
  exact ⟨p.out_push text, p.depth_push text⟩

/-- Two texts written in turn are one text, put together from both. -/
@[simp] theorem push_push (p : Printer) (s t : String) : (p.push s).push t = p.push (s ++ t) := by
  simp [push, String.append_assoc]

@[simp] theorem push_empty (p : Printer) : p.push "" = p := by
  simp [push]

/-- What is written at the deeper level stays when the printer comes back. -/
@[simp] theorem shallower_push_deeper (p : Printer) (text : String) :
    (p.deeper.push text).shallower = p.push text :=
  rfl

/-- One level more is one indentation more in front. -/
theorem indent_succ (level : Nat) : indent (level + 1) = indent 1 ++ indent level := by
  rw [indent, indent, indent, ← String.ofList_append, List.replicate_append_replicate]
  congr 2
  omega

/-- The indentations written one by one are the spaces in front of a line of that level. -/
theorem pushIndents_eq (p : Printer) (level : Nat) :
    p.pushIndents level = p.push (indent level) := by
  induction level generalizing p with
  | zero => exact (push_empty p).symm
  | succ level ih => rw [pushIndents, ih, push_push, ← indent_succ]

/-- Padding writes the spaces in front of a line of the depth. -/
@[simp] theorem pad_eq (p : Printer) : p.pad = p.push (indent p.depth) :=
  pushIndents_eq p p.depth

/-! ## Types and expressions -/

mutual
/-- Writes a type. An array of functions has the function type in parentheses. -/
def type (p : Printer) : TypeExpr → Printer
  | .named name => p.push name
  | .array element =>
    (if element.isFunc then p.push "(" |>.type element |>.push ")" else p.type element).push "[]"
  | .func params result => p.push "(" |>.types params |>.push ") -> " |>.type result

/-- Writes types with commas between them. -/
def types (p : Printer) : List TypeExpr → Printer
  | [] => p
  | [last] => p.type last
  | first :: next :: others => p.type first |>.push ", " |>.types (next :: others)
end

mutual
/-- A type is written as its text, at any depth. -/
theorem type_eq : ∀ (tree : TypeExpr) (p : Printer), p.type tree = p.push tree.canonical
  | .named name, p => rfl
  | .array element, p => by
    have helement := type_eq element
    cases hfunc : element.isFunc <;>
      simp [type, TypeExpr.canonical, hfunc, helement, String.append_assoc]
  | .func params result, p => by
    simp [type, TypeExpr.canonical, types_eq params, type_eq result, String.append_assoc]

/-- Types are written as their texts with commas between them. -/
theorem types_eq : ∀ (trees : List TypeExpr) (p : Printer),
    p.types trees = p.push (", ".intercalate (TypeExpr.canonicalList trees))
  | [], p => (push_empty p).symm
  | [last], p => by simp [types, TypeExpr.canonicalList, type_eq last]
  | first :: next :: others, p => by
    rw [types, type_eq first, types_eq (next :: others), TypeExpr.canonicalList]
    simp [TypeExpr.canonicalList, String.intercalate_cons_cons, String.append_assoc]
end

mutual
/-- Writes an expression. Parentheses are written only where the tree has them. -/
def expr (p : Printer) : Expr → Printer
  | .assign target value => p.expr target |>.push " = " |>.expr value
  | .binary op lhs rhs => p.expr lhs |>.push " " |>.push op.symbol |>.push " " |>.expr rhs
  | .unary op operand => p.push op.symbol |>.expr operand
  | .call callee args => p.push callee |>.push "(" |>.exprs args |>.push ")"
  | .index array position => p.expr array |>.push "[" |>.expr position |>.push "]"
  | .member object name => p.expr object |>.push "." |>.push name
  | .number text => p.push text
  | .string text => p.push text
  | .bool value => p.push (if value then "true" else "false")
  | .var name => p.push name
  | .paren inner => p.push "(" |>.expr inner |>.push ")"

/-- Writes expressions with commas between them. -/
def exprs (p : Printer) : List Expr → Printer
  | [] => p
  | [last] => p.expr last
  | first :: next :: others => p.expr first |>.push ", " |>.exprs (next :: others)
end

mutual
/-- An expression is written as its text, at any depth. -/
theorem expr_eq : ∀ (tree : Expr) (p : Printer), p.expr tree = p.push tree.canonical
  | .assign target value, p => by
    simp [expr, Expr.canonical, expr_eq target, expr_eq value, String.append_assoc]
  | .binary op lhs rhs, p => by
    simp [expr, Expr.canonical, expr_eq lhs, expr_eq rhs, String.append_assoc]
  | .unary op operand, p => by simp [expr, Expr.canonical, expr_eq operand]
  | .call callee args, p => by
    simp [expr, Expr.canonical, exprs_eq args, String.append_assoc]
  | .index array position, p => by
    simp [expr, Expr.canonical, expr_eq array, expr_eq position, String.append_assoc]
  | .member object name, p => by simp [expr, Expr.canonical, expr_eq object, String.append_assoc]
  | .number text, p => rfl
  | .string text, p => rfl
  | .bool value, p => rfl
  | .var name, p => rfl
  | .paren inner, p => by simp [expr, Expr.canonical, expr_eq inner, String.append_assoc]

/-- Expressions are written as their texts with commas between them. -/
theorem exprs_eq : ∀ (trees : List Expr) (p : Printer),
    p.exprs trees = p.push (", ".intercalate (Expr.canonicalList trees))
  | [], p => (push_empty p).symm
  | [last], p => by simp [exprs, Expr.canonicalList, expr_eq last]
  | first :: next :: others, p => by
    rw [exprs, expr_eq first, exprs_eq (next :: others), Expr.canonicalList]
    simp [Expr.canonicalList, String.intercalate_cons_cons, String.append_assoc]
end

/-! ## Statements -/

/-- Writes a variable's declaration, with its value if it has one. -/
def letDecl (p : Printer) (decl : LetDecl) : Printer :=
  let declared := p.push "let " |>.push decl.name |>.push ": " |>.type decl.type
  match decl.value with
  | some value => declared.push " = " |>.expr value |>.push ";"
  | none => declared.push ";"

mutual
/-- Writes a statement. A block with statements in it is written one level deeper, and the printer
comes back to its level before the brace that closes the block. -/
def stmt (p : Printer) : Stmt → Printer
  | .letDecl decl => p.letDecl decl
  | .expr value => p.expr value |>.push ";"
  | .ifThen condition body => p.push "if (" |>.expr condition |>.push ") " |>.stmt body
  | .ifElse condition body alternative =>
    p.push "if (" |>.expr condition |>.push ") " |>.stmt body |>.push " else " |>.stmt alternative
  | .whileDo condition body => p.push "while (" |>.expr condition |>.push ") " |>.stmt body
  | .ret none => p.push "return" |>.push ";"
  | .ret (some value) => p.push "return" |>.push " " |>.expr value |>.push ";"
  | .block [] => p.push "\x7b\x7d"
  | .block (first :: others) =>
    p.push "\x7b\n" |>.deeper |>.lines (first :: others) |>.shallower |>.pad |>.push "\x7d"

/-- Writes statements on padded lines of their own. -/
def lines (p : Printer) : List Stmt → Printer
  | [] => p
  | first :: others => p.pad |>.stmt first |>.push "\n" |>.lines others
end

/-- A declaration of a variable is written as its text, both as a statement and at the top level. -/
theorem letDecl_eq (p : Printer) (decl : LetDecl) : p.letDecl decl = p.push decl.canonical := by
  obtain ⟨name, type, value⟩ := decl
  cases value <;>
    simp [letDecl, LetDecl.canonical, type_eq, expr_eq, String.append_assoc]

mutual
/-- A statement is written as its canonical text at the depth of the printer. -/
theorem stmt_eq : ∀ (tree : Stmt) (p : Printer), p.stmt tree = p.push (tree.canonical p.depth)
  | .letDecl decl, p => letDecl_eq p decl
  | .expr value, p => by simp [stmt, Stmt.canonical, expr_eq]
  | .ifThen condition body, p => by
    simp [stmt, Stmt.canonical, expr_eq, stmt_eq body, String.append_assoc]
  | .ifElse condition body alternative, p => by
    simp [stmt, Stmt.canonical, expr_eq, stmt_eq body, stmt_eq alternative, String.append_assoc]
  | .whileDo condition body, p => by
    simp [stmt, Stmt.canonical, expr_eq, stmt_eq body, String.append_assoc]
  | .ret none, p => by simp [stmt, Stmt.canonical]
  | .ret (some value), p => by simp [stmt, Stmt.canonical, expr_eq, String.append_assoc]
  | .block [], p => by simp [stmt, Stmt.canonical]
  | .block (first :: others), p => by
    simp [stmt, Stmt.canonical, lines_eq (first :: others), String.append_assoc]

theorem lines_eq : ∀ (trees : List Stmt) (p : Printer),
    p.lines trees = p.push (Stmt.canonicalLines p.depth trees)
  | [], p => (push_empty p).symm
  | first :: others, p => by
    simp [lines, Stmt.canonicalLines, stmt_eq first, lines_eq others, String.append_assoc]
end

/-! ## Declarations and programs -/

/-- Writes a name with its type. -/
def binder (p : Printer) (tree : Binder) : Printer :=
  p.push tree.name |>.push ": " |>.type tree.type

/-- Writes names with their types, with commas between them. -/
def binders (p : Printer) : List Binder → Printer
  | [] => p
  | [last] => p.binder last
  | first :: next :: others => p.binder first |>.push ", " |>.binders (next :: others)

/-- Writes the fields of a structure on padded lines, with commas between them. -/
def fields (p : Printer) : List Binder → Printer
  | [] => p
  | [last] => p.pad |>.binder last |>.push "\n"
  | first :: next :: others =>
    p.pad |>.binder first |>.push "," |>.push "\n" |>.fields (next :: others)

/-- Writes a declaration. The fields of a structure are written one level deeper, and the printer
comes back before the brace that closes them. -/
def item (p : Printer) : Item → Printer
  | .typeAlias name type =>
    p.push "type " |>.push name |>.push " = " |>.type type |>.push ";"
  | .struct name [] => p.push "struct " |>.push name |>.push " \x7b\x7d;"
  | .struct name (first :: others) =>
    p.push "struct " |>.push name |>.push " \x7b\n" |>.deeper |>.fields (first :: others)
      |>.shallower |>.pad |>.push "\x7d;"
  | .const name type value =>
    p.push "const " |>.push name |>.push ": " |>.type type |>.push " = " |>.expr value |>.push ";"
  | .fn name params none body =>
    p.push "fn " |>.push name |>.push "(" |>.binders params |>.push ")" |>.push " "
      |>.stmt (.block body)
  | .fn name params (some result) body =>
    p.push "fn " |>.push name |>.push "(" |>.binders params |>.push ")" |>.push " -> "
      |>.type result |>.push " " |>.stmt (.block body)
  | .letDecl decl => p.letDecl decl

/-- Writes an import on a line of its own, with the local name if it has one. -/
def importDecl (p : Printer) (decl : Import) : Printer :=
  let imported := p.push "import " |>.push decl.path.dotted
  match decl.localName with
  | some localName => imported.push " as " |>.push localName |>.push ";\n"
  | none => imported.push ";\n"

/-- Writes imports, one on each line. -/
def imports (p : Printer) : List Import → Printer
  | [] => p
  | first :: others => p.importDecl first |>.imports others

/-- Writes declarations, each after an empty line. -/
def items (p : Printer) : List Item → Printer
  | [] => p
  | first :: others => p.push "\n" |>.item first |>.push "\n" |>.items others

/-- Writes a program: the module line, the imports and the declarations. -/
def program (p : Printer) (tree : Program) : Printer :=
  p.push "module " |>.push tree.moduleName.dotted |>.push ";\n" |>.imports tree.imports
    |>.items tree.items

/-- A name with its type is written as its text. -/
theorem binder_eq (p : Printer) (tree : Binder) : p.binder tree = p.push tree.canonical := by
  simp [binder, Binder.canonical, type_eq, String.append_assoc]

/-- Names with their types are written with commas between them. -/
theorem binders_eq (p : Printer) (trees : List Binder) :
    p.binders trees = p.push (", ".intercalate (trees.map Binder.canonical)) := by
  fun_induction binders p trees with
  | case1 p => exact (push_empty p).symm
  | case2 p last => simp [binder_eq]
  | case3 p first next others ih =>
    rw [ih, binder_eq]
    simp [String.intercalate_cons_cons, String.append_assoc]

/-- Fields are written with the padding of the depth where their canonical text has that of the
first level. -/
theorem fields_eq (p : Printer) (trees : List Binder) (hne : trees ≠ []) :
    p.fields trees = p.push (",\n".intercalate
      (trees.map fun field => indent p.depth ++ field.canonical) ++ "\n") := by
  fun_induction fields p trees with
  | case1 p => exact absurd rfl hne
  | case2 p last => simp [binder_eq, String.append_assoc]
  | case3 p first next others ih =>
    rw [ih (List.cons_ne_nil _ _), binder_eq]
    have hcomma : ",\n" = "," ++ "\n" := rfl
    simp [String.intercalate_cons_cons, String.append_assoc, hcomma]

/-- A declaration leaves the printer at its depth. -/
@[simp] theorem item_depth (p : Printer) (tree : Item) : (p.item tree).depth = p.depth := by
  cases tree with
  | typeAlias name type => simp [item, type_eq]
  | struct name members =>
    cases members with
    | nil => simp [item]
    | cons first others => simp [item, fields_eq]
  | const name type value => simp [item, type_eq, expr_eq]
  | fn name params result body =>
    cases result <;> simp [item, type_eq, binders_eq, stmt_eq]
  | letDecl decl => simp [item, letDecl_eq]

/-- At the top level a declaration is written as its canonical text. -/
theorem item_eq (p : Printer) (tree : Item) (h : p.depth = 0) :
    p.item tree = p.push tree.canonical := by
  cases tree with
  | typeAlias name type => simp [item, Item.canonical, type_eq, String.append_assoc]
  | struct name members =>
    cases members with
    | nil => simp [item, Item.canonical, String.append_assoc]
    | cons first others =>
      have hpad : indent 0 = "" := rfl
      simp [item, Item.canonical, Binder.canonicalLines, fields_eq, h, hpad, String.append_assoc]
  | const name type value =>
    simp [item, Item.canonical, type_eq, expr_eq, String.append_assoc]
  | fn name params result body =>
    cases result <;>
      simp only [item, Item.canonical, type_eq, binders_eq, stmt_eq, push_push, depth_push, h,
        String.append_assoc, String.empty_append]
  | letDecl decl => exact letDecl_eq p decl

/-- An import is written as a line of its own. -/
theorem importDecl_eq (p : Printer) (decl : Import) :
    p.importDecl decl = p.push (decl.canonical ++ "\n") := by
  obtain ⟨path, localName⟩ := decl
  have hend : ";\n" = ";" ++ "\n" := rfl
  cases localName <;> simp [importDecl, Import.canonical, String.append_assoc, hend]

/-- Imports are written line by line, without empty lines between them. -/
theorem imports_eq (p : Printer) (trees : List Import) :
    p.imports trees = p.push (String.join (trees.map fun decl => decl.canonical ++ "\n")) := by
  induction trees generalizing p with
  | nil => exact (push_empty p).symm
  | cons first others ih =>
    rw [imports, ih, importDecl_eq, push_push, List.map_cons, String.join_cons]

/-- Items are written at depth 0 with an empty line before each. -/
theorem items_eq (p : Printer) (trees : List Item) (h : p.depth = 0) : p.items trees =
    p.push (String.join (trees.map fun declared => "\n" ++ declared.canonical ++ "\n")) := by
  induction trees generalizing p with
  | nil => exact (push_empty p).symm
  | cons first others ih =>
    rw [items, item_eq _ first (by exact h), ih _ (by exact h)]
    simp only [push_push, List.map_cons, String.join_cons, String.append_assoc]

/-- After any number of items the depth is what it was before them. -/
theorem items_depth (p : Printer) (trees : List Item) : (p.items trees).depth = p.depth := by
  induction trees generalizing p with
  | nil => rfl
  | cons first others ih => rw [items, ih, depth_push, item_depth, depth_push]

/-- A program leaves the printer at its depth. -/
theorem program_depth (p : Printer) (tree : Program) : (p.program tree).depth = p.depth := by
  rw [program, items_depth, imports_eq]
  rfl

/-- At the top level a program is written as its canonical text. -/
theorem program_eq (p : Printer) (tree : Program) (h : p.depth = 0) :
    p.program tree = p.push tree.canonical := by
  rw [program, imports_eq, items_eq _ _ (by exact h)]
  simp only [push_push, Program.canonical]

end Printer

end Quill
