import Quill.Syntax.Program

/-!
# The texts in a tree

Names, names of types and literals are kept in a tree as texts, and its canonical text has them as
they are. All else in a canonical text comes from a fixed stock of words, which join the texts
(`toList_intercalate_cons`, `mem_of_mem_intercalate`).
-/

set_option autoImplicit false

namespace Quill

/-! ## Joined texts -/

/-- Texts with a separator between them are the first text and then the others, each with the
separator before it. -/
theorem toList_intercalate_cons (separator first : String) (others : List String) :
    (separator.intercalate (first :: others)).toList =
      first.toList ++ others.flatMap fun text => separator.toList ++ text.toList := by
  induction others generalizing first with
  | nil => rw [String.intercalate_singleton, List.flatMap_nil, List.append_nil]
  | cons next others ih =>
    rw [String.intercalate_cons_cons, String.toList_append, String.toList_append, ih,
      List.flatMap_cons, List.append_assoc, List.append_assoc]

/-- A character of joined texts is one of the separator or of a text. -/
theorem mem_of_mem_intercalate {separator : String} {texts : List String} {c : Char}
    (h : c ∈ (separator.intercalate texts).toList) :
    c ∈ separator.toList ∨ ∃ text ∈ texts, c ∈ text.toList := by
  cases texts with
  | nil => simp at h
  | cons first others =>
    rw [toList_intercalate_cons, List.mem_append] at h
    rcases h with hfirst | hothers
    · exact .inr ⟨first, List.mem_cons_self, hfirst⟩
    · obtain ⟨text, htext, hc⟩ := List.mem_flatMap.mp hothers
      rcases List.mem_append.mp hc with hseparator | hc
      · exact .inl hseparator
      · exact .inr ⟨text, List.mem_cons_of_mem _ htext, hc⟩

/-! ## Texts of trees -/

namespace TypeExpr

mutual
/-- The names in a type, in the order in which they are written. -/
def texts : TypeExpr → List String
  | .named name => [name]
  | .array element => texts element
  | .func params result => textsList params ++ texts result

/-- The names in a list of types. -/
def textsList : List TypeExpr → List String
  | [] => []
  | type :: types => texts type ++ textsList types
end

/-- The texts of a list of types are those of its members in turn. -/
theorem textsList_eq_flatMap (types : List TypeExpr) : textsList types = types.flatMap texts := by
  induction types with
  | nil => rfl
  | cons type types ih => rw [textsList, ih, List.flatMap_cons]

end TypeExpr

namespace Expr

mutual
/-- The names and literals in an expression, in the order in which they are written. -/
def texts : Expr → List String
  | .assign target value => texts target ++ texts value
  | .binary _ lhs rhs => texts lhs ++ texts rhs
  | .unary _ operand => texts operand
  | .call callee args => callee :: textsList args
  | .index array position => texts array ++ texts position
  | .member object name => texts object ++ [name]
  | .number text => [text]
  | .string text => [text]
  | .bool _ => []
  | .var name => [name]
  | .paren inner => texts inner

/-- The names and literals in a list of expressions. -/
def textsList : List Expr → List String
  | [] => []
  | expr :: exprs => texts expr ++ textsList exprs
end

end Expr

/-- The names and literals in the declaration of a variable. -/
def LetDecl.texts (decl : LetDecl) : List String :=
  decl.name :: (decl.type.texts ++ decl.value.toList.flatMap Expr.texts)

namespace Stmt

mutual
/-- The names and literals in a statement, in the order in which they are written. -/
def texts : Stmt → List String
  | .letDecl decl => decl.texts
  | .expr value => value.texts
  | .ifThen condition body => condition.texts ++ texts body
  | .ifElse condition body alternative => condition.texts ++ (texts body ++ texts alternative)
  | .whileDo condition body => condition.texts ++ texts body
  | .ret value => value.toList.flatMap Expr.texts
  | .block body => textsList body

/-- The names and literals in a list of statements. -/
def textsList : List Stmt → List String
  | [] => []
  | stmt :: stmts => texts stmt ++ textsList stmts
end

end Stmt

end Quill
