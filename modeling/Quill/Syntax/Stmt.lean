import Quill.Syntax.Expr
import Quill.Syntax.TypeExpr

/-!
# Statements

A conditional without an alternative and one with an alternative are two constructors, because
the language treats them apart: an `else` belongs to the nearest conditional that can take it.
A block is the list of its statements.
-/

set_option autoImplicit false

namespace Quill

/-- The declaration of a variable, both at the top level and as a statement. -/
structure LetDecl where
  name : String
  type : TypeExpr
  value : Option Expr
deriving DecidableEq, Repr

/-- A statement as it is written. -/
inductive Stmt where
  | letDecl (decl : LetDecl)
  | expr (value : Expr)
  | ifThen (condition : Expr) (body : Stmt)
  | ifElse (condition : Expr) (body alternative : Stmt)
  | whileDo (condition : Expr) (body : Stmt)
  | ret (value : Option Expr)
  | block (body : List Stmt)
deriving Repr

namespace Stmt

/-! ## Equality -/

mutual
/-- Whether two statements are equal, node by node. -/
def same : Stmt → Stmt → Bool
  | .letDecl a, .letDecl b => a == b
  | .expr a, .expr b => a == b
  | .ifThen c s, .ifThen d t => c == d && same s t
  | .ifElse c s u, .ifElse d t v => c == d && same s t && same u v
  | .whileDo c s, .whileDo d t => c == d && same s t
  | .ret a, .ret b => a == b
  | .block ss, .block ts => sameList ss ts
  | _, _ => false

/-- Whether two lists of statements are equal. -/
def sameList : List Stmt → List Stmt → Bool
  | [], [] => true
  | a :: as, b :: bs => same a b && sameList as bs
  | _, _ => false
end

mutual
/-- The comparison decides equality. -/
theorem same_iff : ∀ a b : Stmt, same a b = true ↔ a = b
  | .letDecl a, s => by cases s <;> simp [same]
  | .expr a, s => by cases s <;> simp [same]
  | .ifThen c a, s => by cases s <;> simp [same, same_iff a]
  | .ifElse c a b, s => by cases s <;> simp [same, same_iff a, same_iff b, and_assoc]
  | .whileDo c a, s => by cases s <;> simp [same, same_iff a]
  | .ret a, s => by cases s <;> simp [same]
  | .block as, s => by cases s <;> simp [same, sameList_iff as]

/-- The comparison of lists decides equality. -/
theorem sameList_iff : ∀ as bs : List Stmt, sameList as bs = true ↔ as = bs
  | [], bs => by cases bs <;> simp [sameList]
  | a :: as, bs => by cases bs <;> simp [sameList, same_iff a, sameList_iff as]
end

instance : DecidableEq Stmt := fun a b => decidable_of_iff _ (same_iff a b)

end Stmt

end Quill
