import Quill.Syntax.Operator

/-!
# Expressions

Names and literals are kept as the exact text of their tokens: a number is not evaluated, and a
string literal keeps both quotes. Parentheses are a node of their own, so a tree says how it was
written. A call has a plain name in front of its arguments.

The arguments of a call make the recursion nested, so each function on expressions comes with a
companion on lists of expressions.
-/

set_option autoImplicit false

namespace Quill

/-- An expression as it is written. -/
inductive Expr where
  | assign (target value : Expr)
  | binary (op : BinaryOp) (lhs rhs : Expr)
  | unary (op : UnaryOp) (operand : Expr)
  | call (callee : String) (args : List Expr)
  | index (array position : Expr)
  | member (object : Expr) (name : String)
  | number (text : String)
  | string (text : String)
  | bool (value : Bool)
  | var (name : String)
  | paren (inner : Expr)
deriving Repr

namespace Expr

/-! ## Equality -/

mutual
/-- Whether two expressions are equal, node by node. -/
def same : Expr → Expr → Bool
  | .assign a b, .assign c d => same a c && same b d
  | .binary o a b, .binary p c d => o == p && same a c && same b d
  | .unary o a, .unary p b => o == p && same a b
  | .call f as, .call g bs => f == g && sameList as bs
  | .index a b, .index c d => same a c && same b d
  | .member a m, .member b n => same a b && m == n
  | .number s, .number t => s == t
  | .string s, .string t => s == t
  | .bool s, .bool t => s == t
  | .var s, .var t => s == t
  | .paren a, .paren b => same a b
  | _, _ => false

/-- Whether two lists of expressions are equal. -/
def sameList : List Expr → List Expr → Bool
  | [], [] => true
  | a :: as, b :: bs => same a b && sameList as bs
  | _, _ => false
end

mutual
/-- The comparison decides equality. -/
theorem same_iff : ∀ a b : Expr, same a b = true ↔ a = b
  | .assign a b, e => by cases e <;> simp [same, same_iff a, same_iff b]
  | .binary o a b, e => by cases e <;> simp [same, same_iff a, same_iff b, and_assoc]
  | .unary o a, e => by cases e <;> simp [same, same_iff a]
  | .call f as, e => by cases e <;> simp [same, sameList_iff as]
  | .index a b, e => by cases e <;> simp [same, same_iff a, same_iff b]
  | .member a m, e => by cases e <;> simp [same, same_iff a]
  | .number s, e => by cases e <;> simp [same]
  | .string s, e => by cases e <;> simp [same]
  | .bool s, e => by cases e <;> simp [same]
  | .var s, e => by cases e <;> simp [same]
  | .paren a, e => by cases e <;> simp [same, same_iff a]

/-- The comparison of lists decides equality. -/
theorem sameList_iff : ∀ as bs : List Expr, sameList as bs = true ↔ as = bs
  | [], bs => by cases bs <;> simp [sameList]
  | a :: as, bs => by cases bs <;> simp [sameList, same_iff a, sameList_iff as]
end

instance : DecidableEq Expr := fun a b => decidable_of_iff _ (same_iff a b)

end Expr

end Quill
