/-!
# Types

A type is a name, an array of some type, or a function type. The source language has no written
form for function types; they occur only in trees built by hand. Parentheses around a type
leave no trace in the tree.

The argument list of a function type makes the recursion nested, so each function on types
comes with a companion on lists of types.
-/

set_option autoImplicit false

namespace Quill

/-- A type as it is written. -/
inductive TypeExpr where
  /-- A built-in type, or a type name with dots between its parts. -/
  | named (name : String)
  /-- Arrays with elements of a type. -/
  | array (element : TypeExpr)
  /-- Functions from parameters to a result. -/
  | func (params : List TypeExpr) (result : TypeExpr)
deriving Repr

namespace TypeExpr

/-! ## Equality -/

mutual
/-- Whether two types are equal, node by node. -/
def same : TypeExpr → TypeExpr → Bool
  | .named a, .named b => a == b
  | .array a, .array b => same a b
  | .func ps r, .func qs s => sameList ps qs && same r s
  | _, _ => false

/-- Whether two lists of types are equal. -/
def sameList : List TypeExpr → List TypeExpr → Bool
  | [], [] => true
  | a :: as, b :: bs => same a b && sameList as bs
  | _, _ => false
end

mutual
/-- The comparison decides equality. -/
theorem same_iff : ∀ a b : TypeExpr, same a b = true ↔ a = b
  | .named a, b => by cases b <;> simp [same]
  | .array a, b => by cases b <;> simp [same, same_iff a]
  | .func ps r, b => by cases b <;> simp [same, sameList_iff ps, same_iff r]

/-- The comparison of lists decides equality. -/
theorem sameList_iff : ∀ as bs : List TypeExpr, sameList as bs = true ↔ as = bs
  | [], bs => by cases bs <;> simp [sameList]
  | a :: as, bs => by cases bs <;> simp [sameList, same_iff a, sameList_iff as]
end

instance : DecidableEq TypeExpr := fun a b => decidable_of_iff _ (same_iff a b)

end TypeExpr

end Quill
