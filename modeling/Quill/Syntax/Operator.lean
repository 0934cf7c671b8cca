import Quill.Token.Kind

/-!
# Operators

The thirteen binary operators stand on six levels. Operators of one level bind equally and group
to the left; the looser a level, the later its operators are applied. The two unary operators
bind tighter than every binary one.

* `looseness 0`: `*`, `/`, `%`
* `looseness 1`: `+`, `-`
* `looseness 2`: `<`, `<=`, `>`, `>=`
* `looseness 3`: `==`, `!=`
* `looseness 4`: `&&`
* `looseness 5`: `||`
-/

set_option autoImplicit false

namespace Quill

/-- A binary operator. -/
inductive BinaryOp where
  | or | and
  | eq | ne
  | lt | le | gt | ge
  | add | sub
  | mul | div | mod
deriving DecidableEq, Repr

/-- A unary operator, written before its operand. -/
inductive UnaryOp where
  | not | neg
deriving DecidableEq, Repr

namespace BinaryOp

/-- How the operator is written. -/
def symbol : BinaryOp → String
  | or => "||"
  | and => "&&"
  | eq => "=="
  | ne => "!="
  | lt => "<"
  | le => "<="
  | gt => ">"
  | ge => ">="
  | add => "+"
  | sub => "-"
  | mul => "*"
  | div => "/"
  | mod => "%"

/-- The name of the operator in reports. -/
def name : BinaryOp → String
  | or => "Or"
  | and => "And"
  | eq => "Eq"
  | ne => "Ne"
  | lt => "Lt"
  | le => "Le"
  | gt => "Gt"
  | ge => "Ge"
  | add => "Add"
  | sub => "Sub"
  | mul => "Mul"
  | div => "Div"
  | mod => "Mod"

/-- The level of the operator: the greater, the looser it binds. -/
def looseness : BinaryOp → Nat
  | mul | div | mod => 0
  | add | sub => 1
  | lt | le | gt | ge => 2
  | eq | ne => 3
  | and => 4
  | or => 5

/-- The number of levels. -/
def levels : Nat := 6

/-- The operator that a kind of token stands for. -/
def ofKind? : Kind → Option BinaryOp
  | .orOr => some or
  | .andAnd => some and
  | .equal => some eq
  | .notEqual => some ne
  | .less => some lt
  | .lessEqual => some le
  | .greater => some gt
  | .greaterEqual => some ge
  | .plus => some add
  | .minus => some sub
  | .star => some mul
  | .slash => some div
  | .percent => some mod
  | _ => none

end BinaryOp

namespace UnaryOp

/-- How the operator is written. -/
def symbol : UnaryOp → String
  | not => "!"
  | neg => "-"

/-- The name of the operator in reports. -/
def name : UnaryOp → String
  | not => "Not"
  | neg => "Neg"

/-- The operator that a kind of token stands for. -/
def ofKind? : Kind → Option UnaryOp
  | .bang => some not
  | .minus => some neg
  | _ => none

end UnaryOp

end Quill
