import Quill.Grammar.Expressions
import Quill.Proofs.Parsing.Lists

/-!
# The levels of expressions

Nine of the ten readers of expressions work alike: they read at the next level and then go on with
what their own level adds. `readAt` is the reader of a level and `goOn` what it does after the
next level is read (`readAt_eq_bind`). Level 7, that of unary operators, is the exception: its
operators stand in front (`readAt_seven`).

A binary operator belongs to one level and its right operand to the next one
(`readAt_level`, `readAt_level_succ`, `goOn_level`).
-/

set_option autoImplicit false

namespace Quill

namespace Grammar

open Reading (outcome)

/-! ## Operators -/

/-- An operator of the table is read at its looseness. -/
theorem binaryOp_of_cons {t : Token} {op : BinaryOp} (h : BinaryOp.ofKind? t.kind = some op)
    (us : List Token) :
    binaryOp op.looseness (t :: us) = some ⟨op, us, Nat.lt_succ_self _⟩ := by
  simp only [binaryOp, h, if_pos]
  rfl

/-- No operator is read at a looseness that is not that of the token ahead. -/
theorem binaryOp_eq_none {level : Nat} {ts : List Token}
    (h : ∀ op, BinaryOp.ofKind? (ahead ts) = some op → op.looseness ≠ level) :
    binaryOp level ts = none := by
  cases ts with
  | nil => rfl
  | cons t us =>
    simp only [binaryOp]
    split
    · rename_i op hop
      exact if_neg (h op hop)
    · rfl

/-- An operator of a level is ahead, or none is read. -/
theorem binaryOp_cases (level : Nat) (ts : List Token) :
    binaryOp level ts = none ∨ ∃ t us op, ∃ h : ts = t :: us,
      BinaryOp.ofKind? t.kind = some op ∧ op.looseness = level ∧
        binaryOp level ts = some ⟨op, us, length_lt_of_eq_cons h⟩ := by
  cases ts with
  | nil => exact .inl rfl
  | cons t us =>
    cases hop : BinaryOp.ofKind? t.kind with
    | none => exact .inl (binaryOp_eq_none (by simp [ahead, hop]))
    | some op =>
      by_cases hlevel : op.looseness = level
      · subst hlevel
        exact .inr ⟨t, us, op, rfl, hop, rfl, binaryOp_of_cons hop us⟩
      · refine .inl (binaryOp_eq_none fun other hother => ?_)
        rw [ahead, hop] at hother
        exact Option.some.inj hother ▸ hlevel

/-- A unary operator of the table is read. -/
theorem unaryOp_of_cons {t : Token} {op : UnaryOp} (h : UnaryOp.ofKind? t.kind = some op)
    (us : List Token) : unaryOp (t :: us) = some ⟨op, us, Nat.lt_succ_self _⟩ := by
  simp only [unaryOp, h]
  rfl

/-- No unary operator is read where the table has none. -/
theorem unaryOp_eq_none {ts : List Token} (h : UnaryOp.ofKind? (ahead ts) = none) :
    unaryOp ts = none := by
  cases ts with
  | nil => rfl
  | cons t us =>
    rw [ahead] at h
    simp only [unaryOp, h]

/-- A unary operator is ahead, or none is read. -/
theorem unaryOp_cases (ts : List Token) :
    unaryOp ts = none ∨ ∃ t us op, ∃ h : ts = t :: us, UnaryOp.ofKind? t.kind = some op ∧
      unaryOp ts = some ⟨op, us, length_lt_of_eq_cons h⟩ := by
  cases ts with
  | nil => exact .inl rfl
  | cons t us =>
    cases hop : UnaryOp.ofKind? t.kind with
    | none => exact .inl (unaryOp_eq_none hop)
    | some op => exact .inr ⟨t, us, op, rfl, hop, unaryOp_of_cons hop us⟩

/-! ## Readers by level -/

/-- The reader of a level. -/
def readAt : Nat → (ts : List Token) → Except Stop (Reading ts Expr)
  | 0, ts => expr ts
  | 1, ts => binary 6 ts
  | 2, ts => binary 5 ts
  | 3, ts => binary 4 ts
  | 4, ts => binary 3 ts
  | 5, ts => binary 2 ts
  | 6, ts => binary 1 ts
  | 7, ts => binary 0 ts
  | 8, ts => suffixed ts
  | _ + 9, ts => primary ts

/-- The value that an equals sign after a target assigns to it. -/
def assigned {ts : List Token} (target : Reading ts Expr) : Except Stop (Reading ts Expr) :=
  match target.accept .assign with
  | some sign => do
    let value ← sign.next fun us _ => expr us
    return value.give (.assign target.value value.value)
  | none => return target

/-- What a level adds after an expression of the next level. -/
def goOn {ts : List Token} : Nat → Reading ts Expr → Except Stop (Reading ts Expr)
  | 0, target => assigned target
  | 1, lhs => chain 5 lhs
  | 2, lhs => chain 4 lhs
  | 3, lhs => chain 3 lhs
  | 4, lhs => chain 2 lhs
  | 5, lhs => chain 1 lhs
  | 6, lhs => chain 0 lhs
  | 7, operand => .ok operand
  | 8, head => suffixes head
  | _ + 9, literal => .ok literal

/-- The levels, by what is read there: assignments, the operators of a level, unary operators,
suffixes, and from there on nothing further. -/
theorem level_cases (level : Nat) :
    level = 0 ∨ (∃ op : BinaryOp, op.level = level) ∨ level = 7 ∨ level = 8 ∨
      ∃ n, level = n + 9 := by
  match level with
  | 0 => exact .inl rfl
  | 1 => exact .inr (.inl ⟨.or, rfl⟩)
  | 2 => exact .inr (.inl ⟨.and, rfl⟩)
  | 3 => exact .inr (.inl ⟨.eq, rfl⟩)
  | 4 => exact .inr (.inl ⟨.lt, rfl⟩)
  | 5 => exact .inr (.inl ⟨.add, rfl⟩)
  | 6 => exact .inr (.inl ⟨.mul, rfl⟩)
  | 7 => exact .inr (.inr (.inl rfl))
  | 8 => exact .inr (.inr (.inr (.inl rfl)))
  | n + 9 => exact .inr (.inr (.inr (.inr ⟨n, rfl⟩)))

/-- What holds of operands, and of a level if it holds of the next one, holds of every level. Level
7 is kept apart since it is read in its own way. -/
theorem levels_induction {p : Nat → Prop} (last : ∀ n, p (n + 9)) (seven : p 8 → p 7)
    (previous : ∀ level, level ≠ 7 → p (level + 1) → p level) (level : Nat) : p level := by
  -- the induction is on how many levels before the last one this level is
  induction hn : 9 - level generalizing level with
  | zero =>
    obtain ⟨n, rfl⟩ := Nat.exists_eq_add_of_le' (Nat.sub_eq_zero_iff_le.mp hn)
    exact last n
  | succ n ih =>
    have next : p (level + 1) := ih (level + 1) (by omega)
    by_cases h7 : level = 7
    · subst h7
      exact seven next
    · exact previous level h7 next

/-- The level of an operator is read by the chains of its looseness. -/
theorem readAt_level (op : BinaryOp) (ts : List Token) :
    readAt op.level ts = binary (op.looseness + 1) ts := by
  cases op <;> rfl

/-- The operands of an operator are read by the chains of the next tighter level. -/
theorem readAt_level_succ (op : BinaryOp) (ts : List Token) :
    readAt (op.level + 1) ts = binary op.looseness ts := by
  cases op <;> rfl

/-- After an operand of an operator the chain of its looseness goes on. -/
theorem goOn_level (op : BinaryOp) {ts : List Token} (lhs : Reading ts Expr) :
    goOn op.level lhs = chain op.looseness lhs := by
  cases op <;> rfl

/-- Reading at a level is reading at the next level and going on. -/
theorem readAt_eq_bind {level : Nat} (h : level ≠ 7) (ts : List Token) :
    readAt level ts = readAt (level + 1) ts >>= goOn level := by
  rcases level_cases level with rfl | ⟨op, rfl⟩ | rfl | rfl | ⟨n, rfl⟩
  · rw [readAt, readAt, expr]
    rfl
  · have hgoOn : @goOn ts op.level = chain op.looseness := funext fun lhs => goOn_level op lhs
    rw [readAt_level, readAt_level_succ, hgoOn, binary]
  · exact absurd rfl h
  · rw [readAt, readAt, suffixed]
    rfl
  · show primary ts = primary ts >>= goOn (n + 9)
    cases primary ts <;> rfl

/-- At level 7 an operator is read with its operand; without one, the next level is read. -/
theorem readAt_seven (ts : List Token) :
    readAt 7 ts = match unaryOp ts with
      | some op => do
        let operand ← op.next fun us _ => readAt 7 us
        return operand.give (.unary op.value operand.value)
      | none => readAt 8 ts := by
  rw [readAt, binary, unary]
  -- the operand of a unary operator is read by the same reader
  have heq : ∀ us, unary us = readAt 7 us := fun us => by rw [readAt, binary]
  simp only [heq]
  rfl

/-! ## Steps of the loops

A step takes an operator with its right operand, or a suffix, into the expression read so far. The
level then goes on from the longer expression. -/

/-- An operator and its right operand make the longer left operand with which reading goes on. -/
theorem goOn_of_operator {t : Token} {op : BinaryOp} (h : BinaryOp.ofKind? t.kind = some op)
    {ts us rest : List Token} (lhs : Expr) {rhs : Expr} (hshort : (t :: us).length < ts.length)
    (hrhs : outcome (readAt (op.level + 1) us) = .ok (rhs, rest)) :
    ∃ hrest, outcome (goOn op.level (⟨lhs, t :: us, hshort⟩ : Reading ts Expr)) =
      outcome (goOn op.level (⟨.binary op lhs rhs, rest, hrest⟩ : Reading ts Expr)) := by
  refine ⟨Nat.lt_trans (Reading.rest_length_lt hrhs) (Nat.lt_of_succ_lt hshort), ?_⟩
  rw [readAt_level_succ] at hrhs
  rw [goOn_level, goOn_level, chain, binaryOp_of_cons h]
  dsimp only
  rw [Reading.next_of_ok hrhs]
  rfl

/-- The arguments after a plain name make the call with which reading goes on. -/
theorem goOn_of_call {opening : Token} (hopening : opening.kind = .lparen)
    {ts us rest : List Token} (callee : String) {args : List Expr}
    (hshort : (opening :: us).length < ts.length)
    (hargs : outcome (closedList .rparen us fun vs _ => expr vs) = .ok (args, rest)) :
    ∃ hrest, outcome (goOn 8 (⟨.var callee, opening :: us, hshort⟩ : Reading ts Expr)) =
      outcome (goOn 8 (⟨.call callee args, rest, hrest⟩ : Reading ts Expr)) := by
  refine ⟨Nat.lt_trans (Reading.rest_length_lt hargs) (Nat.lt_of_succ_lt hshort), ?_⟩
  rw [goOn, suffixes]
  simp only [ahead, hopening]
  rw [Reading.expect_of_cons hopening, Reading.next_of_ok hargs]
  rfl

/-- A position in brackets makes the element with which reading goes on. -/
theorem goOn_of_index {opening closing : Token} (hopening : opening.kind = .lbracket)
    (hclosing : closing.kind = .rbracket) {ts us rest : List Token} (array : Expr)
    {position : Expr} (hshort : (opening :: us).length < ts.length)
    (hposition : outcome (expr us) = .ok (position, closing :: rest)) :
    ∃ hrest, outcome (goOn 8 (⟨array, opening :: us, hshort⟩ : Reading ts Expr)) =
      outcome (goOn 8 (⟨.index array position, rest, hrest⟩ : Reading ts Expr)) := by
  have hrest := Nat.lt_trans (Reading.rest_length_lt hposition) (Nat.lt_of_succ_lt hshort)
  refine ⟨Nat.lt_of_succ_lt hrest, ?_⟩
  rw [goOn, suffixes]
  simp only [ahead, hopening]
  rw [Reading.expect_of_cons hopening, Reading.next_of_ok hposition,
    Reading.following_of_cons hclosing]
  rfl

/-- A name after a point makes the member with which reading goes on. -/
theorem goOn_of_member {dot name : Token} (hdot : dot.kind = .dot) (hname : name.kind = .ident)
    {ts rest : List Token} (object : Expr) (hshort : (dot :: name :: rest).length < ts.length) :
    ∃ hrest, outcome (goOn 8 (⟨object, dot :: name :: rest, hshort⟩ : Reading ts Expr)) =
      outcome (goOn 8 (⟨.member object name.text, rest, hrest⟩ : Reading ts Expr)) := by
  refine ⟨Nat.lt_of_succ_lt (Nat.lt_of_succ_lt hshort), ?_⟩
  rw [goOn, suffixes]
  simp only [ahead, hdot]
  rw [Reading.expect_of_cons hdot, Reading.next_of_ok (name_of_cons hname rest)]
  rfl

end Grammar

end Quill
