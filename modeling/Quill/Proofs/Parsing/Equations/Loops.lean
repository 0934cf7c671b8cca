import Quill.Proofs.Parsing.Equations.Programs

/-!
# The loops and levels of the readers

A reader of a list goes on to the closing token, and that of a block to the closing brace. Here the
loops in them are readers without what closes them (`further`, `listUpTo`, `statements`), and the
readers with it are these and one token more.

The levels of expressions have an equation each, as the other readers do.
-/

set_option autoImplicit false

namespace Quill.Grammar

open Reading (outcome outcome_next)

variable {α β : Type}

/-! ## Loops -/

/-- Elements with a separator before each, as many as follow one another. -/
def further (separator : Kind) (element : (ts : List Token) → Except Stop (Reading ts α))
    (ts : List Token) : Except Stop (List α × List Token) :=
  match accept separator ts with
  | none => .ok ([], ts)
  | some sign => do
    let next ← sign.next fun us _ => element us
    let (others, rest) ← further separator element next.rest
    return (next.value :: others, rest)
termination_by ts.length
decreasing_by exact next.shorter

/-- Statements up to a closing brace or the end of the input. -/
def statements (ts : List Token) : Except Stop (List Stmt × List Token) :=
  if ahead ts = .rbrace ∨ ahead ts = .eof then .ok ([], ts)
  else do
    let first ← stmt ts
    let (others, rest) ← statements first.rest
    return (first.value :: others, rest)
termination_by ts.length
decreasing_by exact first.shorter

section

variable {element : (ts : List Token) → Except Stop (Reading ts α)} {separator : Kind}

/-- A value is found without reading. -/
theorem pure_apply (value : α) (ts : List Token) :
    (pure value : Finds α) ts = pure (value, ts) := rfl

/-- Further elements are nothing, or a separator, an element and further elements. -/
theorem further_eq (h : separator ≠ .eof) : (further separator element : Finds (List α)) =
    ifToken separator
      (do
        let next ← finds element
        let others ← (further separator element : Finds (List α))
        return next :: others)
      (return []) := by
  funext ts
  rw [further]
  rcases accept_cases separator h ts with ⟨hnone, hahead⟩ | ⟨t, us, rfl, ht, hsome⟩
  · rw [hnone, ifToken_of_ne hahead]
    rfl
  · rw [hsome, ifToken_cons ht]
    have hnext : ∀ h, outcome ((⟨t, us, h⟩ : Reading (t :: us) Token).next fun vs _ => element vs) =
        finds element us := fun h => outcome_next _
    rw [bind_apply, ← hnext (Nat.lt_succ_self _)]
    exact reading_bind fun _ => rfl

/-- Elements one after another with separators between them, up to what comes last. -/
theorem many_eq_further (hseparator : separator ≠ .eof) {many : Finds (List α)} {last : Finds β}
    (hmany : many = (do
      let first ← finds element
      ifToken separator
        (do
          let others ← many
          return first :: others)
        (do
          let _ ← last
          return [first]))) :
    many = (do
      let first ← finds element
      let others ← (further separator element : Finds (List α))
      let _ ← last
      return first :: others) := by
  funext ts
  induction hn : ts.length using Nat.strongRecOn generalizing ts with
  | ind n ih =>
    rw [hmany, bind_apply, bind_apply]
    cases hfirst : finds element ts with
    | error stop => rfl
    | ok found =>
      obtain ⟨first, us⟩ := found
      have hless : us.length < n := hn ▸ finds_usesToken element _ _ _ hfirst
      show ifToken separator _ _ us = (do
        let others ← (further separator element : Finds (List α))
        let _ ← last
        return first :: others : Finds (List α)) us
      rw [bind_apply, further_eq hseparator]
      -- without a separator both sides are at what comes last; with one the rest is shorter
      rcases ifToken_cases separator hseparator us with ⟨-, hif⟩ | ⟨t, vs, rfl, -, hif⟩
      · rw [hif, hif]
        rfl
      · rw [hif, hif, bind_apply, ih _ (Nat.lt_of_succ_lt hless) vs rfl]
        simp only [bind_apply, bind_assoc, pure_apply, pure_bind]

end

/-- Segments are a name and further names with points. -/
theorem segments_eq_further : finds segments = (do
    let first ← finds name
    let others ← (further .dot name : Finds (List String))
    return first :: others) := by
  -- nothing comes after the last name
  have hmany : finds segments = (do
      let first ← finds name
      ifToken .dot
        (do
          let others ← finds segments
          return first :: others)
        ((pure () : Finds Unit) >>= fun _ => return [first])) := finds_segments
  simpa only [pure_bind] using many_eq_further (by decide) hmany

/-- One element or more: an element, further ones with commas, the closing mark. -/
theorem findsMany_eq_further {close : Kind}
    {element : (ts : List Token) → Except Stop (Reading ts α)} : findsMany close element = (do
      let first ← finds element
      let others ← (further .comma element : Finds (List α))
      let _ ← token close
      return first :: others) :=
  many_eq_further (by decide) findsMany_eq

/-- Elements with commas between them, perhaps none, up to the closing token. -/
def listUpTo (close : Kind) (element : (ts : List Token) → Except Stop (Reading ts α)) :
    Finds (List α) :=
  byAhead fun kind =>
    if kind = close then return []
    else do
      let first ← finds element
      let others ← (further .comma element : Finds (List α))
      return first :: others

/-- A list is read up to its closing token, and then that token. -/
theorem findsList_eq_listUpTo {close : Kind} (hclose : close ≠ .eof)
    (element : (ts : List Token) → Except Stop (Reading ts α)) : findsList close element = (do
      let values ← listUpTo close element
      let _ ← token close
      return values) := by
  funext ts
  rw [findsList_eq hclose, findsMany_eq_further, bind_apply, listUpTo, byAhead]
  rcases ifToken_cases close hclose ts with ⟨hahead, hif⟩ | ⟨t, us, rfl, ht, hif⟩
  · rw [hif, if_neg hahead]
    simp only [bind_apply, bind_assoc, pure_apply, pure_bind]
  · rw [hif, ahead, if_pos ht]
    simp only [pure_apply, pure_bind, bind_of_ok (token_cons ht us)]

/-- Statements are read until a closing brace or the end of the input is ahead. -/
theorem statements_eq : (statements : Finds (List Stmt)) = byAhead fun kind =>
    if kind = .rbrace ∨ kind = .eof then return []
    else do
      let first ← finds stmt
      let others ← (statements : Finds (List Stmt))
      return first :: others := by
  funext ts
  rw [statements, byAhead]
  split
  · rfl
  · exact reading_bind fun _ => rfl

/-- The rest of a block is its statements and the closing brace. -/
theorem blockRest_eq_statements : finds blockRest = (do
    let body ← (statements : Finds (List Stmt))
    let _ ← token .rbrace
    return body) := by
  funext ts
  induction hn : ts.length using Nat.strongRecOn generalizing ts with
  | ind n ih =>
    rw [finds_blockRest, bind_apply, statements_eq, byAhead]
    rcases ifToken_cases .rbrace (by decide) ts with ⟨hahead, hif⟩ | ⟨t, us, rfl, ht, hif⟩
    · rw [hif, byAhead]
      -- at the end of the input the statements are at their end too, and the brace is missed
      by_cases heof : ahead ts = .eof
      · rw [if_pos heof, if_pos (.inr heof), pure_apply, pure_bind, bind_apply,
          token_of_ne hahead]
        rfl
      · rw [if_neg heof, if_neg (not_or.mpr ⟨hahead, heof⟩), bind_apply, bind_apply]
        cases hfirst : finds stmt ts with
        | error stop => rfl
        | ok found =>
          obtain ⟨first, us⟩ := found
          have hless : us.length < n := hn ▸ finds_usesToken stmt _ _ _ hfirst
          show (do
            let others ← finds blockRest
            return first :: others : Finds (List Stmt)) us = _
          rw [bind_apply, ih _ hless us rfl]
          simp only [bind_apply, bind_assoc, pure_apply, pure_bind]
          rfl
    · rw [hif, ahead, if_pos (.inl ht)]
      simp only [pure_apply, pure_bind, bind_of_ok (token_cons ht us)]

/-! ## The levels of expressions -/

/-- An expression is a chain of the loosest level, or such a chain with a value assigned to it. -/
theorem finds_expr : finds expr = (do
    let target ← finds (binary BinaryOp.levels)
    ifToken .assign
      (do
        let value ← finds expr
        return .assign target value)
      (return target)) := by
  have hlevel := finds_readAt (show 0 ≠ 7 by decide)
  simp only [after_zero] at hlevel
  exact hlevel

/-- Below all levels of binary operators stands the unary expression. -/
theorem finds_binary_zero : finds (binary 0) = finds unary := by
  funext ts
  show outcome (binary 0 ts) = _
  rw [binary]
  rfl

/-- A chain of a level starts with a chain of the level below. -/
theorem finds_binary_succ (level : Nat) : finds (binary (level + 1)) = (do
    let lhs ← finds (binary level)
    findsAfter (chain level) lhs) := by
  funext ts
  show outcome (binary (level + 1) ts) = _
  rw [binary]
  exact finds_bind rfl fun lhs rest h => (chain_rounds level).1 lhs rest h

/-- A unary operator in front of a unary expression, or an expression with suffixes. -/
theorem finds_unary : finds unary = ifChosen UnaryOp.ofKind?
    (fun op => do
      let operand ← finds unary
      return .unary op operand)
    (finds suffixed) := by
  rw [← finds_binary_zero]
  exact finds_readAt_seven

/-- A primary expression with its suffixes. -/
theorem finds_suffixed : finds suffixed = (do
    let head ← finds primary
    findsAfter suffixes head) :=
  finds_readAt (show 8 ≠ 7 by decide)

end Quill.Grammar
