import Quill.Proofs.Parsing.Levels

/-!
# Reading expressions is deriving them

*Soundness* (`expr_sound`) is an induction on the number of tokens. Within one list it goes from
the last level to the first, since a level reads at the next one first; the loops of a level keep
the expression read so far derived, with the tokens it has used.

*Completeness* (`expr_complete`) is an induction on the derivation. An expression of a level can
be the left operand of a longer one, so its reader does not stop at its end, and what is claimed
of the reader of a level is that it comes to going on after the expression (`readAt_of_derives`).
One token decides whether it does go on: `continues?` is the level at which a token of a kind goes
on, and each kind has at most one.
-/

set_option autoImplicit false

namespace Quill.Grammar

open Reading (outcome)

/-! ## Soundness -/

/-- What the reader of a level uses derives what it gives. -/
def Sound (level : Nat) (ts : List Token) : Prop :=
  ∀ rest expr, outcome (readAt level ts) = .ok (expr, rest) →
    ∃ us, ts = us ++ rest ∧ DerivesExpr level us expr

section Soundness

variable {ts : List Token}

/-- An operand of one token uses that token. -/
theorem operand_sound {t : Token} {us rest : List Token} {tree expr : Expr}
    (htree : DerivesExpr 9 [t] tree)
    (h : outcome (.ok ⟨tree, us, Nat.lt_succ_self _⟩ : Except Stop (Reading (t :: us) Expr)) =
      .ok (expr, rest)) :
    ∃ vs, t :: us = vs ++ rest ∧ DerivesExpr 9 vs expr := by
  obtain ⟨rfl, rfl⟩ := Prod.mk.inj (Except.ok.inj h)
  exact ⟨[t], rfl, htree⟩

/-- What is read as a primary expression is derived, if this holds of every shorter list. -/
theorem primary_sound (below : ∀ us, us.length < ts.length → ∀ level ≤ 9, Sound level us) :
    Sound 9 ts := by
  intro rest expr h
  rw [readAt] at h
  cases ts with
  | nil => simp [primary] at h
  | cons t us =>
    rw [primary] at h
    split at h
    · rename_i ht
      exact operand_sound (.var ht) h
    · rename_i ht
      exact operand_sound (.number ht) h
    · rename_i ht
      exact operand_sound (.string ht) h
    · rename_i ht
      exact operand_sound (.kwTrue ht) h
    · rename_i ht
      exact operand_sound (.kwFalse ht) h
    · rename_i ht
      -- the expression in parentheses is read from a shorter list, at the loosest level
      obtain ⟨inner, vs, hinner, h⟩ := Reading.next_bind_eq_ok_iff.mp h
      obtain ⟨ws, rfl, hws⟩ := below us (Nat.lt_succ_self _) 0 (by decide) _ _ hinner
      obtain ⟨closing, xs, rfl, hclosing, h⟩ := Reading.following_bind_eq_ok_iff.mp h
      obtain ⟨rfl, rfl⟩ := Reading.pure_give_eq_ok_iff.mp h
      exact ⟨t :: (ws ++ [closing]), by simp, .paren ht hws hclosing⟩
    · simp at h

/-- The suffixes after an expression become part of it. -/
theorem suffixes_sound (below : ∀ us, us.length < ts.length → ∀ level ≤ 9, Sound level us)
    {us left rest : List Token} {head result : Expr} {hleft : left.length < ts.length}
    (hhead : DerivesExpr 8 us head)
    (h : outcome (suffixes (⟨head, left, hleft⟩ : Reading ts Expr)) = .ok (result, rest)) :
    ∃ vs, left = vs ++ rest ∧ DerivesExpr 8 (us ++ vs) result := by
  -- each suffix uses tokens, so there are fewer left for those after it
  induction hn : left.length using Nat.strongRecOn generalizing us left head with
  | ind n ih =>
    rw [suffixes] at h
    dsimp only at h
    split at h
    · split at h
      · obtain ⟨opening, vs, rfl, hopening, h⟩ := Reading.expect_bind_eq_ok_iff.mp h
        obtain ⟨args, ws, hargs, h⟩ := Reading.next_bind_eq_ok_iff.mp h
        have harg : ∀ us (hus : us.length ≤ vs.length) value rest,
            outcome (expr us) = .ok (value, rest) →
            ∃ xs, us = xs ++ rest ∧ DerivesExpr 0 xs value := fun us hus value rest h =>
          below us (Nat.lt_of_le_of_lt hus (Nat.lt_of_succ_lt hleft)) 0 (by decide) rest value h
        have hfewer : ws.length < n :=
          hn ▸ Nat.lt_succ_of_lt (Reading.rest_length_lt hargs)
        obtain ⟨parts, inner, closing, rfl, hclosing, hjoined, hparts, rfl⟩ :=
          closedList_sound (by decide) harg hargs
        obtain ⟨xs, rfl, hderives⟩ :=
          ih _ hfewer (.call hhead hopening hjoined hparts hclosing) h rfl
        exact ⟨opening :: (inner ++ closing :: xs), by simp, by simpa using hderives⟩
      · simp at h
    · obtain ⟨opening, vs, rfl, hopening, h⟩ := Reading.expect_bind_eq_ok_iff.mp h
      obtain ⟨position, ws, hposition, h⟩ := Reading.next_bind_eq_ok_iff.mp h
      have hshorter := Reading.rest_length_lt hposition
      obtain ⟨xs, rfl, hxs⟩ := below vs (Nat.lt_of_succ_lt hleft) 0 (by decide) _ _ hposition
      obtain ⟨closing, ys, rfl, hclosing, h⟩ := Reading.following_bind_eq_ok_iff.mp h
      have hfewer : ys.length < n := hn ▸ Nat.lt_succ_of_lt (Nat.lt_of_succ_lt hshorter)
      obtain ⟨zs, rfl, hderives⟩ := ih _ hfewer (.index hhead hopening hxs hclosing) h rfl
      exact ⟨opening :: (xs ++ closing :: zs), by simp, by simpa using hderives⟩
    · obtain ⟨dot, vs, rfl, hdot, h⟩ := Reading.expect_bind_eq_ok_iff.mp h
      obtain ⟨text, ws, hname, h⟩ := Reading.next_bind_eq_ok_iff.mp h
      obtain ⟨name, rfl, hkind, rfl⟩ := name_eq_ok_iff.mp hname
      have hfewer : ws.length < n := hn ▸ Nat.lt_succ_of_lt (Nat.lt_succ_self _)
      obtain ⟨xs, rfl, hderives⟩ := ih _ hfewer (.member hhead hdot hkind) h rfl
      exact ⟨dot :: name :: xs, rfl, by simpa using hderives⟩
    · obtain ⟨rfl, rfl⟩ := Prod.mk.inj (Except.ok.inj h)
      exact ⟨[], rfl, by simpa using hhead⟩

/-- The operators after a left operand, with their right operands, become part of it. -/
theorem chain_sound (below : ∀ us, us.length < ts.length → ∀ level ≤ 9, Sound level us)
    (op : BinaryOp) {us left rest : List Token} {lhs result : Expr}
    {hleft : left.length < ts.length} (hlhs : DerivesExpr op.level us lhs)
    (h : outcome (chain op.looseness (⟨lhs, left, hleft⟩ : Reading ts Expr)) =
      .ok (result, rest)) :
    ∃ vs, left = vs ++ rest ∧ DerivesExpr op.level (us ++ vs) result := by
  induction hn : left.length using Nat.strongRecOn generalizing us left lhs with
  | ind n ih =>
    rw [chain] at h
    rcases binaryOp_cases op.looseness left with
      hnone | ⟨sign, vs, other, rfl, hother, hlooseness, hsome⟩
    · simp only [hnone] at h
      obtain ⟨rfl, rfl⟩ := Prod.mk.inj (Except.ok.inj h)
      exact ⟨[], rfl, by simpa using hlhs⟩
    · simp only [hsome] at h
      obtain ⟨rhs, ws, hrhs, h⟩ := Reading.next_bind_eq_ok_iff.mp h
      have hlevel : op.level + 1 ≤ 9 := Nat.le_trans (Nat.succ_le_succ op.level_le) (by decide)
      have hsame := BinaryOp.level_eq_of_looseness_eq hlooseness
      have hfewer : ws.length < n := hn ▸ Nat.lt_succ_of_lt (Reading.rest_length_lt hrhs)
      rw [← readAt_level_succ] at hrhs
      obtain ⟨xs, rfl, hxs⟩ := below vs (Nat.lt_of_succ_lt hleft) _ hlevel _ _ hrhs
      -- the operator read need not be `op`, but it is of the same level
      have hwhole : DerivesExpr op.level (us ++ sign :: xs) (.binary other lhs rhs) := by
        rw [← hsame] at hlhs hxs ⊢
        exact .binary hlhs hother hxs
      obtain ⟨ys, rfl, hderives⟩ := ih _ hfewer hwhole h rfl
      exact ⟨sign :: (xs ++ ys), by simp, by simpa using hderives⟩

/-- An assignment after a target takes the target in. -/
theorem assigned_sound (below : ∀ us, us.length < ts.length → ∀ level ≤ 9, Sound level us)
    {us left rest : List Token} {target result : Expr} {hleft : left.length < ts.length}
    (htarget : DerivesExpr 1 us target)
    (h : outcome (assigned (⟨target, left, hleft⟩ : Reading ts Expr)) = .ok (result, rest)) :
    ∃ vs, left = vs ++ rest ∧ DerivesExpr 0 (us ++ vs) result := by
  rw [assigned] at h
  rcases Reading.accept_cases .assign (by decide) left with
    ⟨hnone, -⟩ | ⟨sign, vs, rfl, hsign, hsome⟩
  · simp only [hnone] at h
    obtain ⟨rfl, rfl⟩ := Prod.mk.inj (Except.ok.inj h)
    exact ⟨[], rfl, by simpa using htarget.lift⟩
  · simp only [hsome] at h
    obtain ⟨value, ws, hvalue, h⟩ := Reading.next_bind_eq_ok_iff.mp h
    obtain ⟨xs, rfl, hxs⟩ := below vs (Nat.lt_of_succ_lt hleft) 0 (by decide) _ _ hvalue
    obtain ⟨rfl, rfl⟩ := Reading.pure_give_eq_ok_iff.mp h
    exact ⟨sign :: xs, rfl, .assign htarget hsign hxs⟩

/-- What a level adds to an expression of the next level is derived at that level. -/
theorem goOn_sound (below : ∀ us, us.length < ts.length → ∀ level ≤ 9, Sound level us)
    {level : Nat} (hlevel : level ≤ 8) (h7 : level ≠ 7) {us left rest : List Token}
    {first result : Expr} {hleft : left.length < ts.length}
    (hfirst : DerivesExpr (level + 1) us first)
    (h : outcome (goOn level (⟨first, left, hleft⟩ : Reading ts Expr)) = .ok (result, rest)) :
    ∃ vs, left = vs ++ rest ∧ DerivesExpr level (us ++ vs) result := by
  rcases level_cases level with rfl | ⟨op, rfl⟩ | rfl | rfl | ⟨n, rfl⟩
  · exact assigned_sound below hfirst h
  · rw [goOn_level] at h
    exact chain_sound below op hfirst.lift h
  · exact absurd rfl h7
  · exact suffixes_sound below hfirst.lift h
  · omega

/-- What is read at the unary level is derived, if this holds of every shorter list and of the
suffixes. -/
theorem unary_sound (below : ∀ us, us.length < ts.length → ∀ level ≤ 9, Sound level us)
    (next : Sound 8 ts) : Sound 7 ts := by
  intro rest expr h
  rw [readAt_seven] at h
  rcases unaryOp_cases ts with hnone | ⟨sign, us, op, rfl, hop, hsome⟩
  · simp only [hnone] at h
    obtain ⟨us, rfl, hus⟩ := next _ _ h
    exact ⟨us, rfl, hus.lift⟩
  · simp only [hsome] at h
    obtain ⟨operand, vs, hoperand, h⟩ := Reading.next_bind_eq_ok_iff.mp h
    obtain ⟨ws, rfl, hws⟩ := below us (Nat.lt_succ_self _) 7 (by decide) _ _ hoperand
    obtain ⟨rfl, rfl⟩ := Reading.pure_give_eq_ok_iff.mp h
    exact ⟨sign :: ws, rfl, .unary hop hws⟩

/-- From the last level to the first: a level is sound if the next one is, and all levels are on
lists with fewer tokens. -/
theorem sound_of_below (below : ∀ us, us.length < ts.length → ∀ level ≤ 9, Sound level us)
    (above : Nat) {level : Nat} (hlevel : level + above = 9) : Sound level ts := by
  -- `above` counts the levels that come after this one
  induction above generalizing level with
  | zero =>
    obtain rfl : level = 9 := hlevel
    exact primary_sound below
  | succ above ih =>
    have next : Sound (level + 1) ts := ih (by omega)
    by_cases h7 : level = 7
    · subst h7
      exact unary_sound below next
    · intro rest expr h
      rw [readAt_eq_bind h7] at h
      obtain ⟨first, us, hfirst, h⟩ := Reading.bind_eq_ok_iff.mp h
      obtain ⟨vs, rfl, hvs⟩ := next _ _ hfirst
      obtain ⟨ws, rfl, hws⟩ := goOn_sound below (by omega) h7 hvs h
      exact ⟨vs ++ ws, by simp, hws⟩

end Soundness

/-- What is read at a level is derived at that level. -/
theorem readAt_sound (ts : List Token) {level : Nat} (hlevel : level ≤ 9) : Sound level ts := by
  induction hn : ts.length using Nat.strongRecOn generalizing ts level with
  | ind n ih =>
    refine sound_of_below (fun us hus level hlevel => ?_) (9 - level) (by omega)
    exact ih us.length (hn ▸ hus) us hlevel rfl

/-- What is read as an expression is derived at the loosest level. -/
theorem expr_sound {ts rest : List Token} {result : Expr}
    (h : outcome (expr ts) = .ok (result, rest)) :
    ∃ us, ts = us ++ rest ∧ DerivesExpr 0 us result :=
  readAt_sound ts (Nat.zero_le 9) rest result h

/-! ## Completeness -/

/-- The kinds of tokens that primary expressions start with. -/
def primaryStarts : List Kind :=
  [.ident, .number, .string, .kwTrue, .kwFalse, .lparen]

/-- An expression starts with a unary operator or like a primary expression; from level 8 on only
like a primary expression. -/
theorem DerivesExpr.starts {level : Nat} {us : List Token} {expr : Expr}
    (h : DerivesExpr level us expr) :
    ∃ t vs, us = t :: vs ∧
      (t.kind ∈ primaryStarts ∨ level ≤ 7 ∧ (UnaryOp.ofKind? t.kind).isSome) := by
  induction h with
  | lift _ ih =>
    obtain ⟨t, vs, rfl, ht⟩ := ih
    refine ⟨t, vs, rfl, ht.imp_right fun hop => ⟨?_, hop.2⟩⟩
    have := hop.1
    omega
  | assign _ _ _ ih =>
    obtain ⟨t, vs, rfl, ht⟩ := ih
    exact ⟨t, _, rfl, ht.imp_right fun hop => ⟨by decide, hop.2⟩⟩
  | binary _ _ _ ih =>
    obtain ⟨t, vs, rfl, ht⟩ := ih
    exact ⟨t, _, rfl, ht⟩
  | unary hop => exact ⟨_, _, rfl, .inr ⟨by decide, by simp [hop]⟩⟩
  | call _ _ _ _ _ ih =>
    obtain ⟨t, vs, rfl, ht⟩ := ih
    exact ⟨t, _, rfl, ht⟩
  | index _ _ _ _ ih =>
    obtain ⟨t, vs, rfl, ht⟩ := ih
    exact ⟨t, _, rfl, ht⟩
  | member _ _ _ ih =>
    obtain ⟨t, vs, rfl, ht⟩ := ih
    exact ⟨t, _, rfl, ht⟩
  | var ht => exact ⟨_, _, rfl, .inl (by simp [ht, primaryStarts])⟩
  | number ht => exact ⟨_, _, rfl, .inl (by simp [ht, primaryStarts])⟩
  | string ht => exact ⟨_, _, rfl, .inl (by simp [ht, primaryStarts])⟩
  | kwTrue ht => exact ⟨_, _, rfl, .inl (by simp [ht, primaryStarts])⟩
  | kwFalse ht => exact ⟨_, _, rfl, .inl (by simp [ht, primaryStarts])⟩
  | paren ht => exact ⟨_, _, rfl, .inl (by simp [ht, primaryStarts])⟩

/-- The kinds of tokens that an expression starts with. -/
def exprStarts : List Kind :=
  .bang :: .minus :: primaryStarts

/-- Every derived expression starts with a token of one of these kinds. -/
theorem DerivesExpr.starts_mem {level : Nat} {us : List Token} {expr : Expr}
    (h : DerivesExpr level us expr) : ∃ t vs, us = t :: vs ∧ t.kind ∈ exprStarts := by
  obtain ⟨t, vs, rfl, ht⟩ := h.starts
  refine ⟨t, vs, rfl, ?_⟩
  rcases ht with ht | ⟨-, ht⟩
  · exact List.mem_cons_of_mem _ (List.mem_cons_of_mem _ ht)
  · cases hkind : t.kind <;> simp [hkind, UnaryOp.ofKind?] at ht <;> decide

/-- The level at which a token of a kind goes on an expression before it, if it does. -/
def continues? : Kind → Option Nat
  | .assign => some 0
  | .lparen | .lbracket | .dot => some 8
  | kind => (BinaryOp.ofKind? kind).map BinaryOp.level

/-- An operator reads on at its own level. -/
theorem continues?_of_ofKind? {kind : Kind} {op : BinaryOp} (h : BinaryOp.ofKind? kind = some op) :
    continues? kind = some op.level := by
  cases kind <;> simp [BinaryOp.ofKind?] at h <;> subst h <;> rfl

/-- Nothing goes on at the level of unary operators, which stand in front. -/
theorem continues?_ne_seven (kind : Kind) : continues? kind ≠ some 7 := by
  cases kind <;> decide

/-- Whatever token is ahead goes on at an earlier level or at the same one. No assignment may be
ahead of an assignment. -/
def Allows (level : Nat) (rest : List Token) : Prop :=
  ∀ m, continues? (ahead rest) = some m → 0 < level ∧ m ≤ level

/-- A level stops where the token ahead does not go on at that level. -/
theorem goOn_of_ne {level : Nat} {ts rest : List Token} {expr : Expr}
    {hrest : rest.length < ts.length} (h : continues? (ahead rest) ≠ some level) :
    outcome (goOn level (⟨expr, rest, hrest⟩ : Reading ts Expr)) = .ok (expr, rest) := by
  rcases level_cases level with rfl | ⟨op, rfl⟩ | rfl | rfl | ⟨n, rfl⟩
  · have hahead : ahead rest ≠ .assign := by
      intro hassign
      rw [hassign] at h
      exact h rfl
    rw [goOn, assigned, Reading.accept_of_ne hahead]
    rfl
  · -- an operator ahead is of another level, and the chain of this one ends before it
    have hother : ∀ other, BinaryOp.ofKind? (ahead rest) = some other →
        other.looseness ≠ op.looseness := by
      intro other hother hlooseness
      rw [continues?_of_ofKind? hother, BinaryOp.level_eq_of_looseness_eq hlooseness] at h
      exact h rfl
    rw [goOn_level, chain, binaryOp_eq_none hother]
    rfl
  · rfl
  · rw [goOn, suffixes]
    dsimp only
    split
    · rename_i hparen
      rw [hparen] at h
      exact absurd rfl h
    · rename_i hbracket
      rw [hbracket] at h
      exact absurd rfl h
    · rename_i hdot
      rw [hdot] at h
      exact absurd rfl h
    · rfl
  · rfl

/-- Reading a derived expression comes to going on after it. -/
def Reads (rest : List Token) (level : Nat) (us : List Token) (expr : Expr) : Prop :=
  ∀ result,
    (∀ ts h, outcome (goOn level (⟨expr, rest, h⟩ : Reading ts Expr)) = result) →
      outcome (readAt level (us ++ rest)) = result

/-- Where nothing goes on at its level, the expression itself is found. -/
theorem Reads.stop {rest us : List Token} {level : Nat} {expr : Expr}
    (h : Reads rest level us expr) (hrest : continues? (ahead rest) ≠ some level) :
    outcome (readAt level (us ++ rest)) = .ok (expr, rest) :=
  h _ fun _ _ => goOn_of_ne hrest

/-- An expression that the reader of the next level finds. -/
theorem reads_of_next {level : Nat} {rest us : List Token} {tree : Expr}
    (hnext : DerivesExpr (level + 1) us tree)
    (hread : outcome (readAt (level + 1) (us ++ rest)) = .ok (tree, rest)) :
    Reads rest level us tree := by
  intro result hresult
  by_cases h7 : level = 7
  · subst h7
    -- no unary operator stands in front of an expression of level 8
    have hop : unaryOp (us ++ rest) = none := by
      obtain ⟨t, vs, rfl, ht⟩ := hnext.starts
      apply unaryOp_eq_none
      simp only [List.cons_append, ahead]
      rcases ht with ht | ⟨hle, -⟩
      · cases hkind : t.kind <;> simp [hkind, primaryStarts] at ht <;> rfl
      · omega
    rw [readAt_seven, hop, ← hresult (us ++ rest) (Reading.rest_length_lt hread)]
    exact hread
  · rw [readAt_eq_bind h7, Reading.bind_of_ok hread]
    exact hresult _ _

/-- An assignment whose target ends at the equals sign. -/
theorem reads_assign {us vs rest : List Token} {sign : Token} {target value : Expr}
    (hsign : sign.kind = .assign)
    (htarget : outcome (readAt 1 (us ++ sign :: (vs ++ rest))) =
      .ok (target, sign :: (vs ++ rest)))
    (hvalue : outcome (readAt 0 (vs ++ rest)) = .ok (value, rest))
    (hrest : continues? (ahead rest) ≠ some 0) :
    Reads rest 0 (us ++ sign :: vs) (.assign target value) := by
  intro result hresult
  rw [List.append_assoc, List.cons_append, readAt_eq_bind (by decide),
    Reading.bind_of_ok htarget, goOn, assigned, Reading.accept_of_cons hsign]
  dsimp only
  rw [readAt] at hvalue
  rw [Reading.next_of_ok hvalue, ← hresult (sign :: rest) (Nat.lt_succ_self _)]
  exact (goOn_of_ne hrest).symm

/-- After an operand nothing goes on at its level. -/
theorem reads_operand {rest us : List Token} {expr : Expr}
    (h : outcome (primary (us ++ rest)) = .ok (expr, rest)) : Reads rest 9 us expr := by
  intro result hresult
  rw [← hresult (us ++ rest) (Reading.rest_length_lt h)]
  exact h

/-- A token that goes on nothing may be ahead of every expression. -/
theorem allows_of_none {level : Nat} {rest : List Token} (h : continues? (ahead rest) = none) :
    Allows level rest := by
  intro m hm
  rw [h] at hm
  exact absurd hm (by simp)

/-- A token that goes on at an earlier level does not go on at the next level. -/
theorem Allows.continues?_ne {level next : Nat} {rest : List Token} (h : Allows level rest)
    (hnext : level < next) : continues? (ahead rest) ≠ some next := by
  intro hahead
  have := (h next hahead).2
  omega

/-- What may follow an expression may follow one of a tighter level. -/
theorem Allows.mono {level next : Nat} {rest : List Token} (h : Allows level rest)
    (hnext : level ≤ next) : Allows next rest := by
  intro m hm
  obtain ⟨hpos, hle⟩ := h m hm
  exact ⟨by omega, by omega⟩

/-- The token ahead goes on at one level only, which has to be after that of assignments. -/
theorem allows_of_kind {level m : Nat} {t : Token} {kind : Kind} {rest : List Token}
    (ht : t.kind = kind) (hkind : continues? kind = some m) (hpos : 0 < level) (hle : m ≤ level) :
    Allows level (t :: rest) := by
  intro k hk
  rw [ahead, ht] at hk
  obtain rfl := Option.some.inj (hkind.symm.trans hk)
  exact ⟨hpos, hle⟩

/-- What is read by going on is found before a token that goes on nothing. -/
theorem stop_before {level : Nat} {us rest : List Token} {tree : Expr} {closing : Token}
    {kind : Kind} (h : Allows level (closing :: rest) → Reads (closing :: rest) level us tree)
    (hclosing : closing.kind = kind) (hkind : continues? kind = none) :
    outcome (readAt level (us ++ closing :: rest)) = .ok (tree, closing :: rest) := by
  have hnone : continues? (ahead (closing :: rest)) = none := by
    rw [ahead, hclosing]
    exact hkind
  apply (h (allows_of_none hnone)).stop
  rw [hnone]
  simp

/-- Arguments that are read one by one are read up to the closing parenthesis. -/
theorem args_complete {args : List (List Token × Expr)} {inner : List Token} {closing : Token}
    (hclosing : closing.kind = .rparen) (hjoined : CommaJoined args inner)
    (hargs : ∀ arg ∈ args, DerivesExpr 0 arg.1 arg.2)
    (hread : ∀ arg ∈ args, ∀ us, continues? (ahead us) = none →
      outcome (expr (arg.1 ++ us)) = .ok (arg.2, us)) (rest : List Token) :
    outcome (closedList .rparen (inner ++ closing :: rest) fun us _ => expr us) =
      .ok (args.map Prod.snd, rest) := by
  have hstart : ∀ arg ∈ args, ∃ t us, arg.1 = t :: us ∧ t.kind ≠ .rparen := by
    intro arg harg
    obtain ⟨t, vs, hus, ht⟩ := (hargs arg harg).starts_mem
    refine ⟨t, vs, hus, ?_⟩
    rintro hkind
    rw [hkind] at ht
    exact absurd ht (by decide)
  apply closedList_complete (by decide) hclosing hjoined hstart
  intro arg harg us _ hus
  apply hread arg harg
  -- neither a comma nor a closing parenthesis goes on an expression
  rcases hus with hus | hus
  · rw [hus]
    rfl
  · rw [hus]
    rfl

/-- An expression of a level is read by the reader of the level, which then goes on. -/
theorem readAt_of_derives {level : Nat} {us : List Token} {tree : Expr}
    (h : DerivesExpr level us tree) {rest : List Token} (hrest : Allows level rest) :
    Reads rest level us tree := by
  induction h generalizing rest with
  | @lift level us tree hnext ih =>
    apply reads_of_next hnext
    -- the reader of the next level stops at `rest`, since nothing ahead goes on there
    exact (ih (hrest.mono (Nat.le_succ _))).stop (hrest.continues?_ne (Nat.lt_succ_self _))
  | @assign us vs sign target value _ hsign _ ihtarget ihvalue =>
    have hzero : continues? (ahead rest) ≠ some 0 := by
      intro hahead
      exact absurd (hrest 0 hahead).1 (Nat.lt_irrefl 0)
    have hahead : continues? (ahead (sign :: (vs ++ rest))) ≠ some 1 := by
      rw [ahead, hsign]
      decide
    have htarget := (ihtarget (allows_of_kind hsign rfl Nat.one_pos (Nat.zero_le _))).stop hahead
    exact reads_assign hsign htarget ((ihvalue hrest).stop hzero) hzero
  | @binary us vs sign op lhs rhs _ hop _ ihlhs ihrhs =>
    intro result hresult
    have hsign := continues?_of_ofKind? hop
    -- the left operand goes on with the operator and the right operand
    have hrhs := (ihrhs (hrest.mono (Nat.le_succ _))).stop
      (hrest.continues?_ne (Nat.lt_succ_self _))
    rw [List.append_assoc, List.cons_append]
    apply ihlhs (allows_of_kind rfl hsign op.level_pos (Nat.le_refl _))
    intro ts hts
    obtain ⟨hleft, hstep⟩ := goOn_of_operator hop lhs hts hrhs
    rw [hstep]
    exact hresult _ _
  | @unary us sign op operand hop _ ih =>
    intro result hresult
    rw [List.cons_append, readAt_seven, unaryOp_of_cons hop]
    simp only
    rw [Reading.next_of_ok ((ih hrest).stop (continues?_ne_seven _))]
    exact hresult (sign :: rest) (Nat.lt_succ_self _)
  | @call us inner opening closing callee args _ hopening hjoined hargs hclosing ihhead ihargs =>
    intro result hresult
    have hread : ∀ arg ∈ args, ∀ us, continues? (ahead us) = none →
        outcome (expr (arg.1 ++ us)) = .ok (arg.2, us) := by
      intro arg harg us hnone
      apply (ihargs arg harg (allows_of_none hnone)).stop
      rw [hnone]
      simp
    have hlist := args_complete hclosing hjoined hargs hread rest
    rw [List.append_assoc, List.cons_append, List.append_assoc, List.singleton_append]
    apply ihhead (allows_of_kind hopening rfl (by decide) (Nat.le_refl _))
    intro ts hts
    obtain ⟨hleft, hstep⟩ := goOn_of_call hopening callee hts hlist
    rw [hstep]
    exact hresult _ _
  | @index us vs opening closing array position _ hopening _ hclosing iharray ihposition =>
    intro result hresult
    have hposition : outcome (expr (vs ++ closing :: rest)) = .ok (position, closing :: rest) :=
      stop_before ihposition hclosing rfl
    rw [List.append_assoc, List.cons_append, List.append_assoc, List.singleton_append]
    apply iharray (allows_of_kind hopening rfl (by decide) (Nat.le_refl _))
    intro ts hts
    obtain ⟨hleft, hstep⟩ := goOn_of_index hopening hclosing array hts hposition
    rw [hstep]
    exact hresult _ _
  | @member us dot name object _ hdot hname ih =>
    intro result hresult
    rw [List.append_assoc, List.cons_append, List.singleton_append]
    apply ih (allows_of_kind hdot rfl (by decide) (Nat.le_refl _))
    intro ts hts
    obtain ⟨hleft, hstep⟩ := goOn_of_member hdot hname object hts
    rw [hstep]
    exact hresult _ _
  | @var name hname =>
    apply reads_operand
    rw [List.singleton_append, primary, hname]
    rfl
  | @number literal hkind =>
    apply reads_operand
    rw [List.singleton_append, primary, hkind]
    rfl
  | @string literal hkind =>
    apply reads_operand
    rw [List.singleton_append, primary, hkind]
    rfl
  | @kwTrue literal hkind =>
    apply reads_operand
    rw [List.singleton_append, primary, hkind]
    rfl
  | @kwFalse literal hkind =>
    apply reads_operand
    rw [List.singleton_append, primary, hkind]
    rfl
  | @paren us opening closing inner hopening _ hclosing ih =>
    have hinner : outcome (expr (us ++ closing :: rest)) = .ok (inner, closing :: rest) :=
      stop_before ih hclosing rfl
    apply reads_operand
    rw [List.cons_append, List.append_assoc, List.singleton_append, primary, hopening]
    dsimp only
    rw [Reading.next_of_ok hinner, Reading.following_of_cons hclosing]
    rfl

/-- A derived expression is read before a token that does not go on an expression. -/
theorem expr_complete {us rest : List Token} {result : Expr} {closing : Token} {kind : Kind}
    (h : DerivesExpr 0 us result) (hclosing : closing.kind = kind)
    (hkind : continues? kind = none) :
    outcome (expr (us ++ closing :: rest)) = .ok (result, closing :: rest) :=
  stop_before (readAt_of_derives h) hclosing hkind

end Quill.Grammar
