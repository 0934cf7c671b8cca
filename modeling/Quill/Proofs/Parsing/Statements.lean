import Quill.Grammar.Statements
import Quill.Proofs.Parsing.Expressions
import Quill.Proofs.Parsing.Types

/-!
# Reading statements is deriving them

The one place where the grammar leaves a choice is the `else`: after a statement that ends in a
conditional without an alternative it could go to that conditional or to one further out. The
reader takes it for the innermost one. So a statement read is never one that an `else` ahead could
still go on (`stmt_sound`), and a derived statement is read unless it is one (`stmt_complete`).
-/

set_option autoImplicit false

namespace Quill.Grammar

open Reading (outcome)

/-! ## Statements without statements inside -/

theorem letDecl_sound {ts rest : List Token} {decl : LetDecl}
    (h : outcome (letDecl ts) = .ok (decl, rest)) :
    ∃ us, ts = us ++ rest ∧ DerivesLet us decl := by
  rw [letDecl] at h
  obtain ⟨keyword, us, rfl, hkeyword, h⟩ := Reading.expect_bind_eq_ok_iff.mp h
  obtain ⟨binding, vs, hbinding, h⟩ := Reading.next_bind_eq_ok_iff.mp h
  obtain ⟨ws, rfl, hws⟩ := binder_sound hbinding
  rcases Reading.accept_cases .assign (by decide) vs with
    ⟨hnone, -⟩ | ⟨sign, xs, rfl, hsign, hsome⟩
  · simp only [hnone] at h
    obtain ⟨closing, ys, rfl, hclosing, h⟩ := Reading.following_bind_eq_ok_iff.mp h
    obtain ⟨rfl, rfl⟩ := Reading.pure_give_eq_ok_iff.mp h
    exact ⟨keyword :: (ws ++ [closing]), by simp, .bare hkeyword hws hclosing⟩
  · simp only [hsome] at h
    obtain ⟨value, ys, hvalue, h⟩ := Reading.next_bind_eq_ok_iff.mp h
    obtain ⟨zs, rfl, hzs⟩ := expr_sound hvalue
    obtain ⟨closing, ys, rfl, hclosing, h⟩ := Reading.following_bind_eq_ok_iff.mp h
    obtain ⟨rfl, rfl⟩ := Reading.pure_give_eq_ok_iff.mp h
    exact ⟨keyword :: (ws ++ sign :: (zs ++ [closing])), by simp,
      .valued hkeyword hws hsign hzs hclosing⟩

theorem letDecl_complete {us : List Token} {decl : LetDecl} (h : DerivesLet us decl)
    (rest : List Token) : outcome (letDecl (us ++ rest)) = .ok (decl, rest) := by
  cases h with
  | @bare us keyword closing binder hkeyword hbinder hclosing =>
    have hread : outcome (Grammar.binder (us ++ closing :: rest)) =
        .ok (binder, closing :: rest) :=
      binder_complete hbinder (by simp [ahead, hclosing]) (by simp [ahead, hclosing])
    rw [List.cons_append, List.append_assoc, List.singleton_append, letDecl,
      Reading.expect_of_cons hkeyword, Reading.next_of_ok hread,
      Reading.accept_of_ne (by simp [ahead, hclosing])]
    simp only
    rw [Reading.following_of_cons hclosing]
    rfl
  | @valued us vs keyword sign closing binder value hkeyword hbinder hsign hvalue hclosing =>
    have hread : outcome (Grammar.binder (us ++ sign :: (vs ++ closing :: rest))) =
        .ok (binder, sign :: (vs ++ closing :: rest)) :=
      binder_complete hbinder (by simp [ahead, hsign]) (by simp [ahead, hsign])
    have hvalue : outcome (expr (vs ++ closing :: rest)) = .ok (value, closing :: rest) :=
      expr_complete hvalue hclosing rfl
    rw [List.cons_append, List.append_assoc, List.cons_append, List.append_assoc,
      List.singleton_append, letDecl, Reading.expect_of_cons hkeyword, Reading.next_of_ok hread,
      Reading.accept_of_cons hsign]
    simp only
    rw [Reading.next_of_ok hvalue, Reading.following_of_cons hclosing]
    rfl

/-- A declaration of a variable starts with its keyword. -/
theorem DerivesLet.ahead_eq {us : List Token} {decl : LetDecl} (h : DerivesLet us decl)
    (rest : List Token) : ahead (us ++ rest) = .kwLet := by
  cases h with
  | bare hkeyword => exact hkeyword
  | valued hkeyword => exact hkeyword

theorem condition_sound {ts rest : List Token} {value : Expr}
    (h : outcome (condition ts) = .ok (value, rest)) :
    ∃ us, ts = us ++ rest ∧ DerivesCondition us value := by
  rw [condition] at h
  obtain ⟨opening, us, rfl, hopening, h⟩ := Reading.expect_bind_eq_ok_iff.mp h
  obtain ⟨inner, vs, hinner, h⟩ := Reading.next_bind_eq_ok_iff.mp h
  obtain ⟨ws, rfl, hws⟩ := expr_sound hinner
  obtain ⟨closing, xs, rfl, hclosing, h⟩ := Reading.following_bind_eq_ok_iff.mp h
  obtain ⟨rfl, rfl⟩ := Reading.pure_give_eq_ok_iff.mp h
  exact ⟨opening :: (ws ++ [closing]), by simp, .intro hopening hws hclosing⟩

theorem condition_complete {us : List Token} {value : Expr} (h : DerivesCondition us value)
    (rest : List Token) : outcome (condition (us ++ rest)) = .ok (value, rest) := by
  obtain @⟨us, opening, closing, _, hopening, hvalue, hclosing⟩ := h
  have hinner : outcome (expr (us ++ closing :: rest)) = .ok (value, closing :: rest) :=
    expr_complete hvalue hclosing rfl
  rw [List.cons_append, List.append_assoc, List.singleton_append, condition,
    Reading.expect_of_cons hopening, Reading.next_of_ok hinner,
    Reading.following_of_cons hclosing]
  rfl

theorem returnStmt_sound {ts rest : List Token} {stmt : Stmt}
    (h : outcome (returnStmt ts) = .ok (stmt, rest)) :
    ∃ us, ts = us ++ rest ∧ DerivesStmt us stmt ∧ stmt.endsOpen = false := by
  rw [returnStmt] at h
  obtain ⟨keyword, us, rfl, hkeyword, h⟩ := Reading.expect_bind_eq_ok_iff.mp h
  rcases Reading.accept_cases .semicolon (by decide) us with
    ⟨hnone, -⟩ | ⟨closing, vs, rfl, hclosing, hsome⟩
  · simp only [hnone] at h
    obtain ⟨value, vs, hvalue, h⟩ := Reading.next_bind_eq_ok_iff.mp h
    obtain ⟨ws, rfl, hws⟩ := expr_sound hvalue
    obtain ⟨closing, xs, rfl, hclosing, h⟩ := Reading.following_bind_eq_ok_iff.mp h
    obtain ⟨rfl, rfl⟩ := Reading.pure_give_eq_ok_iff.mp h
    exact ⟨keyword :: (ws ++ [closing]), by simp, .ret hkeyword hws hclosing, rfl⟩
  · simp only [hsome] at h
    obtain ⟨rfl, rfl⟩ := Reading.pure_give_eq_ok_iff.mp h
    exact ⟨[keyword, closing], rfl, .leave hkeyword hclosing, rfl⟩

theorem exprStmt_sound {ts rest : List Token} {stmt : Stmt}
    (h : outcome (exprStmt ts) = .ok (stmt, rest)) :
    ∃ us, ts = us ++ rest ∧ DerivesStmt us stmt ∧ stmt.endsOpen = false := by
  rw [exprStmt] at h
  obtain ⟨value, us, hvalue, h⟩ := Reading.bind_eq_ok_iff.mp h
  obtain ⟨vs, rfl, hvs⟩ := expr_sound hvalue
  obtain ⟨closing, ws, rfl, hclosing, h⟩ := Reading.following_bind_eq_ok_iff.mp h
  obtain ⟨rfl, rfl⟩ := Reading.pure_give_eq_ok_iff.mp h
  exact ⟨vs ++ [closing], by simp, .expr hvs hclosing, rfl⟩

/-! ## Soundness -/

/-- What the reader of statements uses derives what it gives, which an `else` ahead could not go
on. -/
def SoundStmt (ts : List Token) : Prop :=
  ∀ rest stmt, outcome (Grammar.stmt ts) = .ok (stmt, rest) →
    ∃ us, ts = us ++ rest ∧ DerivesStmt us stmt ∧ (stmt.endsOpen = true → ahead rest ≠ .kwElse)

section Soundness

variable {ts : List Token} (below : ∀ us, us.length < ts.length → SoundStmt us)

include below

/-- What is read as a conditional is derived, and an `else` ahead could not go on it. -/
theorem conditional_sound {rest : List Token} {stmt : Stmt}
    (h : outcome (conditional ts) = .ok (stmt, rest)) :
    ∃ us, ts = us ++ rest ∧ DerivesStmt us stmt ∧
      (stmt.endsOpen = true → ahead rest ≠ .kwElse) := by
  rw [conditional] at h
  obtain ⟨keyword, us, rfl, hkeyword, h⟩ := Reading.expect_bind_eq_ok_iff.mp h
  obtain ⟨test, vs, htest, h⟩ := Reading.next_bind_eq_ok_iff.mp h
  have hvs : vs.length < (keyword :: us).length :=
    Nat.lt_succ_of_lt (Reading.rest_length_lt htest)
  obtain ⟨cs, rfl, hcs⟩ := condition_sound htest
  obtain ⟨body, ws, hbody, h⟩ := Reading.next_bind_eq_ok_iff.mp h
  have hws := Nat.lt_trans (Reading.rest_length_lt hbody) hvs
  obtain ⟨bs, rfl, hbs, hopen⟩ := below vs hvs _ _ hbody
  rcases Reading.accept_cases .kwElse (by decide) ws with
    ⟨hnone, hahead⟩ | ⟨other, xs, rfl, hother, hsome⟩
  · simp only [hnone] at h
    obtain ⟨rfl, rfl⟩ := Reading.pure_give_eq_ok_iff.mp h
    exact ⟨keyword :: (cs ++ bs), by simp, .ifThen hkeyword hcs hbs, fun _ => hahead⟩
  · simp only [hsome] at h
    obtain ⟨alternative, ys, halternative, h⟩ := Reading.next_bind_eq_ok_iff.mp h
    obtain ⟨rfl, rfl⟩ := Reading.pure_give_eq_ok_iff.mp h
    -- the `else` that was read would have gone to the body, had the body been open
    have hclosed : body.endsOpen = false := by
      rw [Bool.eq_false_iff]
      intro htrue
      exact hopen htrue hother
    obtain ⟨as, rfl, has, hopen'⟩ := below xs (Nat.lt_of_succ_lt hws) _ _ halternative
    exact ⟨keyword :: (cs ++ (bs ++ other :: as)), by simp,
      .ifElse hkeyword hcs hbs hclosed hother has, hopen'⟩

theorem loop_sound {rest : List Token} {stmt : Stmt}
    (h : outcome (loop ts) = .ok (stmt, rest)) :
    ∃ us, ts = us ++ rest ∧ DerivesStmt us stmt ∧
      (stmt.endsOpen = true → ahead rest ≠ .kwElse) := by
  rw [loop] at h
  obtain ⟨keyword, us, rfl, hkeyword, h⟩ := Reading.expect_bind_eq_ok_iff.mp h
  obtain ⟨test, vs, htest, h⟩ := Reading.next_bind_eq_ok_iff.mp h
  have hvs : vs.length < (keyword :: us).length :=
    Nat.lt_succ_of_lt (Reading.rest_length_lt htest)
  obtain ⟨cs, rfl, hcs⟩ := condition_sound htest
  obtain ⟨body, ws, hbody, h⟩ := Reading.next_bind_eq_ok_iff.mp h
  obtain ⟨bs, rfl, hbs, hopen⟩ := below vs hvs _ _ hbody
  obtain ⟨rfl, rfl⟩ := Reading.pure_give_eq_ok_iff.mp h
  exact ⟨keyword :: (cs ++ bs), by simp, .whileDo hkeyword hcs hbs, hopen⟩

/-- The statements of a block, one after another up to the closing brace. -/
theorem blockRest_sound {us rest : List Token} {body : List Stmt} (hus : us.length < ts.length)
    (h : outcome (blockRest us) = .ok (body, rest)) :
    ∃ (parts : List (List Token × Stmt)) (closing : Token),
      us = parts.flatMap Prod.fst ++ closing :: rest ∧ closing.kind = .rbrace ∧
      (∀ part ∈ parts, DerivesStmt part.1 part.2) ∧ parts.map Prod.snd = body := by
  induction hn : us.length using Nat.strongRecOn generalizing us body with
  | ind n ih =>
    rw [blockRest] at h
    rcases accept_cases .rbrace (by decide) us with
      ⟨hnone, -⟩ | ⟨closing, vs, rfl, hclosing, hsome⟩
    · simp only [hnone] at h
      split at h
      · simp at h
      · -- a statement of the block, and then its rest in a shorter list
        obtain ⟨first, vs, hfirst, h⟩ := Reading.bind_eq_ok_iff.mp h
        have hshort := Reading.rest_length_lt hfirst
        obtain ⟨ws, rfl, hws, -⟩ := below us hus _ _ hfirst
        obtain ⟨others, xs, hothers, h⟩ := Reading.next_bind_eq_ok_iff.mp h
        obtain ⟨rfl, rfl⟩ := Reading.pure_give_eq_ok_iff.mp h
        obtain ⟨parts, closing, rfl, hclosing, hparts, rfl⟩ :=
          ih vs.length (hn ▸ hshort) (Nat.lt_trans hshort hus) hothers rfl
        exact ⟨(ws, first) :: parts, closing, by simp, hclosing,
          List.forall_mem_cons.mpr ⟨hws, hparts⟩, rfl⟩
    · simp only [hsome] at h
      obtain ⟨rfl, rfl⟩ := Reading.pure_give_eq_ok_iff.mp h
      exact ⟨[], closing, rfl, hclosing, by simp, rfl⟩

theorem block_sound {rest : List Token} {body : List Stmt}
    (h : outcome (block ts) = .ok (body, rest)) :
    ∃ us, ts = us ++ rest ∧ DerivesStmt us (.block body) := by
  rw [block] at h
  obtain ⟨opening, us, rfl, hopening, h⟩ := Reading.expect_bind_eq_ok_iff.mp h
  rw [Reading.outcome_next] at h
  obtain ⟨parts, closing, rfl, hclosing, hparts, rfl⟩ :=
    blockRest_sound below (Nat.lt_succ_self _) h
  exact ⟨opening :: (parts.flatMap Prod.fst ++ [closing]), by simp,
    .block hopening hparts hclosing⟩

end Soundness

/-- What is read as a statement is derived, by induction on the number of tokens. -/
theorem stmt_sound (ts : List Token) : SoundStmt ts := by
  induction hn : ts.length using Nat.strongRecOn generalizing ts with
  | ind n ih =>
    have below : ∀ us, us.length < ts.length → SoundStmt us := fun us hus =>
      ih us.length (hn ▸ hus) us rfl
    -- what is claimed of the token ahead is of interest for open statements only
    have closed : ∀ {us rest : List Token} {stmt : Stmt},
        ts = us ++ rest ∧ DerivesStmt us stmt ∧ stmt.endsOpen = false →
        ts = us ++ rest ∧ DerivesStmt us stmt ∧
          (stmt.endsOpen = true → ahead rest ≠ .kwElse) := by
      rintro us rest stmt ⟨hts, hstmt, hclosed⟩
      refine ⟨hts, hstmt, fun hopen => ?_⟩
      rw [hclosed] at hopen
      exact absurd hopen (by decide)
    intro rest stmt h
    rw [Grammar.stmt] at h
    split at h
    · obtain ⟨decl, us, hdecl, h⟩ := Reading.bind_eq_ok_iff.mp h
      obtain ⟨rfl, rfl⟩ := Reading.pure_give_eq_ok_iff.mp h
      obtain ⟨vs, rfl, hvs⟩ := letDecl_sound hdecl
      exact ⟨vs, closed ⟨rfl, .letDecl hvs, rfl⟩⟩
    · exact conditional_sound below h
    · exact loop_sound below h
    · obtain ⟨us, hus⟩ := returnStmt_sound h
      exact ⟨us, closed hus⟩
    · obtain ⟨body, us, hbody, h⟩ := Reading.bind_eq_ok_iff.mp h
      obtain ⟨rfl, rfl⟩ := Reading.pure_give_eq_ok_iff.mp h
      obtain ⟨vs, rfl, hvs⟩ := block_sound below hbody
      exact ⟨vs, closed ⟨rfl, hvs, rfl⟩⟩
    · obtain ⟨us, hus⟩ := exprStmt_sound h
      exact ⟨us, closed hus⟩

/-! ## Completeness -/

/-- The kinds of tokens that a statement starts with. -/
def stmtStarts : List Kind :=
  .kwLet :: .kwIf :: .kwWhile :: .kwReturn :: .lbrace :: exprStarts

/-- Every derived statement starts with a token of one of these kinds. -/
theorem DerivesStmt.starts {us : List Token} {stmt : Stmt} (h : DerivesStmt us stmt) :
    ∃ t vs, us = t :: vs ∧ t.kind ∈ stmtStarts := by
  cases h with
  | letDecl h =>
    cases h with
    | bare hkeyword => exact ⟨_, _, rfl, by simp [hkeyword, stmtStarts]⟩
    | valued hkeyword => exact ⟨_, _, rfl, by simp [hkeyword, stmtStarts]⟩
  | expr h =>
    obtain ⟨t, vs, rfl, ht⟩ := h.starts_mem
    exact ⟨t, _, rfl, by simp [stmtStarts, ht]⟩
  | ifThen hkeyword => exact ⟨_, _, rfl, by simp [hkeyword, stmtStarts]⟩
  | ifElse hkeyword => exact ⟨_, _, rfl, by simp [hkeyword, stmtStarts]⟩
  | whileDo hkeyword => exact ⟨_, _, rfl, by simp [hkeyword, stmtStarts]⟩
  | leave hkeyword => exact ⟨_, _, rfl, by simp [hkeyword, stmtStarts]⟩
  | ret hkeyword => exact ⟨_, _, rfl, by simp [hkeyword, stmtStarts]⟩
  | block hopening => exact ⟨_, _, rfl, by simp [hopening, stmtStarts]⟩

/-- Where an expression starts, a statement is an expression. -/
theorem stmt_eq_exprStmt {ts : List Token} (h : ahead ts ∈ exprStarts) :
    stmt ts = exprStmt ts := by
  have hne : ∀ kind, kind ∉ exprStarts → ahead ts ≠ kind := by
    rintro kind hkind rfl
    exact hkind h
  rw [stmt]
  split
  · exact absurd ‹_› (hne .kwLet (by decide))
  · exact absurd ‹_› (hne .kwIf (by decide))
  · exact absurd ‹_› (hne .kwWhile (by decide))
  · exact absurd ‹_› (hne .kwReturn (by decide))
  · exact absurd ‹_› (hne .lbrace (by decide))
  · rfl

/-- The statements of a block are read one after another. None of them starts with an `else`, so
none of those before it is gone on by it. -/
theorem blockRest_complete {parts : List (List Token × Stmt)} {closing : Token}
    (hclosing : closing.kind = .rbrace) (rest : List Token)
    (hderives : ∀ part ∈ parts, DerivesStmt part.1 part.2)
    (hparts : ∀ part ∈ parts, ∀ us, ahead us ≠ .kwElse →
      outcome (stmt (part.1 ++ us)) = .ok (part.2, us)) :
    outcome (blockRest (parts.flatMap Prod.fst ++ closing :: rest)) =
      .ok (parts.map Prod.snd, rest) := by
  have hstart : ∀ part ∈ parts, ∀ us, ahead (part.1 ++ us) ∈ stmtStarts := by
    intro part hpart us
    obtain ⟨t, vs, hts, ht⟩ := (hderives part hpart).starts
    rw [hts]
    exact ht
  induction parts with
  | nil =>
    rw [List.flatMap_nil, List.nil_append, blockRest, accept_cons hclosing]
    rfl
  | cons first others ih =>
    have hfirst := hstart first List.mem_cons_self
    have hothers : ∀ part ∈ others, part ∈ first :: others := fun part =>
      List.mem_cons_of_mem first
    have hrest := ih (fun part h => hderives part (hothers part h))
      (fun part h => hparts part (hothers part h)) (fun part h => hstart part (hothers part h))
    -- what follows the first statement is the closing brace or another statement
    have hnext : ahead (others.flatMap Prod.fst ++ closing :: rest) ≠ .kwElse := by
      cases others with
      | nil =>
        simp only [List.flatMap_nil, List.nil_append, ahead, hclosing]
        decide
      | cons second others =>
        rw [List.flatMap_cons, List.append_assoc]
        intro helse
        have hsecond := hstart second (by simp) (others.flatMap Prod.fst ++ closing :: rest)
        rw [helse] at hsecond
        exact absurd hsecond (by decide)
    -- no statement starts with a closing brace, nor with the end of the input
    have hne : ∀ us kind, kind ∉ stmtStarts → ahead (first.1 ++ us) ≠ kind := by
      rintro us kind hkind rfl
      exact hkind (hfirst us)
    rw [List.flatMap_cons, List.append_assoc, blockRest,
      accept_eq_none (hne _ .rbrace (by decide))]
    simp only
    rw [if_neg (hne _ .eof (by decide)),
      Reading.bind_of_ok (hparts first List.mem_cons_self _ hnext), Reading.next_of_ok hrest]
    rfl

/-- A derived statement is read, unless an `else` follows that would go on it. -/
theorem stmt_complete {us : List Token} {tree : Stmt} (h : DerivesStmt us tree)
    {rest : List Token} (hrest : tree.endsOpen = true → ahead rest ≠ .kwElse) :
    outcome (stmt (us ++ rest)) = .ok (tree, rest) := by
  induction h generalizing rest with
  | @letDecl us decl h =>
    rw [stmt, h.ahead_eq rest]
    simp only
    rw [Reading.bind_of_ok (letDecl_complete h rest)]
    rfl
  | @expr us closing value hvalue hclosing =>
    obtain ⟨t, vs, rfl, ht⟩ := hvalue.starts_mem
    have hread : outcome (expr (t :: vs ++ closing :: rest)) = .ok (value, closing :: rest) :=
      expr_complete hvalue hclosing rfl
    have hahead : ahead (t :: vs ++ closing :: rest) ∈ exprStarts := ht
    rw [List.append_assoc, List.singleton_append, stmt_eq_exprStmt hahead, exprStmt,
      Reading.bind_of_ok hread, Reading.following_of_cons hclosing]
    rfl
  | @ifThen us vs keyword test body hkeyword htest _ ih =>
    -- an `else` ahead would be read as the one of this conditional
    have helse : ahead rest ≠ .kwElse := hrest rfl
    have hbody : outcome (stmt (vs ++ rest)) = .ok (body, rest) := ih fun _ => helse
    rw [List.cons_append, List.append_assoc, stmt, ahead, hkeyword]
    simp only
    rw [conditional, Reading.expect_of_cons hkeyword,
      Reading.next_of_ok (condition_complete htest (vs ++ rest)), Reading.next_of_ok hbody,
      Reading.accept_of_ne helse]
    rfl
  | @ifElse us vs ws keyword other test body alternative hkeyword htest _ hclosed hother _ ihbody
      ihother =>
    -- the body is not open, so it ends before the `else`
    have hbody : outcome (stmt (vs ++ other :: (ws ++ rest))) =
        .ok (body, other :: (ws ++ rest)) := by
      apply ihbody
      intro hopen
      rw [hclosed] at hopen
      exact absurd hopen (by decide)
    rw [List.cons_append, List.append_assoc, List.append_assoc, List.cons_append, stmt, ahead,
      hkeyword]
    simp only
    rw [conditional, Reading.expect_of_cons hkeyword,
      Reading.next_of_ok (condition_complete htest _), Reading.next_of_ok hbody,
      Reading.accept_of_cons hother]
    simp only
    rw [Reading.next_of_ok (ihother hrest)]
    rfl
  | @whileDo us vs keyword test body hkeyword htest _ ih =>
    rw [List.cons_append, List.append_assoc, stmt, ahead, hkeyword]
    simp only
    rw [loop, Reading.expect_of_cons hkeyword,
      Reading.next_of_ok (condition_complete htest (vs ++ rest)), Reading.next_of_ok (ih hrest)]
    rfl
  | @leave keyword closing hkeyword hclosing =>
    rw [List.cons_append, List.singleton_append, stmt, ahead, hkeyword]
    simp only
    rw [returnStmt, Reading.expect_of_cons hkeyword, Reading.accept_of_cons hclosing]
    rfl
  | @ret us keyword closing value hkeyword hvalue hclosing =>
    obtain ⟨t, vs, rfl, ht⟩ := hvalue.starts_mem
    have hread : outcome (expr (t :: vs ++ closing :: rest)) = .ok (value, closing :: rest) :=
      expr_complete hvalue hclosing rfl
    -- a value does not start with the semicolon that would leave it out
    have hahead : ahead (t :: vs ++ closing :: rest) ≠ .semicolon := by
      intro hkind
      rw [List.cons_append, ahead] at hkind
      rw [hkind] at ht
      exact absurd ht (by decide)
    rw [List.cons_append, List.append_assoc, List.singleton_append, stmt, ahead, hkeyword]
    simp only
    rw [returnStmt, Reading.expect_of_cons hkeyword, Reading.accept_of_ne hahead]
    simp only
    rw [Reading.next_of_ok hread, Reading.following_of_cons hclosing]
    rfl
  | @block opening closing body hopening hbody hclosing ih =>
    have hinner := blockRest_complete hclosing rest hbody
      fun part hpart us hus => ih part hpart fun _ => hus
    have hblock : outcome (block (opening :: (body.flatMap Prod.fst ++ closing :: rest))) =
        .ok (body.map Prod.snd, rest) := by
      rw [Grammar.block, ← hinner, Reading.expect_of_cons hopening, Reading.outcome_next]
    rw [List.cons_append, List.append_assoc, List.singleton_append, stmt, ahead, hopening]
    simp only
    rw [Reading.bind_of_ok hblock]
    rfl

theorem ahead_block {us : List Token} {body : List Stmt} (h : DerivesStmt us (.block body))
    (rest : List Token) : ahead (us ++ rest) = .lbrace := by
  cases h with
  | block hopening => exact hopening

/-- A derived block is read, whatever follows. -/
theorem block_complete {us : List Token} {body : List Stmt} (h : DerivesStmt us (.block body))
    (rest : List Token) : outcome (block (us ++ rest)) = .ok (body, rest) := by
  have hread : outcome (stmt (us ++ rest)) = .ok (.block body, rest) :=
    stmt_complete h fun hopen => absurd hopen (by simp [Stmt.endsOpen])
  rw [stmt, ahead_block h rest] at hread
  obtain ⟨inner, vs, hinner, hgive⟩ := Reading.bind_eq_ok_iff.mp hread
  obtain ⟨hbody, rfl⟩ := Reading.pure_give_eq_ok_iff.mp hgive
  obtain rfl := Stmt.block.inj hbody
  exact hinner

end Quill.Grammar
