import Quill.Grammar.Types
import Quill.Proofs.Parsing.Lists

/-!
# Reading names and types is deriving them

For each rule two facts. *Soundness*: what a reader uses derives what it gives. *Completeness*: a
reader finds what is derived, whatever follows, as long as the tokens that follow could not go on
the derivation. After a dotted name that is a dot, after a type also an opening bracket.
-/

set_option autoImplicit false

namespace Quill.Grammar

open Reading (outcome)

/-! ## Names -/

theorem segments_sound {ts rest : List Token} {names : List String}
    (h : outcome (segments ts) = .ok (names, rest)) :
    ∃ us, ts = us ++ rest ∧ DerivesSegments us names := by
  induction hn : ts.length using Nat.strongRecOn generalizing ts names with
  | ind n ih =>
    rw [segments] at h
    obtain ⟨first, us, hfirst, h⟩ := Reading.bind_eq_ok_iff.mp h
    have hfewer : us.length < n := hn ▸ Reading.rest_length_lt hfirst
    obtain ⟨t, rfl, ht, rfl⟩ := name_eq_ok_iff.mp hfirst
    rcases Reading.accept_cases .dot (by decide) us with
      ⟨hnone, -⟩ | ⟨dot, vs, rfl, hdot, hsome⟩
    · simp only [hnone] at h
      obtain ⟨rfl, rfl⟩ := Reading.pure_give_eq_ok_iff.mp h
      exact ⟨[t], rfl, .one ht⟩
    · simp only [hsome] at h
      obtain ⟨others, ws, hothers, h⟩ := Reading.next_bind_eq_ok_iff.mp h
      obtain ⟨rfl, rfl⟩ := Reading.pure_give_eq_ok_iff.mp h
      obtain ⟨us, rfl, hus⟩ := ih _ (Nat.lt_of_succ_lt hfewer) hothers rfl
      exact ⟨t :: dot :: us, rfl, .more ht hdot hus⟩

theorem segments_complete {us rest : List Token} {names : List String}
    (h : DerivesSegments us names) (hrest : ahead rest ≠ .dot) :
    outcome (segments (us ++ rest)) = .ok (names, rest) := by
  induction h with
  | @one t ht =>
    rw [List.singleton_append, segments, Reading.bind_of_ok (name_of_cons ht rest),
      Reading.accept_of_ne hrest]
    rfl
  | @more t dot us others ht hdot _ ih =>
    rw [List.cons_append, List.cons_append, segments,
      Reading.bind_of_ok (name_of_cons ht (dot :: (us ++ rest))), Reading.accept_of_cons hdot,
      Reading.next_of_ok ih]
    rfl

theorem qualifiedName_sound {ts rest : List Token} {name : QualifiedName}
    (h : outcome (qualifiedName ts) = .ok (name, rest)) :
    ∃ us, ts = us ++ rest ∧ DerivesSegments us name.segments := by
  rw [qualifiedName] at h
  obtain ⟨parts, us, hparts, h⟩ := Reading.bind_eq_ok_iff.mp h
  obtain ⟨rfl, rfl⟩ := Reading.pure_give_eq_ok_iff.mp h
  exact segments_sound hparts

theorem qualifiedName_complete {us rest : List Token} {names : List String}
    (h : DerivesSegments us names) (hrest : ahead rest ≠ .dot) :
    outcome (qualifiedName (us ++ rest)) = .ok (⟨names⟩, rest) := by
  rw [qualifiedName, Reading.bind_of_ok (segments_complete h hrest)]
  rfl

/-! ## Types -/

/-- The suffixes after a type add arrays to it. -/
theorem arraySuffixes_sound {ts us left rest : List Token} {type result : TypeExpr}
    {hleft : left.length < ts.length} (htype : DerivesType .type us type)
    (h : outcome (arraySuffixes (⟨type, left, hleft⟩ : Reading ts TypeExpr)) =
      .ok (result, rest)) :
    ∃ vs, left = vs ++ rest ∧ DerivesType .type (us ++ vs) result := by
  induction hn : left.length using Nat.strongRecOn generalizing us left type with
  | ind n ih =>
    rw [arraySuffixes] at h
    rcases accept_cases .lbracket (by decide) left with
      ⟨hnone, -⟩ | ⟨opening, vs, rfl, hopening, hsome⟩
    · simp only [hnone] at h
      obtain ⟨rfl, rfl⟩ := Prod.mk.inj (Except.ok.inj h)
      exact ⟨[], rfl, by simpa using htype⟩
    · simp only [hsome] at h
      obtain ⟨closing, ws, rfl, hclosing, h⟩ := Reading.following_bind_eq_ok_iff.mp h
      have hfewer : ws.length < n := hn ▸ Nat.lt_succ_of_lt (Nat.lt_succ_self _)
      obtain ⟨xs, rfl, hderives⟩ := ih _ hfewer (.array htype hopening hclosing) h rfl
      exact ⟨opening :: closing :: xs, rfl, by simpa using hderives⟩

theorem builtIn_eq_ok_iff {kind : Kind} {ts rest : List Token} {type : TypeExpr} :
    outcome (builtIn kind ts) = .ok (type, rest) ↔
      ∃ t, ts = t :: rest ∧ t.kind = kind ∧ .named t.text = type := by
  rw [builtIn, Reading.expect_bind_eq_ok_iff]
  constructor
  · rintro ⟨t, us, rfl, hkind, h⟩
    obtain ⟨rfl, rfl⟩ := Reading.pure_give_eq_ok_iff.mp h
    exact ⟨t, rfl, hkind, rfl⟩
  · rintro ⟨t, rfl, hkind, rfl⟩
    exact ⟨t, rest, rfl, hkind, rfl⟩

/-- A type without suffixes of its own, if types with fewer tokens are sound. -/
theorem simpleType_sound {ts rest : List Token} {type : TypeExpr}
    (below : ∀ us rest type, us.length < ts.length → outcome (typeExpr us) = .ok (type, rest) →
      ∃ vs, us = vs ++ rest ∧ DerivesType .type vs type)
    (h : outcome (simpleType ts) = .ok (type, rest)) :
    ∃ us, ts = us ++ rest ∧ DerivesType .simple us type := by
  rw [simpleType] at h
  split at h
  · obtain ⟨t, rfl, ht, rfl⟩ := builtIn_eq_ok_iff.mp h
    exact ⟨[t], rfl, .builtIn (.inl ht)⟩
  · obtain ⟨t, rfl, ht, rfl⟩ := builtIn_eq_ok_iff.mp h
    exact ⟨[t], rfl, .builtIn (.inr (.inl ht))⟩
  · obtain ⟨t, rfl, ht, rfl⟩ := builtIn_eq_ok_iff.mp h
    exact ⟨[t], rfl, .builtIn (.inr (.inr ht))⟩
  · obtain ⟨name, us, hname, h⟩ := Reading.bind_eq_ok_iff.mp h
    obtain ⟨rfl, rfl⟩ := Reading.pure_give_eq_ok_iff.mp h
    obtain ⟨vs, rfl, hvs⟩ := qualifiedName_sound hname
    exact ⟨vs, rfl, .segments hvs⟩
  · obtain ⟨opening, us, rfl, hopening, h⟩ := Reading.expect_bind_eq_ok_iff.mp h
    obtain ⟨inner, vs, hinner, h⟩ := Reading.next_bind_eq_ok_iff.mp h
    obtain ⟨ws, rfl, hws⟩ := below _ _ _ (Nat.lt_succ_self _) hinner
    obtain ⟨closing, xs, rfl, hclosing, h⟩ := Reading.following_bind_eq_ok_iff.mp h
    obtain ⟨rfl, rfl⟩ := Reading.pure_give_eq_ok_iff.mp h
    exact ⟨opening :: (ws ++ [closing]), by simp, .group hopening hws hclosing⟩
  · simp at h

theorem typeExpr_sound {ts rest : List Token} {type : TypeExpr}
    (h : outcome (typeExpr ts) = .ok (type, rest)) :
    ∃ us, ts = us ++ rest ∧ DerivesType .type us type := by
  induction hn : ts.length using Nat.strongRecOn generalizing ts rest type with
  | ind n ih =>
    rw [typeExpr] at h
    obtain ⟨first, us, hfirst, h⟩ := Reading.bind_eq_ok_iff.mp h
    have below : ∀ us rest type, us.length < ts.length →
        outcome (typeExpr us) = .ok (type, rest) →
        ∃ vs, us = vs ++ rest ∧ DerivesType .type vs type :=
      fun us rest type hus h => ih us.length (hn ▸ hus) h rfl
    obtain ⟨vs, rfl, hvs⟩ := simpleType_sound below hfirst
    obtain ⟨ws, rfl, hderives⟩ := arraySuffixes_sound (.simple hvs) h
    exact ⟨vs ++ ws, by simp, hderives⟩

/-- What reading a derived type comes to. A type with suffixes leaves it to the tokens that follow
whether there are more of them. -/
def ReadsType (rest : List Token) : TypeRule → List Token → TypeExpr → Prop
  | .type, us, type => ∀ result,
    (∀ ts h, outcome (arraySuffixes (⟨type, rest, h⟩ : Reading ts TypeExpr)) = result) →
      outcome (typeExpr (us ++ rest)) = result
  | .simple, us, type => outcome (simpleType (us ++ rest)) = .ok (type, rest)

theorem arraySuffixes_of_ne {ts rest : List Token} {type : TypeExpr}
    {h : rest.length < ts.length} (hrest : ahead rest ≠ .lbracket) :
    outcome (arraySuffixes (⟨type, rest, h⟩ : Reading ts TypeExpr)) = .ok (type, rest) := by
  rw [arraySuffixes, accept_eq_none hrest]
  rfl

theorem readsType {rule : TypeRule} {us : List Token} {type : TypeExpr}
    (h : DerivesType rule us type) {rest : List Token} (hrest : ahead rest ≠ .dot) :
    ReadsType rest rule us type := by
  induction h generalizing rest with
  | simple _ ih =>
    intro result hresult
    rw [typeExpr, Reading.bind_of_ok (ih hrest)]
    exact hresult _ _
  | @array us opening closing element _ hopening hclosing ih =>
    intro result hresult
    have hahead : ahead (opening :: closing :: rest) ≠ .dot := by
      rw [ahead, hopening]
      decide
    rw [List.append_assoc]
    -- the suffix goes on the element, and what goes on the array is read after it
    apply ih hahead
    intro ts h
    rw [arraySuffixes, accept_cons hopening]
    simp only
    rw [Reading.following_of_cons hclosing]
    exact hresult _ _
  | @builtIn t hkind =>
    show outcome (simpleType (t :: rest)) = _
    rcases hkind with ht | ht | ht
    all_goals
      rw [simpleType, ahead, ht]
      exact builtIn_eq_ok_iff.mpr ⟨t, rfl, ht, rfl⟩
  | @segments us names hus =>
    have hahead : ahead (us ++ rest) = .ident := by
      cases hus with
      | one ht => exact ht
      | more ht => exact ht
    show outcome (simpleType (us ++ rest)) = _
    rw [simpleType, hahead]
    simp only
    rw [Reading.bind_of_ok (qualifiedName_complete hus hrest)]
    rfl
  | @group us opening closing type hopening _ hclosing ih =>
    have hdot : ahead (closing :: rest) ≠ .dot := by
      rw [ahead, hclosing]
      decide
    have hbracket : ahead (closing :: rest) ≠ .lbracket := by
      rw [ahead, hclosing]
      decide
    -- neither a point nor a bracket follows the type in the parentheses
    have hinner : outcome (typeExpr (us ++ closing :: rest)) = .ok (type, closing :: rest) :=
      ih hdot _ fun ts h => arraySuffixes_of_ne hbracket
    show outcome (simpleType (opening :: (us ++ [closing] ++ rest))) = _
    rw [simpleType, ahead, hopening, List.append_assoc, List.singleton_append]
    simp only
    rw [Reading.expect_of_cons hopening, Reading.next_of_ok hinner,
      Reading.following_of_cons hclosing]
    rfl

/-- A derived type is read, unless a dot or an opening bracket follows. -/
theorem typeExpr_complete {us rest : List Token} {type : TypeExpr}
    (h : DerivesType .type us type) (hdot : ahead rest ≠ .dot) (hbracket : ahead rest ≠ .lbracket) :
    outcome (typeExpr (us ++ rest)) = .ok (type, rest) :=
  readsType h hdot _ fun _ _ => arraySuffixes_of_ne hbracket

/-! ## Binders -/

theorem binder_sound {ts rest : List Token} {result : Binder}
    (h : outcome (binder ts) = .ok (result, rest)) :
    ∃ us, ts = us ++ rest ∧ DerivesBinder us result := by
  rw [binder] at h
  obtain ⟨text, us, hname, h⟩ := Reading.bind_eq_ok_iff.mp h
  obtain ⟨name, rfl, hkind, rfl⟩ := name_eq_ok_iff.mp hname
  obtain ⟨colon, vs, rfl, hcolon, h⟩ := Reading.following_bind_eq_ok_iff.mp h
  obtain ⟨type, ws, htype, h⟩ := Reading.next_bind_eq_ok_iff.mp h
  obtain ⟨rfl, rfl⟩ := Reading.pure_give_eq_ok_iff.mp h
  obtain ⟨us, rfl, hus⟩ := typeExpr_sound htype
  exact ⟨name :: colon :: us, rfl, .intro hkind hcolon hus⟩

/-- A derived binder is read, unless a dot or an opening bracket follows. -/
theorem binder_complete {us rest : List Token} {result : Binder} (h : DerivesBinder us result)
    (hdot : ahead rest ≠ .dot) (hbracket : ahead rest ≠ .lbracket) :
    outcome (binder (us ++ rest)) = .ok (result, rest) := by
  obtain ⟨hname, hcolon, htype⟩ := h
  rw [List.cons_append, List.cons_append, binder, Reading.bind_of_ok (name_of_cons hname _),
    Reading.following_of_cons hcolon, Reading.next_of_ok (typeExpr_complete htype hdot hbracket)]
  rfl

theorem DerivesBinder.starts {us : List Token} {result : Binder} (h : DerivesBinder us result) :
    ∃ t vs, us = t :: vs ∧ t.kind = .ident := by
  obtain ⟨hname, -, -⟩ := h
  exact ⟨_, _, rfl, hname⟩

end Quill.Grammar
