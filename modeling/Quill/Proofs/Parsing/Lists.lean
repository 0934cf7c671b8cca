import Quill.Proofs.Parsing.Outcome
import Quill.Proofs.Parsing.Rules

/-!
# Lists with commas

Reading a list up to its closing token is sound and complete for `CommaJoined`, whatever its
elements are, as soon as reading one element is. Soundness asks of the elements that they derive
what they give. Completeness asks that each is read where a comma or the closing token follows,
and that none starts with the closing token: the reader takes that one for the end of the list.
-/

set_option autoImplicit false

namespace Quill.Grammar

open Reading (outcome)

section

variable {α : Type} {close : Kind}

/-- What a list of elements uses is the elements with their commas and the closing token. -/
theorem commaList_sound {derives : List Token → α → Prop} {ts rest : List Token} {values : List α}
    {element : (us : List Token) → us.length ≤ ts.length → Except Stop (Reading us α)}
    (helement : ∀ us hus value rest, outcome (element us hus) = .ok (value, rest) →
      ∃ vs, us = vs ++ rest ∧ derives vs value)
    (h : outcome (commaList close ts element) = .ok (values, rest)) :
    ∃ parts inner closing, ts = inner ++ closing :: rest ∧ closing.kind = close ∧
      CommaJoined parts inner ∧ (∀ part ∈ parts, derives part.1 part.2) ∧ parts ≠ [] ∧
      parts.map Prod.snd = values := by
  -- each element uses a token, so there are fewer left for the elements after its comma
  induction hn : ts.length using Nat.strongRecOn generalizing ts values with
  | ind n ih =>
    rw [commaList] at h
    obtain ⟨first, us, hfirst, h⟩ := Reading.bind_eq_ok_iff.mp h
    have hfewer : us.length < n := hn ▸ Reading.rest_length_lt hfirst
    obtain ⟨vs, rfl, hvs⟩ := helement _ _ _ _ hfirst
    rcases Reading.accept_cases .comma (by decide) us with
      ⟨hnone, -⟩ | ⟨comma, ws, rfl, hcomma, hsome⟩
    · simp only [hnone] at h
      obtain ⟨closing, xs, rfl, hclosing, h⟩ := Reading.following_bind_eq_ok_iff.mp h
      obtain ⟨rfl, rfl⟩ := Reading.pure_give_eq_ok_iff.mp h
      exact ⟨[(vs, first)], vs, closing, rfl, hclosing, .one, by simpa using hvs, by simp, rfl⟩
    · simp only [hsome] at h
      obtain ⟨others, xs, hothers, h⟩ := Reading.next_bind_eq_ok_iff.mp h
      obtain ⟨rfl, rfl⟩ := Reading.pure_give_eq_ok_iff.mp h
      obtain ⟨parts, inner, closing, rfl, hclosing, hjoined, hparts, hne, rfl⟩ :=
        ih _ (Nat.lt_of_succ_lt hfewer) (fun us hus => helement us _) hothers rfl
      obtain ⟨next, parts, rfl⟩ := List.exists_cons_of_ne_nil hne
      exact ⟨(vs, first) :: next :: parts, vs ++ comma :: inner, closing, by simp, hclosing,
        .more hcomma hjoined, List.forall_mem_cons.mpr ⟨hvs, hparts⟩, by simp, rfl⟩

/-- What a list, perhaps empty, uses is the elements with their commas and the closing token. -/
theorem closedList_sound {derives : List Token → α → Prop} (hclose : close ≠ .eof)
    {ts rest : List Token} {values : List α}
    {element : (us : List Token) → us.length ≤ ts.length → Except Stop (Reading us α)}
    (helement : ∀ us hus value rest, outcome (element us hus) = .ok (value, rest) →
      ∃ vs, us = vs ++ rest ∧ derives vs value)
    (h : outcome (closedList close ts element) = .ok (values, rest)) :
    ∃ parts inner closing, ts = inner ++ closing :: rest ∧ closing.kind = close ∧
      CommaJoined parts inner ∧ (∀ part ∈ parts, derives part.1 part.2) ∧
      parts.map Prod.snd = values := by
  rw [closedList] at h
  rcases accept_cases _ hclose ts with ⟨hnone, -⟩ | ⟨closing, us, rfl, hclosing, hsome⟩
  · rw [hnone] at h
    obtain ⟨parts, inner, closing, hts, hclosing, hjoined, hparts, -, hvalues⟩ :=
      commaList_sound helement h
    exact ⟨parts, inner, closing, hts, hclosing, hjoined, hparts, hvalues⟩
  · simp only [hsome] at h
    obtain ⟨rfl, rfl⟩ := Reading.pure_give_eq_ok_iff.mp h
    exact ⟨[], [], closing, rfl, hclosing, .none, by simp, rfl⟩

/-- A list of elements is read up to its closing token. -/
theorem commaList_complete (hclose : close ≠ .comma) {closing : Token}
    (hclosing : closing.kind = close) {rest : List Token} {parts : List (List Token × α)}
    {inner : List Token} (hjoined : CommaJoined parts inner) (hne : parts ≠ [])
    {element : (us : List Token) → us.length ≤ (inner ++ closing :: rest).length →
      Except Stop (Reading us α)}
    (helement : ∀ part ∈ parts, ∀ us hus, ahead us = .comma ∨ ahead us = close →
      outcome (element (part.1 ++ us) hus) = .ok (part.2, us)) :
    outcome (commaList close (inner ++ closing :: rest) element) =
      .ok (parts.map Prod.snd, rest) := by
  induction hjoined with
  | none => exact absurd rfl hne
  | @one part =>
    rw [commaList, Reading.bind_of_ok (helement part (by simp) (closing :: rest) _ (.inr hclosing)),
      Reading.accept_of_ne (by rw [ahead, hclosing]; exact hclose),
      Reading.following_of_cons hclosing]
    rfl
  | @more part next parts comma us hcomma _ ih =>
    -- the type of `element` speaks of the list that is rewritten
    revert element
    rw [List.append_assoc, List.cons_append]
    intro element helement
    rw [commaList, Reading.bind_of_ok (helement part (by simp) (comma :: (us ++ closing :: rest)) _
        (.inl hcomma)), Reading.accept_of_cons hcomma,
      Reading.next_of_ok (ih (by simp) fun part hpart us _ hus =>
        helement part (List.mem_cons_of_mem _ hpart) us _ hus)]
    rfl

/-- A list, perhaps empty, is read up to its closing token. -/
theorem closedList_complete (hclose : close ≠ .comma) {closing : Token}
    (hclosing : closing.kind = close) {rest : List Token} {parts : List (List Token × α)}
    {inner : List Token} (hjoined : CommaJoined parts inner)
    {element : (us : List Token) → us.length ≤ (inner ++ closing :: rest).length →
      Except Stop (Reading us α)}
    (hstart : ∀ part ∈ parts, ∃ t us, part.1 = t :: us ∧ t.kind ≠ close)
    (helement : ∀ part ∈ parts, ∀ us hus, ahead us = .comma ∨ ahead us = close →
      outcome (element (part.1 ++ us) hus) = .ok (part.2, us)) :
    outcome (closedList close (inner ++ closing :: rest) element) =
      .ok (parts.map Prod.snd, rest) := by
  by_cases hparts : parts = []
  · subst hparts
    cases hjoined
    simp only [List.nil_append, closedList, accept_cons hclosing]
    rfl
  · -- the first element starts with another token than the closing one
    have hahead : ahead (inner ++ closing :: rest) ≠ close := by
      cases hjoined with
      | none => exact absurd rfl hparts
      | @one part =>
        obtain ⟨t, us, hpart, ht⟩ := hstart part (by simp)
        rw [hpart]
        exact ht
      | @more part =>
        obtain ⟨t, us, hpart, ht⟩ := hstart part (by simp)
        rw [hpart]
        exact ht
    rw [closedList, accept_eq_none hahead]
    exact commaList_complete hclose hclosing hjoined hparts helement

end

end Quill.Grammar
