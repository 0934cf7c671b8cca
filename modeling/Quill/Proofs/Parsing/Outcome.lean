import Quill.Grammar.Reading

/-!
# What a reader finds

A reader carries in its type the bound that makes the grammar terminate. For what a reader finds
that bound is of no interest. `Reading.outcome` forgets it: an outcome is a stop, or a value with
the tokens after it, and outcomes can be compared whatever lists they come from.

Readers are put together by reading on. Each way to read on comes with two lemmas: one that takes
a successful reader apart (`..._eq_ok_iff`), and one that takes the next step of a reader where
the tokens are known (`..._of_ok`, `..._cons`).
-/

set_option autoImplicit false

namespace Quill

namespace Reading

variable {ts us : List Token} {α β γ : Type}

/-- What a reader finds, without the bound on the tokens left. -/
def outcome (found : Except Stop (Reading ts α)) : Except Stop (α × List Token) :=
  match found with
  | .ok reading => .ok (reading.value, reading.rest)
  | .error stop => .error stop

@[simp] theorem outcome_ok (reading : Reading ts α) :
    outcome (.ok reading) = .ok (reading.value, reading.rest) := rfl

@[simp] theorem outcome_pure (reading : Reading ts α) :
    outcome (pure reading) = .ok (reading.value, reading.rest) := rfl

@[simp] theorem outcome_error (stop : Stop) :
    outcome (.error stop : Except Stop (Reading ts α)) = .error stop := rfl

/-- A reader that succeeds has used a token. -/
theorem rest_length_lt {found : Except Stop (Reading ts α)} {value : α} {rest : List Token}
    (h : outcome found = .ok (value, rest)) : rest.length < ts.length := by
  cases found with
  | ok reading =>
    obtain ⟨-, rfl⟩ := Prod.mk.inj (Except.ok.inj h)
    exact reading.shorter
  | error stop => simp at h

/-! ## Reading on -/

/-- Reading in two parts succeeds exactly if both parts do. -/
theorem bind_eq_ok_iff {first : Except Stop (Reading ts α)}
    {second : Reading ts α → Except Stop (Reading us β)} {result : β × List Token} :
    outcome (first >>= second) = .ok result ↔
      ∃ value rest, ∃ h : outcome first = .ok (value, rest),
        outcome (second ⟨value, rest, rest_length_lt h⟩) = .ok result := by
  cases first with
  | ok reading =>
    constructor
    · intro h
      exact ⟨reading.value, reading.rest, rfl, h⟩
    · rintro ⟨value, rest, h, hsecond⟩
      obtain ⟨rfl, rfl⟩ := Prod.mk.inj (Except.ok.inj h)
      exact hsecond
  | error stop =>
    constructor
    · intro h
      simp [bind, Except.bind] at h
    · rintro ⟨value, rest, h, -⟩
      simp at h

/-- The first of two parts, read. -/
theorem bind_of_ok {first : Except Stop (Reading ts α)}
    {second : Reading ts α → Except Stop (Reading us β)} {value : α} {rest : List Token}
    (h : outcome first = .ok (value, rest)) :
    outcome (first >>= second) = outcome (second ⟨value, rest, rest_length_lt h⟩) := by
  cases first with
  | ok reading =>
    obtain ⟨rfl, rfl⟩ := Prod.mk.inj (Except.ok.inj h)
    rfl
  | error stop => simp at h

/-- Reading on finds what is found in the tokens left. -/
@[simp] theorem outcome_next {value : α} {rest : List Token} {h : rest.length < ts.length}
    (read : (vs : List Token) → vs.length < ts.length → Except Stop (Reading vs β)) :
    outcome (next ⟨value, rest, h⟩ read) = outcome (read rest h) := by
  unfold next
  cases read rest h <;> rfl

theorem next_bind_eq_ok_iff {value : α} {rest : List Token} {h : rest.length < ts.length}
    {read : (vs : List Token) → vs.length < ts.length → Except Stop (Reading vs β)}
    {second : Reading ts β → Except Stop (Reading us γ)} {result : γ × List Token} :
    outcome (next ⟨value, rest, h⟩ read >>= second) = .ok result ↔
      ∃ more left, ∃ hmore : outcome (read rest h) = .ok (more, left),
        outcome (second ⟨more, left, Nat.lt_trans (rest_length_lt hmore) h⟩) = .ok result := by
  rw [bind_eq_ok_iff]
  simp only [outcome_next]

/-- The further part, read. -/
theorem next_of_ok {value : α} {rest left : List Token} {h : rest.length < ts.length} {more : β}
    {read : (vs : List Token) → vs.length < ts.length → Except Stop (Reading vs β)}
    {second : Reading ts β → Except Stop (Reading us γ)}
    (hmore : outcome (read rest h) = .ok (more, left)) :
    outcome (next ⟨value, rest, h⟩ read >>= second) =
      outcome (second ⟨more, left, Nat.lt_trans (rest_length_lt hmore) h⟩) :=
  bind_of_ok ((outcome_next read).trans hmore)

/-- The value and the rest of a reading that was given another value. -/
theorem pure_give_eq_ok_iff {value : α} {other result : β} {rest left : List Token}
    {h : rest.length < ts.length} :
    outcome (pure (give ⟨value, rest, h⟩ other)) = .ok (result, left) ↔
      other = result ∧ rest = left := by
  rw [outcome_pure, Except.ok.injEq, Prod.mk.injEq]
  rfl

end Reading

namespace Grammar

open Reading (outcome)

variable {ts : List Token} {α β : Type}

/-! ## Single tokens -/

/-- The tokens after the first one are fewer. -/
theorem length_lt_of_eq_cons {t : Token} {us : List Token} (h : ts = t :: us) :
    us.length < ts.length := by
  rw [h]
  exact Nat.lt_succ_self _

theorem accept_cons {kind : Kind} {t : Token} {us : List Token} (h : t.kind = kind) :
    accept kind (t :: us) = some ⟨t, us, Nat.lt_succ_self _⟩ :=
  if_pos h

/-- No token of a kind is accepted where another kind is ahead. -/
theorem accept_eq_none {kind : Kind} (h : ahead ts ≠ kind) : accept kind ts = none := by
  cases ts with
  | nil => rfl
  | cons t us => exact if_neg h

/-- A token of a kind is accepted, or another kind is ahead. The end of the input is left out,
since it may be ahead with no token there. -/
theorem accept_cases (kind : Kind) (hkind : kind ≠ .eof) (ts : List Token) :
    (accept kind ts = none ∧ ahead ts ≠ kind) ∨
      ∃ t us, ∃ h : ts = t :: us, t.kind = kind ∧
        accept kind ts = some ⟨t, us, length_lt_of_eq_cons h⟩ := by
  cases ts with
  | nil => exact .inl ⟨rfl, Ne.symm hkind⟩
  | cons t us =>
    by_cases ht : t.kind = kind
    · exact .inr ⟨t, us, rfl, ht, accept_cons ht⟩
    · exact .inl ⟨accept_eq_none ht, ht⟩

theorem expect_cons {kind : Kind} {t : Token} {us : List Token} (h : t.kind = kind) :
    expect kind (t :: us) = .ok ⟨t, us, Nat.lt_succ_self _⟩ := by
  rw [expect, accept_cons h]

/-- A required token is there exactly if the list starts with one of the kind. -/
theorem expect_eq_ok_iff {kind : Kind} {t : Token} {rest : List Token} :
    outcome (expect kind ts) = .ok (t, rest) ↔ ts = t :: rest ∧ t.kind = kind := by
  constructor
  · intro h
    unfold expect at h
    cases ts with
    | nil => simp [accept] at h
    | cons u us =>
      by_cases hu : u.kind = kind
      · rw [accept_cons hu] at h
        obtain ⟨rfl, rfl⟩ := Prod.mk.inj (Except.ok.inj h)
        exact ⟨rfl, hu⟩
      · have hnone : accept kind (u :: us) = none := accept_eq_none hu
        simp [hnone] at h
  · rintro ⟨rfl, ht⟩
    rw [expect_cons ht]
    rfl

end Grammar

namespace Reading

variable {ts us : List Token} {α β : Type}

/-- Reading starts with a required token. -/
theorem expect_bind_eq_ok_iff {kind : Kind} {second : Reading ts Token → Except Stop (Reading us β)}
    {result : β × List Token} :
    outcome (Grammar.expect kind ts >>= second) = .ok result ↔
      ∃ t vs, ∃ h : ts = t :: vs, t.kind = kind ∧
        outcome (second ⟨t, vs, Grammar.length_lt_of_eq_cons h⟩) = .ok result := by
  rw [bind_eq_ok_iff]
  constructor
  · rintro ⟨t, vs, h, hsecond⟩
    obtain ⟨rfl, ht⟩ := Grammar.expect_eq_ok_iff.mp h
    exact ⟨t, vs, rfl, ht, hsecond⟩
  · rintro ⟨t, vs, rfl, ht, hsecond⟩
    exact ⟨t, vs, Grammar.expect_eq_ok_iff.mpr ⟨rfl, ht⟩, hsecond⟩

/-- The required token at the start, read. -/
theorem expect_of_cons {kind : Kind} {t : Token} {vs : List Token}
    {second : Reading (t :: vs) Token → Except Stop (Reading us β)} (h : t.kind = kind) :
    outcome (Grammar.expect kind (t :: vs) >>= second) =
      outcome (second ⟨t, vs, Nat.lt_succ_self _⟩) :=
  bind_of_ok (Grammar.expect_eq_ok_iff.mpr ⟨rfl, h⟩)

/-- Reading goes on with a required token. -/
theorem following_bind_eq_ok_iff {kind : Kind} {value : α} {rest : List Token}
    {h : rest.length < ts.length} {second : Reading ts Token → Except Stop (Reading us β)}
    {result : β × List Token} :
    outcome (expect kind ⟨value, rest, h⟩ >>= second) = .ok result ↔
      ∃ t vs, ∃ hrest : rest = t :: vs, t.kind = kind ∧
        outcome (second ⟨t, vs, by rw [hrest] at h; exact Nat.lt_of_succ_lt h⟩) = .ok result := by
  rw [expect, next_bind_eq_ok_iff]
  constructor
  · rintro ⟨t, vs, hmore, hsecond⟩
    obtain ⟨rfl, ht⟩ := Grammar.expect_eq_ok_iff.mp hmore
    exact ⟨t, vs, rfl, ht, hsecond⟩
  · rintro ⟨t, vs, rfl, ht, hsecond⟩
    exact ⟨t, vs, Grammar.expect_eq_ok_iff.mpr ⟨rfl, ht⟩, hsecond⟩

/-- The required token that follows, read. -/
theorem following_of_cons {kind : Kind} {value : α} {t : Token} {vs : List Token}
    {h : (t :: vs).length < ts.length} {second : Reading ts Token → Except Stop (Reading us β)}
    (ht : t.kind = kind) :
    outcome (expect kind ⟨value, t :: vs, h⟩ >>= second) =
      outcome (second ⟨t, vs, Nat.lt_of_succ_lt h⟩) :=
  next_of_ok (Grammar.expect_eq_ok_iff.mpr ⟨rfl, ht⟩)

theorem accept_of_cons {kind : Kind} {value : α} {t : Token} {vs : List Token}
    {h : (t :: vs).length < ts.length} (ht : t.kind = kind) :
    accept kind ⟨value, t :: vs, h⟩ = some ⟨t, vs, Nat.lt_of_succ_lt h⟩ := by
  rw [accept, Grammar.accept_cons ht]
  rfl

theorem accept_of_ne {kind : Kind} {value : α} {rest : List Token} {h : rest.length < ts.length}
    (hahead : Grammar.ahead rest ≠ kind) : accept kind ⟨value, rest, h⟩ = none := by
  rw [accept, Grammar.accept_eq_none hahead]
  rfl

/-- A token of a kind follows every reading that leaves a list, or another kind is ahead. -/
theorem accept_cases (kind : Kind) (hkind : kind ≠ .eof) (rest : List Token) :
    ((∀ {α : Type} {ts : List Token} (value : α) (h : rest.length < ts.length),
      accept kind ⟨value, rest, h⟩ = none) ∧ Grammar.ahead rest ≠ kind) ∨
    ∃ t vs, ∃ hrest : rest = t :: vs, t.kind = kind ∧
      ∀ {α : Type} {ts : List Token} (value : α) (h : rest.length < ts.length),
        accept kind ⟨value, rest, h⟩ =
          some ⟨t, vs, by rw [hrest] at h; exact Nat.lt_of_succ_lt h⟩ := by
  rcases Grammar.accept_cases kind hkind rest with ⟨-, hahead⟩ | ⟨t, vs, rfl, ht, -⟩
  · exact .inl ⟨fun _ _ => accept_of_ne hahead, hahead⟩
  · exact .inr ⟨t, vs, rfl, ht, fun _ _ => accept_of_cons ht⟩

end Reading

namespace Grammar

open Reading (outcome)

/-- A name is read exactly where a token of that kind stands. -/
theorem name_eq_ok_iff {ts rest : List Token} {text : String} :
    outcome (name ts) = .ok (text, rest) ↔
      ∃ t, ts = t :: rest ∧ t.kind = .ident ∧ t.text = text := by
  rw [name, Reading.expect_bind_eq_ok_iff]
  constructor
  · rintro ⟨t, us, rfl, hkind, h⟩
    obtain ⟨rfl, rfl⟩ := Reading.pure_give_eq_ok_iff.mp h
    exact ⟨t, rfl, hkind, rfl⟩
  · rintro ⟨t, rfl, hkind, rfl⟩
    exact ⟨t, rest, rfl, hkind, rfl⟩

theorem name_of_cons {t : Token} (h : t.kind = .ident) (us : List Token) :
    outcome (name (t :: us)) = .ok (t.text, us) :=
  name_eq_ok_iff.mpr ⟨t, rfl, h, rfl⟩

end Grammar

end Quill
