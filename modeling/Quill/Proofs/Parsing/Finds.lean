import Quill.Proofs.Parsing.Outcome

/-!
# Readers as functions of the tokens

Without the bound that a reading carries, a reader is a function from token lists to outcomes
(`finds`). Such functions are put together with nothing to prove on the way: they run one after
another, and four of them look at the head of the list.

* `token`: uses the next token, which has to be of a kind.
* `halt`: stops at the next token.
* `byAhead`: goes on by the kind of the next token, and uses none.
* `ifChosen`: uses the next token if its kind is chosen; `ifToken` chooses one kind.

The lemmas `finds_...` turn a reader into such a function, one step of the reader at a time. What
reads on after a reading does not depend on the list from which that reading started, and
`findsAfter` forgets that list.
-/

set_option autoImplicit false

namespace Quill.Grammar

open Reading (outcome)

/-- What is found in a token list: a stop, or a value with the tokens left. -/
abbrev Finds (α : Type) := StateT (List Token) (Except Stop) α

section

variable {α β γ : Type}

/-- What a reader finds. -/
def finds (read : (ts : List Token) → Except Stop (Reading ts α)) : Finds α :=
  fun ts => outcome (read ts)

/-- The next token, which has to be of the given kind. -/
def token (kind : Kind) : Finds Token := finds (expect kind)

/-- A stop at the next token. -/
def halt (cause : SyntaxCause) : Finds α := fun ts => .error ⟨cause, ts⟩

/-- Goes on by the kind of the next token. -/
def byAhead (goOn : Kind → Finds α) : Finds α := fun ts => goOn (ahead ts) ts

/-- Uses the next token if its kind is chosen. -/
def ifChosen (choose : Kind → Option γ) (yes : γ → Finds α) (no : Finds α) : Finds α
  | [] => no []
  | t :: us =>
    match choose t.kind with
    | some choice => yes choice us
    | none => no (t :: us)

/-- The choice of one kind. -/
def exactly (kind other : Kind) : Option Unit :=
  if other = kind then some () else none

/-- Uses the next token if it is of the given kind. -/
def ifToken (kind : Kind) (yes no : Finds α) : Finds α :=
  ifChosen (exactly kind) (fun _ => yes) no

/-- What is found by reading on after a value, whatever list the value was read from. The list taken
here has one more token than are left, and no reader looks at it. -/
def findsAfter (goOn : {ts : List Token} → Reading ts α → Except Stop (Reading ts β)) (value : α) :
    Finds β :=
  fun rest => outcome (goOn (⟨value, rest, by simp⟩ :
    Reading (Token.eofAt Pos.start :: rest) α))

/-- A value is found only by using a token. -/
def UsesToken (find : Finds α) : Prop :=
  ∀ ts value rest, find ts = .ok (value, rest) → rest.length < ts.length

/-! ## Evaluation -/

/-- Readers in turn: the second reads what the first has left. -/
theorem bind_apply (head : Finds α) (tail : α → Finds β) (ts : List Token) :
    (head >>= tail) ts = (head ts >>= fun found => tail found.1 found.2) := rfl

/-- The first of two parts, found. -/
theorem bind_of_ok {head : Finds α} {tail : α → Finds β} {ts rest : List Token} {value : α}
    (h : head ts = .ok (value, rest)) : (head >>= tail) ts = tail value rest := by
  rw [bind_apply, h]
  rfl

/-- Two parts find something exactly if both do, one after the other. -/
theorem finds_bind_eq_ok_iff {head : Finds α} {tail : α → Finds β} {ts rest : List Token}
    {result : β} : (head >>= tail) ts = .ok (result, rest) ↔
      ∃ value us, head ts = .ok (value, us) ∧ tail value us = .ok (result, rest) := by
  rw [bind_apply]
  cases head ts with
  | ok found =>
    obtain ⟨value, us⟩ := found
    simp [bind, Except.bind, and_assoc]
  | error other => simp [bind, Except.bind]

/-- Two parts stop exactly if the first one does, or the second one after it. -/
theorem finds_bind_eq_error_iff {head : Finds α} {tail : α → Finds β} {ts : List Token}
    {stop : Stop} : (head >>= tail) ts = .error stop ↔ head ts = .error stop ∨
      ∃ value us, head ts = .ok (value, us) ∧ tail value us = .error stop := by
  rw [bind_apply]
  cases head ts with
  | ok found =>
    obtain ⟨value, us⟩ := found
    simp [bind, Except.bind, and_assoc]
  | error other => simp [bind, Except.bind]

/-- A token that is chosen is taken. -/
theorem ifChosen_cons {choose : Kind → Option γ} {yes : γ → Finds α} {no : Finds α} {t : Token}
    {choice : γ} (h : choose t.kind = some choice) (us : List Token) :
    ifChosen choose yes no (t :: us) = yes choice us := by
  rw [ifChosen, h]

/-- Without a choice no token is taken. -/
theorem ifChosen_eq_no {choose : Kind → Option γ} {yes : γ → Finds α} {no : Finds α}
    {ts : List Token} (h : choose (ahead ts) = none) : ifChosen choose yes no ts = no ts := by
  cases ts with
  | nil => rfl
  | cons t us =>
    rw [ahead] at h
    rw [ifChosen, h]

/-- A chosen token is used, or nothing chosen is ahead. The end of the input is left out, since it
may be ahead with no token there. -/
theorem ifChosen_cases {choose : Kind → Option γ} (heof : choose .eof = none) (ts : List Token) :
    (choose (ahead ts) = none ∧
      ∀ (yes : γ → Finds α) (no : Finds α), ifChosen choose yes no ts = no ts) ∨
    ∃ t us choice, ts = t :: us ∧ choose t.kind = some choice ∧
      ∀ (yes : γ → Finds α) (no : Finds α), ifChosen choose yes no ts = yes choice us := by
  cases hchoose : choose (ahead ts) with
  | none => exact .inl ⟨rfl, fun _ _ => ifChosen_eq_no hchoose⟩
  | some choice =>
    cases ts with
    | nil =>
      rw [ahead, heof] at hchoose
      simp at hchoose
    | cons t us => exact .inr ⟨t, us, choice, rfl, hchoose, fun _ _ => ifChosen_cons hchoose us⟩

theorem exactly_of_eq {kind other : Kind} (h : other = kind) : exactly kind other = some () :=
  if_pos h

theorem exactly_of_ne {kind other : Kind} (h : other ≠ kind) : exactly kind other = none :=
  if_neg h

/-- A token of the kind is taken. -/
theorem ifToken_cons {kind : Kind} {yes no : Finds α} {t : Token} (h : t.kind = kind)
    (us : List Token) : ifToken kind yes no (t :: us) = yes us :=
  ifChosen_cons (exactly_of_eq h) us

/-- Before another kind no token is taken. -/
theorem ifToken_of_ne {kind : Kind} {yes no : Finds α} {ts : List Token} (h : ahead ts ≠ kind) :
    ifToken kind yes no ts = no ts :=
  ifChosen_eq_no (exactly_of_ne h)

/-- A token of a kind is used, or another kind is ahead. -/
theorem ifToken_cases (kind : Kind) (hkind : kind ≠ .eof) (ts : List Token) :
    (ahead ts ≠ kind ∧ ∀ {α : Type} (yes no : Finds α), ifToken kind yes no ts = no ts) ∨
    ∃ t us, ts = t :: us ∧ t.kind = kind ∧
      ∀ {α : Type} (yes no : Finds α), ifToken kind yes no ts = yes us := by
  rcases accept_cases kind hkind ts with ⟨-, hahead⟩ | ⟨t, us, rfl, ht, -⟩
  · exact .inl ⟨hahead, fun _ _ => ifToken_of_ne hahead⟩
  · exact .inr ⟨t, us, rfl, ht, fun _ _ => ifToken_cons ht us⟩

/-- A token of the kind is found. -/
theorem token_cons {kind : Kind} {t : Token} (h : t.kind = kind) (us : List Token) :
    token kind (t :: us) = .ok (t, us) := by
  show outcome (expect kind (t :: us)) = _
  rw [expect_cons h]
  rfl

/-- Before another kind the token is missed, and no token is used. -/
theorem token_of_ne {kind : Kind} {ts : List Token} (h : ahead ts ≠ kind) :
    token kind ts = .error ⟨.expected kind, ts⟩ := by
  show outcome (expect kind ts) = _
  rw [expect, accept_eq_none h]
  rfl

/-- A missed token is missed for one cause, at the start of the list. -/
theorem eq_of_token_error {kind : Kind} {ts : List Token} {stop : Stop}
    (h : token kind ts = .error stop) : stop = ⟨.expected kind, ts⟩ := by
  change outcome (expect kind ts) = _ at h
  rw [expect] at h
  cases hfound : accept kind ts with
  | none =>
    rw [hfound] at h
    exact (Except.error.inj h).symm
  | some found =>
    rw [hfound] at h
    exact absurd h (by simp)

/-- A reader that succeeds uses a token, for its type says so. -/
theorem finds_usesToken (read : (ts : List Token) → Except Stop (Reading ts α)) :
    UsesToken (finds read) :=
  fun _ _ _ h => Reading.rest_length_lt h

/-! ## From readers to what they find -/

/-- A loop that reads on after a value does the same from every list, if one round of it does as
long as the rounds after it do. -/
theorem findsAfter_of_round {goOn : {ts : List Token} → Reading ts α → Except Stop (Reading ts β)}
    {round : α → Finds β}
    (hround : ∀ value rest,
      (∀ {us : List Token} more left h, left.length < rest.length →
        outcome (goOn (⟨more, left, h⟩ : Reading us α)) = findsAfter goOn more left) →
      ∀ {ts : List Token} h, outcome (goOn (⟨value, rest, h⟩ : Reading ts α)) = round value rest) :
    (∀ {ts : List Token} value rest h,
      outcome (goOn (⟨value, rest, h⟩ : Reading ts α)) = findsAfter goOn value rest) ∧
    ∀ value, findsAfter goOn value = round value := by
  have hall : ∀ {ts : List Token} value rest h,
      outcome (goOn (⟨value, rest, h⟩ : Reading ts α)) = round value rest := by
    intro ts value rest h
    -- a round leaves fewer tokens to the rounds after it
    induction hn : rest.length using Nat.strongRecOn generalizing ts value rest with
    | ind n ih =>
      apply hround
      intro us more left hleft hless
      have hless' := hn ▸ hless
      exact (ih _ hless' more left hleft rfl).trans (ih _ hless' more left _ rfl).symm
  have hround' : ∀ value, findsAfter goOn value = round value :=
    fun value => funext fun rest => hall value rest _
  refine ⟨fun value rest h => ?_, hround'⟩
  rw [hround', hall value rest h]

/-- Two parts of a reader, one after the other. -/
theorem finds_bind {ts us vs : List Token} {first : Except Stop (Reading ts α)}
    {second : Reading ts α → Except Stop (Reading us β)} {head : Finds α} {tail : α → Finds β}
    (hfirst : outcome first = head vs)
    (hsecond : ∀ value rest h, outcome (second ⟨value, rest, h⟩) = tail value rest) :
    outcome (first >>= second) = (head >>= tail) vs := by
  rw [bind_apply, ← hfirst]
  cases first with
  | ok reading => exact hsecond reading.value reading.rest reading.shorter
  | error stop => rfl

/-- A further reader after a reading, and what follows it. -/
theorem finds_next {ts us rest : List Token} {value : α} {h : rest.length < ts.length}
    {read : (ts : List Token) → Except Stop (Reading ts β)}
    {second : Reading ts β → Except Stop (Reading us γ)} {tail : β → Finds γ}
    (hsecond : ∀ value rest h, outcome (second ⟨value, rest, h⟩) = tail value rest) :
    outcome (Reading.next ⟨value, rest, h⟩ (fun us _ => read us) >>= second) =
      (finds read >>= tail) rest :=
  finds_bind (Reading.outcome_next _) hsecond

/-- A token that may be ahead. -/
theorem finds_accept {ts us : List Token} {kind : Kind}
    {yes : Reading ts Token → Except Stop (Reading us β)} {no : Except Stop (Reading us β)}
    {taken other : Finds β} (hkind : kind ≠ .eof)
    (hyes : ∀ t vs h, outcome (yes ⟨t, vs, h⟩) = taken vs) (hno : outcome no = other ts) :
    outcome (match accept kind ts with
      | some found => yes found
      | none => no) = ifToken kind taken other ts := by
  rcases accept_cases kind hkind ts with ⟨hnone, hahead⟩ | ⟨t, vs, rfl, rfl, hsome⟩
  · rw [hnone, ifToken_of_ne hahead]
    exact hno
  · rw [hsome, ifToken_cons rfl]
    exact hyes t vs _

/-- A token that may follow a reading. -/
theorem finds_following {ts us rest : List Token} {kind : Kind} {value : α}
    {h : rest.length < ts.length} {yes : Reading ts Token → Except Stop (Reading us β)}
    {no : Except Stop (Reading us β)} {taken other : Finds β} (hkind : kind ≠ .eof)
    (hyes : ∀ t vs h, outcome (yes ⟨t, vs, h⟩) = taken vs) (hno : outcome no = other rest) :
    outcome (match Reading.accept kind ⟨value, rest, h⟩ with
      | some found => yes found
      | none => no) = ifToken kind taken other rest := by
  rcases accept_cases kind hkind rest with ⟨-, hahead⟩ | ⟨t, vs, rfl, rfl, -⟩
  · rw [Reading.accept_of_ne hahead, ifToken_of_ne hahead]
    exact hno
  · rw [Reading.accept_of_cons rfl, ifToken_cons rfl]
    exact hyes t vs _

end

end Quill.Grammar
