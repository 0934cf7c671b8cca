import Quill.Proofs.Parsing.Equations.Expressions
import Quill.Proofs.Parsing.Expressions
import Quill.Proofs.Parsing.Types

/-!
# What is used can be completed

Where a reader stops, it has used the beginning of something that its rule derives: some tokens
after those it has used make up a derivation (`Viable`). So no reader goes on past a token that
already makes a derivation impossible.

This follows one step of a reader at a time. What a step is to read can always be completed, and so
can the rest of the rule from there on, since every rule derives something.
-/

set_option autoImplicit false

namespace Quill.Grammar

section

variable {α β γ : Type} {n : Nat} {derives : List Token → α → Prop}

/-- A finder of what is derived. Something is derived, and in lists of fewer than `n` tokens the
finder stops only after tokens with which something derived begins. -/
structure Viable (n : Nat) (derives : List Token → α → Prop) (P : Finds α) : Prop where
  inhabited : ∃ us v, derives us v
  error : ∀ ts stop, ts.length < n → P ts = .error stop →
    ∃ used more v, ts = used ++ stop.rest ∧ derives (used ++ more) v

/-- Whatever is found is derived by the tokens used for it. -/
def Explains (derives : List Token → α → Prop) (P : Finds α) : Prop :=
  ∀ ts v rest, P ts = .ok (v, rest) → ∃ used, ts = used ++ rest ∧ derives used v

/-- Some token of a kind. -/
def sample (kind : Kind) : Token := ⟨kind, "", Pos.start⟩

/-! ## How readers are put together -/

theorem viable_zero {P : Finds α} (h : ∃ us v, derives us v) : Viable 0 derives P where
  inhabited := h
  error _ _ hts := absurd hts (Nat.not_lt_zero _)

theorem Viable.mono {m : Nat} {P : Finds α} (h : Viable n derives P) (hm : m ≤ n) :
    Viable m derives P where
  inhabited := h.inhabited
  error ts stop hts := h.error ts stop (Nat.lt_of_lt_of_le hts hm)

/-- A reader of what is derived by one rule is one of what another rule derives from it. -/
theorem Viable.weaken {derives' : List Token → α → Prop} {P : Finds α} (h : Viable n derives P)
    (hderives : ∀ us v, derives us v → derives' us v) : Viable n derives' P where
  inhabited := by
    obtain ⟨us, v, hus⟩ := h.inhabited
    exact ⟨us, v, hderives us v hus⟩
  error ts stop hts hP := by
    obtain ⟨used, more, v, hused, hmore⟩ := h.error ts stop hts hP
    exact ⟨used, more, v, hused, hderives _ _ hmore⟩

theorem viable_pure {v : α} (h : derives [] v) : Viable n derives (pure v) where
  inhabited := ⟨[], v, h⟩
  error _ _ _ hP := nomatch hP

/-- A reader that stops at once has used nothing, and something derived begins with nothing. -/
theorem viable_halt {cause : SyntaxCause} (h : ∃ us v, derives us v) :
    Viable n derives (halt cause) where
  inhabited := h
  error ts stop _ hP := by
    obtain rfl := Except.error.inj hP
    obtain ⟨us, v, hus⟩ := h
    exact ⟨[], us, v, rfl, hus⟩

/-- Two parts, one after the other. Whatever the first part derives can be gone on with, and where
the second part stops after what the first one found, the tokens of both can be completed. -/
theorem Viable.bind_of_ok {derives' : List Token → β → Prop} {P : Finds α} {Q : α → Finds β}
    (hP : Viable n derives P)
    (hnext : ∀ used v, derives used v → ∃ us w, derives' (used ++ us) w)
    (hQ : ∀ ts v rest stop, ts.length < n → P ts = .ok (v, rest) → Q v rest = .error stop →
      ∃ used more w, ts = used ++ stop.rest ∧ derives' (used ++ more) w) :
    Viable n derives' (P >>= Q) where
  inhabited := by
    obtain ⟨used, v, hv⟩ := hP.inhabited
    obtain ⟨us, w, hw⟩ := hnext used v hv
    exact ⟨used ++ us, w, hw⟩
  error ts stop hts h := by
    rcases finds_bind_eq_error_iff.mp h with hfirst | ⟨v, rest, hv, hstop⟩
    · -- the first part can be completed, and then gone on with
      obtain ⟨used, more, v, hused, hv⟩ := hP.error ts stop hts hfirst
      obtain ⟨us, w, hw⟩ := hnext _ v hv
      exact ⟨used, more ++ us, w, hused, by rwa [← List.append_assoc]⟩
    · exact hQ ts v rest stop hts hv hstop

/-- Two readers in turn: where the first stops, something for the second to read can be put after
what it would have read. -/
theorem Viable.bind_of_lt {m : Nat} {derives' : List Token → β → Prop} {P : Finds α}
    {Q : α → Finds β} (hP : Viable n derives P) (hexplains : Explains derives P)
    (hlength : ∀ ts v rest, ts.length < n → P ts = .ok (v, rest) → rest.length < m)
    (hQ : ∀ used v, derives used v → Viable m (fun us w => derives' (used ++ us) w) (Q v)) :
    Viable n derives' (P >>= Q) := by
  refine hP.bind_of_ok (fun used v hv => (hQ used v hv).inhabited) ?_
  intro ts v rest stop hts hv hstop
  have hrest := hlength ts v rest hts hv
  obtain ⟨used, rfl, hused⟩ := hexplains ts v rest hv
  obtain ⟨front, more, w, hfront, hmore⟩ := (hQ used v hused).error rest stop hrest hstop
  exact ⟨used ++ front, more, w, by simp [hfront], by rwa [List.append_assoc]⟩

theorem Viable.bind {derives' : List Token → β → Prop} {P : Finds α} {Q : α → Finds β}
    (hP : Viable n derives P) (hexplains : Explains derives P)
    (hQ : ∀ used v, derives used v → Viable n (fun us w => derives' (used ++ us) w) (Q v)) :
    Viable n derives' (P >>= Q) := by
  refine hP.bind_of_lt hexplains (fun ts v rest hts hv => ?_) hQ
  obtain ⟨used, rfl, -⟩ := hexplains ts v rest hv
  exact Nat.lt_of_le_of_lt (by simp) hts

/-- After a token is used, there are fewer tokens left. -/
theorem Viable.bind_fewer {derives' : List Token → β → Prop} {P : Finds α} {Q : α → Finds β}
    (hP : Viable (n + 1) derives P) (hexplains : Explains derives P) (huses : UsesToken P)
    (hQ : ∀ used v, derives used v → Viable n (fun us w => derives' (used ++ us) w) (Q v)) :
    Viable (n + 1) derives' (P >>= Q) := by
  refine hP.bind_of_lt hexplains (fun ts v rest hts hv => ?_) hQ
  have hfewer := huses ts v rest hv
  omega

/-! ## Single tokens -/

/-- What one token of a kind derives. -/
def IsToken (kind : Kind) (us : List Token) (t : Token) : Prop :=
  us = [t] ∧ t.kind = kind

theorem token_explains (kind : Kind) : Explains (IsToken kind) (token kind) := by
  intro ts t rest h
  obtain ⟨rfl, ht⟩ := expect_eq_ok_iff.mp h
  exact ⟨[t], rfl, rfl, ht⟩

/-- A token that is missed can be put there. -/
theorem viable_token (n : Nat) (kind : Kind) : Viable n (IsToken kind) (token kind) where
  inhabited := ⟨[sample kind], sample kind, rfl, rfl⟩
  error _ _ _ h := by
    obtain rfl := eq_of_token_error h
    exact ⟨[], [sample kind], sample kind, rfl, rfl, rfl⟩

/-- A required token, and what follows it. -/
theorem viable_token_bind {kind : Kind} {Q : Token → Finds α}
    (hQ : ∀ t, t.kind = kind → Viable n (fun us v => derives (t :: us) v) (Q t)) :
    Viable n derives (token kind >>= Q) := by
  refine (viable_token n kind).bind (token_explains kind) ?_
  rintro _ t ⟨rfl, ht⟩
  exact hQ t ht

/-- After a token the list is shorter, and the bound goes down by one. -/
theorem viable_token_fewer {kind : Kind} {Q : Token → Finds α}
    (hQ : ∀ t, t.kind = kind → Viable n (fun us v => derives (t :: us) v) (Q t)) :
    Viable (n + 1) derives (token kind >>= Q) := by
  refine (viable_token (n + 1) kind).bind_fewer (token_explains kind) (finds_usesToken _) ?_
  rintro _ t ⟨rfl, ht⟩
  exact hQ t ht

/-- A token that may be ahead, and what goes on without it. -/
theorem viable_ifChosen_fewer {choose : Kind → Option γ} (heof : choose .eof = none)
    {yes : γ → Finds α} {no : Finds α}
    (hyes : ∀ t choice, choose t.kind = some choice →
      Viable n (fun us v => derives (t :: us) v) (yes choice))
    (hno : Viable (n + 1) derives no) : Viable (n + 1) derives (ifChosen choose yes no) where
  inhabited := hno.inhabited
  error ts stop hts h := by
    rcases ifChosen_cases heof ts with ⟨-, heq⟩ | ⟨t, us, choice, rfl, hchoice, heq⟩
    · rw [heq] at h
      exact hno.error ts stop hts h
    · rw [heq] at h
      obtain ⟨used, more, v, rfl, hv⟩ :=
        (hyes t choice hchoice).error us stop (Nat.lt_of_succ_lt_succ hts) h
      exact ⟨t :: used, more, v, rfl, hv⟩

theorem viable_ifToken_fewer {kind : Kind} (hkind : kind ≠ .eof) {yes no : Finds α}
    (hyes : ∀ t, t.kind = kind → Viable n (fun us v => derives (t :: us) v) yes)
    (hno : Viable (n + 1) derives no) : Viable (n + 1) derives (ifToken kind yes no) := by
  refine viable_ifChosen_fewer (exactly_of_ne hkind.symm) (fun t choice hchoice => ?_) hno
  by_cases ht : t.kind = kind
  · exact hyes t ht
  · rw [exactly_of_ne ht] at hchoice
    exact absurd hchoice (by simp)

theorem viable_ifToken {kind : Kind} (hkind : kind ≠ .eof) {yes no : Finds α}
    (hyes : ∀ t, t.kind = kind → Viable n (fun us v => derives (t :: us) v) yes)
    (hno : Viable n derives no) : Viable n derives (ifToken kind yes no) := by
  cases n with
  | zero => exact viable_zero hno.inhabited
  | succ n => exact viable_ifToken_fewer hkind (fun t ht => (hyes t ht).mono (Nat.le_succ n)) hno

/-- A reader that decides by the kind ahead is one of what is derived if each of its branches is. -/
theorem viable_byAhead {goOn : Kind → Finds α} (h : ∀ kind, Viable n derives (goOn kind)) :
    Viable n derives (byAhead goOn) where
  inhabited := (h .eof).inhabited
  error ts := (h (ahead ts)).error ts

/-- A loop keeps on with what is derived, if each round of it does as long as the rounds after it
do. -/
theorem viable_loop {loop : α → Finds α}
    (hround : ∀ m ≤ n,
      (∀ us v, derives us v → Viable m (fun vs w => derives (us ++ vs) w) (loop v)) →
      ∀ us v, derives us v → Viable (m + 1) (fun vs w => derives (us ++ vs) w) (loop v))
    {us : List Token} {v : α} (h : derives us v) :
    Viable (n + 1) (fun vs w => derives (us ++ vs) w) (loop v) := by
  have hrounds : ∀ m ≤ n + 1, ∀ us v, derives us v →
      Viable m (fun vs w => derives (us ++ vs) w) (loop v) := by
    intro m
    induction m with
    | zero => exact fun _ us v hv => viable_zero ⟨[], v, by rwa [List.append_nil]⟩
    | succ m ih => exact fun hm => hround m (by omega) (ih (by omega))
  exact hrounds (n + 1) (Nat.le_refl _) us v h

end

/-! ## Names and types -/

/-- What the name in a token derives. -/
def IsNameToken (us : List Token) (text : String) : Prop :=
  ∃ t, us = [t] ∧ t.kind = .ident ∧ t.text = text

theorem name_explains : Explains IsNameToken (finds name) := by
  intro ts text rest h
  obtain ⟨t, rfl, ht, rfl⟩ := name_eq_ok_iff.mp h
  exact ⟨[t], rfl, t, rfl, ht, rfl⟩

theorem segments_explains : Explains DerivesSegments (finds segments) :=
  fun _ _ _ => segments_sound

theorem qualifiedName_explains :
    Explains (fun us name => DerivesSegments us name.segments) (finds qualifiedName) :=
  fun _ _ _ => qualifiedName_sound

theorem typeExpr_explains : Explains (DerivesType .type) (finds typeExpr) :=
  fun _ _ _ => typeExpr_sound

theorem binder_explains : Explains DerivesBinder (finds binder) :=
  fun _ _ _ => binder_sound

section

variable (n : Nat)

theorem viable_name : Viable n IsNameToken (finds name) := by
  rw [finds_name]
  refine viable_token_bind fun t ht => ?_
  exact viable_pure ⟨t, rfl, ht, rfl⟩

/-- A required name, and what follows it. -/
theorem viable_name_bind {α : Type} {n : Nat} {derives : List Token → α → Prop}
    {Q : String → Finds α}
    (hQ : ∀ t : Token, t.kind = .ident → Viable n (fun us v => derives (t :: us) v) (Q t.text)) :
    Viable n derives (finds name >>= Q) := by
  refine (viable_name n).bind name_explains ?_
  rintro _ _ ⟨t, rfl, ht, rfl⟩
  exact hQ t ht

theorem exists_segments : ∃ us names, DerivesSegments us names :=
  ⟨[sample .ident], _, .one rfl⟩

theorem viable_segments : Viable n DerivesSegments (finds segments) := by
  induction n with
  | zero => exact viable_zero exists_segments
  | succ n ih =>
    rw [finds_segments]
    refine viable_name_bind fun t ht => ?_
    refine viable_ifToken_fewer (by decide) (fun dot hdot => ?_) (viable_pure (.one ht))
    refine ih.bind segments_explains fun us names hus => ?_
    exact viable_pure (by simpa using .more ht hdot hus)

theorem viable_qualifiedName :
    Viable n (fun us name => DerivesSegments us name.segments) (finds qualifiedName) := by
  rw [finds_qualifiedName]
  refine (viable_segments n).bind segments_explains fun us names hus => ?_
  exact viable_pure (by simpa using hus)

theorem exists_type : ∃ us type, DerivesType .simple us type :=
  ⟨[sample .kwInt], _, .builtIn (.inl rfl)⟩

theorem viable_builtIn {kind : Kind} (h : kind = .kwInt ∨ kind = .kwBool ∨ kind = .kwString) :
    Viable n (DerivesType .simple) (finds (builtIn kind)) := by
  rw [finds_builtIn]
  refine viable_token_bind fun t ht => ?_
  exact viable_pure (.builtIn (by rwa [ht]))

theorem viable_arraySuffixes {us : List Token} {type : TypeExpr}
    (h : DerivesType .type us type) :
    Viable (n + 1) (fun vs other => DerivesType .type (us ++ vs) other)
      (findsAfter arraySuffixes type) := by
  refine viable_loop (fun m _ more us type h => ?_) h
  rw [arraySuffixes_rounds.2]
  refine viable_ifToken_fewer (by decide) (fun opening hopening => ?_)
    (viable_pure (by rwa [List.append_nil]))
  refine viable_token_bind fun closing hclosing => ?_
  -- the longer type is derived too, and the suffixes after it go on from there
  refine (more _ _ (.array h hopening hclosing)).weaken fun vs other hother => ?_
  simpa using hother

theorem viable_simpleType (below : Viable n (DerivesType .type) (finds typeExpr)) :
    Viable (n + 1) (DerivesType .simple) (finds simpleType) := by
  rw [finds_simpleType]
  refine viable_byAhead fun kind => ?_
  split
  · exact viable_builtIn _ (.inl rfl)
  · exact viable_builtIn _ (.inr (.inl rfl))
  · exact viable_builtIn _ (.inr (.inr rfl))
  · refine (viable_qualifiedName _).bind qualifiedName_explains fun us name hus => ?_
    exact viable_pure (by simpa using .segments hus)
  · refine viable_token_fewer fun opening hopening => ?_
    refine below.bind typeExpr_explains fun us type hus => ?_
    refine viable_token_bind fun closing hclosing => ?_
    exact viable_pure (.group hopening hus hclosing)
  · exact viable_halt exists_type

theorem viable_typeExpr : Viable n (DerivesType .type) (finds typeExpr) := by
  induction n with
  | zero =>
    obtain ⟨us, type, hus⟩ := exists_type
    exact viable_zero ⟨us, type, .simple hus⟩
  | succ n ih =>
    rw [finds_typeExpr]
    have explains : Explains (DerivesType .simple) (finds simpleType) :=
      fun _ _ _ => simpleType_sound fun _ _ _ _ => typeExpr_sound
    refine (viable_simpleType n ih).bind explains fun us type hus => ?_
    exact viable_arraySuffixes n (.simple hus)

theorem viable_binder : Viable n DerivesBinder (finds binder) := by
  rw [finds_binder]
  refine viable_name_bind fun t ht => ?_
  refine viable_token_bind fun colon hcolon => ?_
  refine (viable_typeExpr n).bind typeExpr_explains fun us type hus => ?_
  exact viable_pure (by simpa using .intro ht hcolon hus)

end

/-! ## Lists -/

section

variable {α : Type} {close : Kind} {derives : List Token → α → Prop}
  {element : (ts : List Token) → Except Stop (Reading ts α)}

/-- What a list of elements derives with the token that closes it. -/
def DerivesList (close : Kind) (derives : List Token → α → Prop) (us : List Token)
    (values : List α) : Prop :=
  ∃ parts inner closing, us = inner ++ [closing] ∧ closing.kind = close ∧
    CommaJoined parts inner ∧ (∀ part ∈ parts, derives part.1 part.2) ∧
    parts.map Prod.snd = values

/-- What a list of one element or more derives. -/
def DerivesMany (close : Kind) (derives : List Token → α → Prop) (us : List Token)
    (values : List α) : Prop :=
  DerivesList close derives us values ∧ values ≠ []

theorem findsMany_explains (helement : Explains derives (finds element)) :
    Explains (DerivesMany close derives) (findsMany close element) := by
  intro ts values rest h
  obtain ⟨parts, inner, closing, rfl, hclosing, hjoined, hparts, hne, rfl⟩ :=
    commaList_sound (fun us _ => helement us) h
  exact ⟨inner ++ [closing], by simp, ⟨parts, inner, closing, rfl, hclosing, hjoined, hparts, rfl⟩,
    by simpa using hne⟩

theorem findsList_explains (hclose : close ≠ .eof) (helement : Explains derives (finds element)) :
    Explains (DerivesList close derives) (findsList close element) := by
  intro ts values rest h
  obtain ⟨parts, inner, closing, rfl, hclosing, hjoined, hparts, rfl⟩ :=
    closedList_sound hclose (fun us _ => helement us) h
  exact ⟨inner ++ [closing], by simp, parts, inner, closing, rfl, hclosing, hjoined, hparts, rfl⟩

theorem derivesList_nil {closing : Token} (h : closing.kind = close) :
    DerivesList close derives [closing] [] :=
  ⟨[], [], closing, rfl, h, .none, by simp, rfl⟩

theorem derivesMany_one {us : List Token} {value : α} (hus : derives us value) {closing : Token}
    (h : closing.kind = close) : DerivesMany close derives (us ++ [closing]) [value] :=
  ⟨⟨[(us, value)], us, closing, rfl, h, .one, by simpa using hus, rfl⟩, by simp⟩

theorem derivesMany_more {us vs : List Token} {value : α} {others : List α}
    (hus : derives us value) {comma : Token} (h : comma.kind = .comma)
    (hvs : DerivesMany close derives vs others) :
    DerivesMany close derives (us ++ comma :: vs) (value :: others) := by
  obtain ⟨⟨parts, inner, closing, rfl, hclosing, hjoined, hparts, rfl⟩, hne⟩ := hvs
  cases parts with
  | nil => exact absurd rfl hne
  | cons next parts =>
    exact ⟨⟨(us, value) :: next :: parts, us ++ comma :: inner, closing, by simp, hclosing,
      .more h hjoined, List.forall_mem_cons.mpr ⟨hus, hparts⟩, rfl⟩, by simp⟩

variable {n : Nat}

/-- After one element a comma or the closing mark can be put; with the mark the list is at its end.
-/
theorem viable_findsMany (helement : Viable n derives (finds element))
    (hexplains : Explains derives (finds element)) :
    Viable n (DerivesMany close derives) (findsMany close element) := by
  induction n with
  | zero =>
    obtain ⟨us, value, hus⟩ := helement.inhabited
    exact viable_zero ⟨_, _, derivesMany_one hus (rfl : (sample close).kind = close)⟩
  | succ n ih =>
    rw [findsMany_eq]
    refine helement.bind hexplains fun us first hus => ?_
    refine viable_ifToken_fewer (by decide) (fun comma hcomma => ?_) ?_
    · have others := ih (helement.mono (Nat.le_succ n))
      refine others.bind (findsMany_explains hexplains) fun vs others hvs => ?_
      exact viable_pure (by simpa using derivesMany_more hus hcomma hvs)
    · refine viable_token_bind fun closing hclosing => ?_
      exact viable_pure (derivesMany_one hus hclosing)

theorem viable_findsList (hclose : close ≠ .eof) (helement : Viable n derives (finds element))
    (hexplains : Explains derives (finds element)) :
    Viable n (DerivesList close derives) (findsList close element) := by
  rw [findsList_eq hclose]
  refine viable_ifToken hclose (fun closing hclosing => viable_pure (derivesList_nil hclosing)) ?_
  exact (viable_findsMany helement hexplains).weaken fun _ _ h => h.1

end

/-! ## Expressions -/

theorem readAt_explains {level : Nat} (h : level ≤ 9) :
    Explains (DerivesExpr level) (finds (readAt level)) :=
  fun ts expr rest => readAt_sound ts h rest expr

theorem expr_explains : Explains (DerivesExpr 0) (finds expr) :=
  readAt_explains (Nat.zero_le 9)

theorem exists_expr {level : Nat} (h : level ≤ 9) : ∃ us expr, DerivesExpr level us expr :=
  ⟨[sample .ident], _, (DerivesExpr.var rfl).lower h⟩

/-- The readers of all levels stop only where what they have used can be completed. -/
def LevelsViable (n : Nat) : Prop :=
  ∀ level ≤ 9, Viable n (DerivesExpr level) (finds (readAt level))

section

variable {n : Nat} (below : LevelsViable n)

include below

theorem viable_primary : Viable (n + 1) (DerivesExpr 9) (finds primary) := by
  rw [finds_primary]
  refine viable_byAhead fun kind => ?_
  split
  · exact viable_token_bind fun t ht => viable_pure (.var ht)
  · exact viable_token_bind fun t ht => viable_pure (.number ht)
  · exact viable_token_bind fun t ht => viable_pure (.string ht)
  · exact viable_token_bind fun t ht => viable_pure (.kwTrue ht)
  · exact viable_token_bind fun t ht => viable_pure (.kwFalse ht)
  · refine viable_token_fewer fun opening hopening => ?_
    refine (below 0 (by decide)).bind expr_explains fun us inner hus => ?_
    refine viable_token_bind fun closing hclosing => ?_
    exact viable_pure (.paren hopening hus hclosing)
  · exact viable_halt (exists_expr (Nat.le_refl 9))

theorem viable_assigned {us : List Token} {target : Expr} (h : DerivesExpr 1 us target) :
    Viable (n + 1) (fun vs expr => DerivesExpr 0 (us ++ vs) expr) (after 0 target) := by
  rw [after_zero]
  refine viable_ifToken_fewer (by decide) (fun sign hsign => ?_)
    (viable_pure (by simpa using h.lift))
  refine (below 0 (by decide)).bind expr_explains fun vs value hvs => ?_
  exact viable_pure (by simpa using .assign h hsign hvs)

theorem viable_operators (op : BinaryOp) {us : List Token} {lhs : Expr}
    (h : DerivesExpr op.level us lhs) :
    Viable (n + 1) (fun vs expr => DerivesExpr op.level (us ++ vs) expr) (after op.level lhs) := by
  refine viable_loop (fun m hm more us lhs h => ?_) h
  rw [after_level]
  refine viable_ifChosen_fewer rfl (fun sign other hother => ?_)
    (viable_pure (by rwa [List.append_nil]))
  obtain ⟨hother, hlevel⟩ := ofKind?_of_operatorOf hother
  have hnext : op.level + 1 ≤ 9 := Nat.le_trans (Nat.succ_le_succ op.level_le) (by decide)
  refine ((below _ hnext).mono hm).bind (readAt_explains hnext) fun vs rhs hvs => ?_
  -- the operator read need not be `op`, but it is of the same level
  have hwhole : DerivesExpr op.level (us ++ sign :: vs) (.binary other lhs rhs) := by
    rw [← hlevel] at h hvs ⊢
    exact .binary h hother hvs
  refine (more _ _ hwhole).weaken fun ws expr hexpr => ?_
  simpa using hexpr

/-- A suffix that is broken off can be finished: an argument list with its parenthesis, a position
with its bracket, a member with its name. -/
theorem viable_suffixes {us : List Token} {head : Expr} (h : DerivesExpr 8 us head) :
    Viable (n + 1) (fun vs expr => DerivesExpr 8 (us ++ vs) expr) (after 8 head) := by
  refine viable_loop (fun m hm more us head h => ?_) h
  have inner := (below 0 (by decide)).mono hm
  have itself : DerivesExpr 8 (us ++ []) head := by rwa [List.append_nil]
  rw [after_eight]
  refine viable_byAhead fun kind => ?_
  split
  · split
    · refine viable_token_fewer fun opening hopening => ?_
      refine (viable_findsList (by decide) inner expr_explains).bind
        (findsList_explains (by decide) expr_explains) fun vs args hvs => ?_
      obtain ⟨parts, joined, closing, rfl, hclosing, hjoined, hparts, rfl⟩ := hvs
      refine (more _ _ (.call h hopening hjoined hparts hclosing)).weaken fun ws expr hexpr => ?_
      simpa using hexpr
    · -- what cannot be called is an expression as it stands
      exact viable_halt ⟨[], _, itself⟩
  · refine viable_token_fewer fun opening hopening => ?_
    refine inner.bind expr_explains fun vs position hvs => ?_
    refine viable_token_bind fun closing hclosing => ?_
    refine (more _ _ (.index h hopening hvs hclosing)).weaken fun ws expr hexpr => ?_
    simpa using hexpr
  · refine viable_token_fewer fun dot hdot => ?_
    refine viable_name_bind fun t ht => ?_
    refine (more _ _ (.member h hdot ht)).weaken fun ws expr hexpr => ?_
    simpa using hexpr
  · exact viable_pure itself

/-- What a level adds to an expression of the next level. -/
theorem viable_after {level : Nat} (hlevel : level ≤ 8) (h7 : level ≠ 7) {us : List Token}
    {first : Expr} (h : DerivesExpr (level + 1) us first) :
    Viable (n + 1) (fun vs expr => DerivesExpr level (us ++ vs) expr) (after level first) := by
  rcases level_cases level with rfl | ⟨op, rfl⟩ | rfl | rfl | ⟨m, rfl⟩
  · exact viable_assigned below h
  · exact viable_operators below op h.lift
  · exact absurd rfl h7
  · exact viable_suffixes below h.lift
  · omega

theorem viable_unary (next : Viable (n + 1) (DerivesExpr 8) (finds (readAt 8))) :
    Viable (n + 1) (DerivesExpr 7) (finds (readAt 7)) := by
  rw [finds_readAt_seven]
  refine viable_ifChosen_fewer rfl (fun sign op hop => ?_) (next.weaken fun _ _ h => h.lift)
  refine (below 7 (by decide)).bind (readAt_explains (by decide)) fun us operand hus => ?_
  exact viable_pure (by simpa using .unary hop hus)

end

/-- All levels at once, by induction on the number of tokens: at each number from the tightest level
to the loosest. -/
theorem levelsViable (n : Nat) : LevelsViable n := by
  induction n with
  | zero => exact fun level hlevel => viable_zero (exists_expr hlevel)
  | succ n below =>
    intro level
    induction level using levels_induction with
    | last m =>
      intro hm
      obtain rfl : m = 0 := by omega
      exact viable_primary below
    | seven eight => exact fun _ => viable_unary below (eight (by decide))
    | previous level h7 next =>
      intro hlevel
      by_cases hlast : level = 9
      · subst hlast
        exact viable_primary below
      · have hnext : level + 1 ≤ 9 := by omega
        rw [finds_readAt h7]
        refine (next hnext).bind (readAt_explains hnext) fun us first hus => ?_
        exact viable_after below (by omega) h7 hus

section

variable (n : Nat)

theorem viable_expr : Viable n (DerivesExpr 0) (finds expr) :=
  levelsViable n 0 (by decide)

end

end Quill.Grammar
