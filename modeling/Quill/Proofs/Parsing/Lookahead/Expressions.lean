import Quill.Proofs.Parsing.Equations.Expressions

/-!
# One token of lookahead

A reader goes by the kinds of the tokens it uses and by the kind of the token it stops before. What
comes after that token it does not see, and neither does it see texts or positions. Where these
kinds are the same, a reader takes the same way (`InStep`): it ends at the corresponding token, and
if it stops there, it stops for the same cause.

One thing that has been read is looked at again, whether an expression is a plain name, since
arguments may follow those only. So two readings in step have to give two plain names or none
(`BothNames`). Of other values nothing has to be known.

The readers are taken through one by one. Those that call themselves are in step for lists of fewer
than `n + 1` tokens if they are for lists of fewer than `n`.
-/

set_option autoImplicit false

namespace Quill.Grammar

section

variable {α β γ : Type} {n : Nat}

/-- In lists of fewer than `n` tokens, whatever the first reader finds by using some tokens the
second finds by using tokens of the same kinds, if a token of the same kind is ahead after them. -/
structure InStep (n : Nat) (alike : α → α → Prop) (P Q : Finds α) : Prop where
  ok : ∀ ts v rest, ts.length < n → P ts = .ok (v, rest) → ∃ used, ts = used ++ rest ∧
    ∀ used' rest', used'.map Token.kind = used.map Token.kind → ahead rest' = ahead rest →
      ∃ w, alike v w ∧ Q (used' ++ rest') = .ok (w, rest')
  error : ∀ ts stop, ts.length < n → P ts = .error stop → ∃ used, ts = used ++ stop.rest ∧
    ∀ used' rest', used'.map Token.kind = used.map Token.kind → ahead rest' = ahead stop.rest →
      Q (used' ++ rest') = .error ⟨stop.cause, rest'⟩

/-- Values of which nothing has to be known. -/
def anything : α → α → Prop := fun _ _ => True

/-- The token ahead of a list is the first one, or the one after it if there is none. -/
theorem ahead_append_congr {us us' rest rest' : List Token}
    (hus : us'.map Token.kind = us.map Token.kind) (hrest : ahead rest' = ahead rest) :
    ahead (us' ++ rest') = ahead (us ++ rest) := by
  cases us with
  | nil =>
    obtain rfl := List.map_eq_nil_iff.mp hus
    exact hrest
  | cons t us =>
    obtain ⟨t', vs, rfl, ht, -⟩ := List.map_eq_cons_iff.mp hus
    exact ht

/-! ## How readers are put together -/

/-- No list has fewer than no tokens. -/
theorem inStep_zero (alike : α → α → Prop) (P Q : Finds α) : InStep 0 alike P Q where
  ok _ _ _ h := absurd h (Nat.not_lt_zero _)
  error _ _ h := absurd h (Nat.not_lt_zero _)

/-- What holds of longer lists holds of shorter ones. -/
theorem InStep.mono {m : Nat} {alike : α → α → Prop} {P Q : Finds α} (h : InStep n alike P Q)
    (hm : m ≤ n) : InStep m alike P Q where
  ok ts v rest hts := h.ok ts v rest (Nat.lt_of_lt_of_le hts hm)
  error ts stop hts := h.error ts stop (Nat.lt_of_lt_of_le hts hm)

/-- What is known of the values may be forgotten. -/
theorem InStep.weaken {alike : α → α → Prop} {P Q : Finds α} (h : InStep n alike P Q) :
    InStep n anything P Q where
  ok ts v rest hts hP := by
    obtain ⟨used, hused, hQ⟩ := h.ok ts v rest hts hP
    refine ⟨used, hused, fun used' rest' hkinds hahead => ?_⟩
    obtain ⟨w, -, hw⟩ := hQ used' rest' hkinds hahead
    exact ⟨w, trivial, hw⟩
  error := h.error

/-- Values that are alike are found in step. -/
theorem inStep_pure {alike : α → α → Prop} {v w : α} (h : alike v w) :
    InStep n alike (pure v) (pure w) where
  ok ts value rest _ hP := by
    obtain ⟨rfl, rfl⟩ := Prod.mk.inj (Except.ok.inj hP)
    refine ⟨[], rfl, fun used' rest' hkinds _ => ⟨w, h, ?_⟩⟩
    obtain rfl := List.map_eq_nil_iff.mp hkinds
    rfl
  error _ _ _ hP := nomatch hP

/-- Stops for one cause are in step. -/
theorem inStep_halt {alike : α → α → Prop} {cause : SyntaxCause} :
    InStep n alike (halt cause) (halt cause) where
  ok _ _ _ _ hP := nomatch hP
  error ts stop _ hP := by
    obtain rfl := Except.error.inj hP
    refine ⟨[], rfl, fun used' rest' hkinds _ => ?_⟩
    obtain rfl := List.map_eq_nil_iff.mp hkinds
    rfl

/-- A token is taken for its kind alone. -/
theorem inStep_token {kind : Kind} (hkind : kind ≠ .eof) :
    InStep n anything (token kind) (token kind) where
  ok ts t rest _ hP := by
    obtain ⟨rfl, ht⟩ := expect_eq_ok_iff.mp hP
    refine ⟨[t], rfl, fun used' rest' hkinds _ => ?_⟩
    obtain ⟨t', us, rfl, ht', hus⟩ := List.map_eq_cons_iff.mp hkinds
    obtain rfl := List.map_eq_nil_iff.mp hus
    exact ⟨t', trivial, token_cons (ht'.trans ht) rest'⟩
  error ts stop _ hP := by
    -- another token is ahead, or none
    rcases accept_cases kind hkind ts with ⟨-, hahead⟩ | ⟨t, us, rfl, ht, -⟩
    · rw [token_of_ne hahead] at hP
      obtain rfl := Except.error.inj hP
      refine ⟨[], rfl, fun used' rest' hkinds hsame => ?_⟩
      obtain rfl := List.map_eq_nil_iff.mp hkinds
      exact token_of_ne (hsame ▸ hahead)
    · rw [token_cons ht] at hP
      exact absurd hP (by simp)

/-- Two parts in step, one after the other. What the second parts do may depend on what the first
parts found, which is alike, and they may have fewer tokens left. -/
theorem InStep.bind_of_lt {m : Nat} {alike : α → α → Prop} {alike' : β → β → Prop}
    {P P' : Finds α} {Q Q' : α → Finds β} (hP : InStep n alike P P')
    (hlength : ∀ ts v us, ts.length < n → P ts = .ok (v, us) → us.length < m)
    (hQ : ∀ v w, alike v w → InStep m alike' (Q v) (Q' w)) :
    InStep n alike' (P >>= Q) (P' >>= Q') where
  ok ts v rest hts h := by
    obtain ⟨a, us, ha, hv⟩ := finds_bind_eq_ok_iff.mp h
    have hus := hlength _ _ _ hts ha
    obtain ⟨front, rfl, hfront⟩ := hP.ok ts a us hts ha
    -- the second part uses the same tokens after whatever the first part finds
    obtain ⟨b, hab, -⟩ := hfront front us rfl rfl
    obtain ⟨back, rfl, -⟩ := (hQ a b hab).ok us v rest hus hv
    refine ⟨front ++ back, by simp, fun used' rest' hkinds hahead => ?_⟩
    obtain ⟨front', back', rfl, hfront', hback'⟩ :=
      List.map_eq_append_iff.mp (hkinds.trans List.map_append)
    obtain ⟨b', hab', hb'⟩ := hfront front' (back' ++ rest') hfront'
      (ahead_append_congr hback' hahead)
    obtain ⟨back', heq, hsecond⟩ := (hQ a b' hab').ok _ v rest hus hv
    obtain rfl := List.append_cancel_right heq
    obtain ⟨w, hvw, hw⟩ := hsecond _ rest' hback' hahead
    rw [List.append_assoc]
    exact ⟨w, hvw, finds_bind_eq_ok_iff.mpr ⟨b', _, hb', hw⟩⟩
  error ts stop hts h := by
    rcases finds_bind_eq_error_iff.mp h with hfirst | ⟨a, us, ha, hstop⟩
    · obtain ⟨front, rfl, hfront⟩ := hP.error ts stop hts hfirst
      refine ⟨front, rfl, fun front' rest' hkinds hahead => ?_⟩
      exact finds_bind_eq_error_iff.mpr (.inl (hfront front' rest' hkinds hahead))
    · have hus := hlength _ _ _ hts ha
      obtain ⟨front, rfl, hfront⟩ := hP.ok ts a us hts ha
      obtain ⟨b, hab, -⟩ := hfront front us rfl rfl
      obtain ⟨back, hback, -⟩ := (hQ a b hab).error us stop hus hstop
      refine ⟨front ++ back, by simp [hback], fun used' rest' hkinds hahead => ?_⟩
      obtain ⟨front', back', rfl, hfront', hback'⟩ :=
        List.map_eq_append_iff.mp (hkinds.trans List.map_append)
      have hnext : ahead (back' ++ rest') = ahead us := by
        rw [hback]
        exact ahead_append_congr hback' hahead
      obtain ⟨b', hab', hb'⟩ := hfront front' (back' ++ rest') hfront' hnext
      obtain ⟨other, hother, hsecond⟩ := (hQ a b' hab').error us stop hus hstop
      obtain rfl := List.append_cancel_right (hback.symm.trans hother)
      rw [List.append_assoc]
      exact finds_bind_eq_error_iff.mpr (.inr ⟨b', _, hb', hsecond _ rest' hback' hahead⟩)

/-- Readers in turn are in step if both are; the second may depend on a value, as long as values
that are alike lead to readers in step. -/
theorem InStep.bind {alike : α → α → Prop} {alike' : β → β → Prop} {P P' : Finds α}
    {Q Q' : α → Finds β} (hP : InStep n alike P P')
    (hQ : ∀ v w, alike v w → InStep n alike' (Q v) (Q' w)) :
    InStep n alike' (P >>= Q) (P' >>= Q') := by
  refine hP.bind_of_lt (fun ts v us hts hv => ?_) hQ
  obtain ⟨used, rfl, -⟩ := hP.ok ts v us hts hv
  exact Nat.lt_of_le_of_lt (by simp) hts

/-- After a token is used, there are fewer tokens left. -/
theorem InStep.bind_fewer {alike : α → α → Prop} {alike' : β → β → Prop} {P P' : Finds α}
    {Q Q' : α → Finds β} (hP : InStep (n + 1) alike P P') (huses : UsesToken P)
    (hQ : ∀ v w, alike v w → InStep n alike' (Q v) (Q' w)) :
    InStep (n + 1) alike' (P >>= Q) (P' >>= Q') := by
  refine hP.bind_of_lt (fun ts v us hts hv => ?_) hQ
  have hfewer := huses ts v us hv
  omega

/-- After a token in step, whichever two tokens of the kind these are. -/
theorem inStep_token_bind {alike : β → β → Prop} {kind : Kind} (hkind : kind ≠ .eof)
    {Q Q' : Token → Finds β} (hQ : ∀ t t', InStep n alike (Q t) (Q' t')) :
    InStep n alike (token kind >>= Q) (token kind >>= Q') :=
  (inStep_token hkind).bind fun t t' _ => hQ t t'

/-- After a token the lists are shorter, and the bound goes down by one. -/
theorem inStep_token_fewer {alike : β → β → Prop} {kind : Kind} (hkind : kind ≠ .eof)
    {Q Q' : Token → Finds β} (hQ : ∀ t t', InStep n alike (Q t) (Q' t')) :
    InStep (n + 1) alike (token kind >>= Q) (token kind >>= Q') :=
  (inStep_token hkind).bind_fewer (finds_usesToken _) fun t t' _ => hQ t t'

/-- A choice depends on the kind ahead only, and where a token is taken the lists are shorter. -/
theorem inStep_ifChosen {alike : α → α → Prop} {choose : Kind → Option γ}
    (heof : choose .eof = none) {yes yes' : γ → Finds α} {no no' : Finds α}
    (hyes : ∀ choice, InStep n alike (yes choice) (yes' choice))
    (hno : InStep (n + 1) alike no no') :
    InStep (n + 1) alike (ifChosen choose yes no) (ifChosen choose yes' no') where
  ok ts v rest hts h := by
    rcases ifChosen_cases heof ts with ⟨hnone, heq⟩ | ⟨t, us, choice, rfl, hchoice, heq⟩
    · rw [heq] at h
      obtain ⟨used, rfl, hused⟩ := hno.ok ts v rest hts h
      refine ⟨used, rfl, fun used' rest' hkinds hahead => ?_⟩
      rw [ifChosen_eq_no (ahead_append_congr hkinds hahead ▸ hnone)]
      exact hused used' rest' hkinds hahead
    · rw [heq] at h
      obtain ⟨used, rfl, hused⟩ := (hyes choice).ok us v rest (Nat.lt_of_succ_lt_succ hts) h
      refine ⟨t :: used, rfl, fun used' rest' hkinds hahead => ?_⟩
      -- a token of the same kind is chosen in the other list, and taken there as well
      obtain ⟨t', used', rfl, ht', hkinds'⟩ := List.map_eq_cons_iff.mp hkinds
      rw [List.cons_append, ifChosen_cons (ht' ▸ hchoice)]
      exact hused used' rest' hkinds' hahead
  error ts stop hts h := by
    rcases ifChosen_cases heof ts with ⟨hnone, heq⟩ | ⟨t, us, choice, rfl, hchoice, heq⟩
    · rw [heq] at h
      obtain ⟨used, hts', hused⟩ := hno.error ts stop hts h
      refine ⟨used, hts', fun used' rest' hkinds hahead => ?_⟩
      rw [ifChosen_eq_no (ahead_append_congr hkinds hahead ▸ hts' ▸ hnone)]
      exact hused used' rest' hkinds hahead
    · rw [heq] at h
      obtain ⟨used, hus, hused⟩ := (hyes choice).error us stop (Nat.lt_of_succ_lt_succ hts) h
      refine ⟨t :: used, by rw [hus]; rfl, fun used' rest' hkinds hahead => ?_⟩
      obtain ⟨t', used', rfl, ht', hkinds'⟩ := List.map_eq_cons_iff.mp hkinds
      rw [List.cons_append, ifChosen_cons (ht' ▸ hchoice)]
      exact hused used' rest' hkinds' hahead

theorem inStep_ifToken_fewer {alike : α → α → Prop} {kind : Kind} (hkind : kind ≠ .eof)
    {yes yes' no no' : Finds α} (hyes : InStep n alike yes yes')
    (hno : InStep (n + 1) alike no no') :
    InStep (n + 1) alike (ifToken kind yes no) (ifToken kind yes' no') :=
  inStep_ifChosen (exactly_of_ne hkind.symm) (fun _ => hyes) hno

theorem inStep_ifToken {alike : α → α → Prop} {kind : Kind} (hkind : kind ≠ .eof)
    {yes yes' no no' : Finds α} (hyes : InStep n alike yes yes') (hno : InStep n alike no no') :
    InStep n alike (ifToken kind yes no) (ifToken kind yes' no') := by
  cases n with
  | zero => exact inStep_zero _ _ _
  | succ n => exact inStep_ifToken_fewer hkind (hyes.mono (Nat.le_succ n)) hno

/-- A loop is in step if each round of it is, as long as the rounds after it are. -/
theorem inStep_loop {alike : α → α → Prop} {loop : α → Finds α}
    (hround : ∀ m ≤ n, (∀ v w, alike v w → InStep m alike (loop v) (loop w)) →
      ∀ v w, alike v w → InStep (m + 1) alike (loop v) (loop w))
    {v w : α} (h : alike v w) : InStep (n + 1) alike (loop v) (loop w) := by
  have hrounds : ∀ m ≤ n + 1, ∀ v w, alike v w → InStep m alike (loop v) (loop w) := by
    intro m
    induction m with
    | zero => exact fun _ _ _ _ => inStep_zero _ _ _
    | succ m ih => exact fun hm => hround m (by omega) (ih (by omega))
  exact hrounds (n + 1) (Nat.le_refl _) v w h

/-- Readers that decide by the kind ahead are in step if their branches are. -/
theorem inStep_byAhead {alike : α → α → Prop} {goOn goOn' : Kind → Finds α}
    (h : ∀ kind, InStep n alike (goOn kind) (goOn' kind)) :
    InStep n alike (byAhead goOn) (byAhead goOn') where
  ok ts v rest hts hP := by
    obtain ⟨used, rfl, hused⟩ := (h (ahead ts)).ok ts v rest hts hP
    refine ⟨used, rfl, fun used' rest' hkinds hahead => ?_⟩
    rw [byAhead, ahead_append_congr hkinds hahead]
    exact hused used' rest' hkinds hahead
  error ts stop hts hP := by
    obtain ⟨used, hts', hused⟩ := (h (ahead ts)).error ts stop hts hP
    refine ⟨used, hts', fun used' rest' hkinds hahead => ?_⟩
    rw [byAhead, ahead_append_congr hkinds hahead, ← hts']
    exact hused used' rest' hkinds hahead

end

/-! ## Names and types -/

section

variable (n : Nat)

theorem inStep_name : InStep n anything (finds name) (finds name) := by
  rw [finds_name]
  exact inStep_token_bind (by decide) fun _ _ => inStep_pure trivial

theorem inStep_segments : InStep n anything (finds segments) (finds segments) := by
  induction n with
  | zero => exact inStep_zero _ _ _
  | succ n ih =>
    rw [finds_segments]
    refine (inStep_name _).bind fun _ _ _ => ?_
    refine inStep_ifToken_fewer (by decide) ?_ (inStep_pure trivial)
    exact ih.bind fun _ _ _ => inStep_pure trivial

theorem inStep_qualifiedName : InStep n anything (finds qualifiedName) (finds qualifiedName) := by
  rw [finds_qualifiedName]
  exact (inStep_segments n).bind fun _ _ _ => inStep_pure trivial

theorem inStep_builtIn {kind : Kind} (hkind : kind ≠ .eof) :
    InStep n anything (finds (builtIn kind)) (finds (builtIn kind)) := by
  rw [finds_builtIn]
  exact inStep_token_bind hkind fun _ _ => inStep_pure trivial

theorem inStep_arraySuffixes (type type' : TypeExpr) :
    InStep (n + 1) anything (findsAfter arraySuffixes type) (findsAfter arraySuffixes type') := by
  refine inStep_loop (fun m _ more type type' _ => ?_) trivial
  rw [arraySuffixes_rounds.2 type, arraySuffixes_rounds.2 type']
  refine inStep_ifToken_fewer (by decide) ?_ (inStep_pure trivial)
  exact inStep_token_bind (by decide) fun _ _ => more _ _ trivial

theorem inStep_simpleType (below : InStep n anything (finds typeExpr) (finds typeExpr)) :
    InStep (n + 1) anything (finds simpleType) (finds simpleType) := by
  rw [finds_simpleType]
  refine inStep_byAhead fun kind => ?_
  split
  · exact inStep_builtIn _ (by decide)
  · exact inStep_builtIn _ (by decide)
  · exact inStep_builtIn _ (by decide)
  · exact (inStep_qualifiedName _).bind fun _ _ _ => inStep_pure trivial
  · refine inStep_token_fewer (by decide) fun _ _ => ?_
    refine below.bind fun _ _ _ => ?_
    exact inStep_token_bind (by decide) fun _ _ => inStep_pure trivial
  · exact inStep_halt

theorem inStep_typeExpr : InStep n anything (finds typeExpr) (finds typeExpr) := by
  induction n with
  | zero => exact inStep_zero _ _ _
  | succ n ih =>
    rw [finds_typeExpr]
    exact (inStep_simpleType n ih).bind fun _ _ _ => inStep_arraySuffixes _ _ _

theorem inStep_binder : InStep n anything (finds binder) (finds binder) := by
  rw [finds_binder]
  refine (inStep_name n).bind fun _ _ _ => ?_
  refine inStep_token_bind (by decide) fun _ _ => ?_
  exact (inStep_typeExpr n).bind fun _ _ _ => inStep_pure trivial

end

/-! ## Lists -/

section

variable {α : Type} {n : Nat} {alike : α → α → Prop} {close : Kind}
  {element : (ts : List Token) → Except Stop (Reading ts α)} (hclose : close ≠ .eof)

include hclose

theorem inStep_findsMany (helement : InStep n alike (finds element) (finds element)) :
    InStep n anything (findsMany close element) (findsMany close element) := by
  induction n with
  | zero => exact inStep_zero _ _ _
  | succ n ih =>
    rw [findsMany_eq]
    refine helement.bind fun _ _ _ => ?_
    refine inStep_ifToken_fewer (by decide) ?_ ?_
    · have others := ih (helement.mono (Nat.le_succ n))
      exact others.bind fun _ _ _ => inStep_pure trivial
    · exact inStep_token_bind hclose fun _ _ => inStep_pure trivial

theorem inStep_findsList (helement : InStep n alike (finds element) (finds element)) :
    InStep n anything (findsList close element) (findsList close element) := by
  rw [findsList_eq hclose]
  exact inStep_ifToken hclose (inStep_pure trivial) (inStep_findsMany hclose helement)

end

/-! ## Expressions -/

/-- Both expressions are plain names, or neither is. -/
def BothNames (e e' : Expr) : Prop :=
  (∃ name, e = .var name) ↔ ∃ name, e' = .var name

theorem bothNames_var (name name' : String) : BothNames (.var name) (.var name') :=
  ⟨fun _ => ⟨name', rfl⟩, fun _ => ⟨name, rfl⟩⟩

/-- Expressions that are no plain names are alike, as far as calls are concerned. -/
theorem bothNames_of_ne {e e' : Expr} (h : ∀ name, e ≠ .var name) (h' : ∀ name, e' ≠ .var name) :
    BothNames e e' :=
  ⟨fun ⟨name, hname⟩ => absurd hname (h name), fun ⟨name, hname⟩ => absurd hname (h' name)⟩

/-- The readers of all levels are in step. -/
def LevelsInStep (n : Nat) : Prop :=
  ∀ level, InStep n BothNames (finds (readAt level)) (finds (readAt level))

section

variable {n : Nat}

/-- An operand of one token that is no name. -/
theorem inStep_literal {kind : Kind} (hkind : kind ≠ .eof) {tree : Token → Expr}
    (h : ∀ t name, tree t ≠ .var name) :
    InStep n BothNames (token kind >>= fun t => pure (tree t))
      (token kind >>= fun t => pure (tree t)) :=
  inStep_token_bind hkind fun t t' => inStep_pure (bothNames_of_ne (h t) (h t'))

theorem inStep_primary (below : LevelsInStep n) :
    InStep (n + 1) BothNames (finds primary) (finds primary) := by
  rw [finds_primary]
  refine inStep_byAhead fun kind => ?_
  split
  · exact inStep_token_bind (by decide) fun _ _ => inStep_pure (bothNames_var _ _)
  · exact inStep_literal (by decide) fun _ _ => Expr.noConfusion
  · exact inStep_literal (by decide) fun _ _ => Expr.noConfusion
  · exact inStep_literal (by decide) fun _ _ => Expr.noConfusion
  · exact inStep_literal (by decide) fun _ _ => Expr.noConfusion
  · refine inStep_token_fewer (by decide) fun _ _ => ?_
    refine (below 0).bind fun _ _ _ => ?_
    refine inStep_token_bind (by decide) fun _ _ => inStep_pure ?_
    exact bothNames_of_ne (fun _ => Expr.noConfusion) fun _ => Expr.noConfusion
  · exact inStep_halt

theorem inStep_assigned (below : LevelsInStep n) {target target' : Expr}
    (h : BothNames target target') :
    InStep (n + 1) BothNames (after 0 target) (after 0 target') := by
  rw [after_zero, after_zero]
  refine inStep_ifToken_fewer (by decide) ?_ (inStep_pure h)
  refine (below 0).bind fun _ _ _ => inStep_pure ?_
  exact bothNames_of_ne (fun _ => Expr.noConfusion) fun _ => Expr.noConfusion

/-- A binary expression is no plain name, whatever its operands are. -/
theorem inStep_operators (op : BinaryOp) (below : LevelsInStep n) {lhs lhs' : Expr}
    (h : BothNames lhs lhs') :
    InStep (n + 1) BothNames (after op.level lhs) (after op.level lhs') := by
  refine inStep_loop (fun m hm more lhs lhs' h => ?_) h
  rw [after_level op lhs, after_level op lhs']
  refine inStep_ifChosen rfl (fun other => ?_) (inStep_pure h)
  refine ((below _).mono hm).bind fun _ _ _ => ?_
  exact more _ _ (bothNames_of_ne (fun _ => Expr.noConfusion) fun _ => Expr.noConfusion)

/-- A call is read or refused in both lists, since both heads are plain names or neither is. -/
theorem inStep_suffixes (below : LevelsInStep n) {head head' : Expr} (h : BothNames head head') :
    InStep (n + 1) BothNames (after 8 head) (after 8 head') := by
  refine inStep_loop (fun m hm more head head' h => ?_) h
  have inner := (below 0).mono hm
  rw [after_eight head, after_eight head']
  refine inStep_byAhead fun kind => ?_
  split
  · -- both are plain names, which may be called, or neither is and both readers stop
    split
    · obtain ⟨name', rfl⟩ := h.mp ⟨_, rfl⟩
      refine inStep_token_fewer (by decide) fun _ _ => ?_
      refine (inStep_findsList (by decide) inner).bind fun _ _ _ => ?_
      exact more _ _ (bothNames_of_ne (fun _ => Expr.noConfusion) fun _ => Expr.noConfusion)
    · rename_i hnot
      split
      · obtain ⟨name, rfl⟩ := h.mpr ⟨_, rfl⟩
        exact absurd rfl (hnot name)
      · exact inStep_halt
  · refine inStep_token_fewer (by decide) fun _ _ => ?_
    refine inner.bind fun _ _ _ => ?_
    refine inStep_token_bind (by decide) fun _ _ => ?_
    exact more _ _ (bothNames_of_ne (fun _ => Expr.noConfusion) fun _ => Expr.noConfusion)
  · refine inStep_token_fewer (by decide) fun _ _ => ?_
    refine (inStep_name m).bind fun _ _ _ => ?_
    exact more _ _ (bothNames_of_ne (fun _ => Expr.noConfusion) fun _ => Expr.noConfusion)
  · exact inStep_pure h

theorem inStep_after (level : Nat) (below : LevelsInStep n) {e e' : Expr} (h : BothNames e e') :
    InStep (n + 1) BothNames (after level e) (after level e') := by
  rcases level_cases level with rfl | ⟨op, rfl⟩ | rfl | rfl | ⟨m, rfl⟩
  · exact inStep_assigned below h
  · exact inStep_operators op below h
  · exact inStep_pure h
  · exact inStep_suffixes below h
  · exact inStep_pure h

/-- All levels at once, by induction on the number of tokens: at each number from the tightest level
to the loosest. -/
theorem levelsInStep (n : Nat) : LevelsInStep n := by
  induction n with
  | zero => exact fun _ => inStep_zero _ _ _
  | succ n below =>
    intro level
    induction level using levels_induction with
    | last m => exact inStep_primary below
    | seven eight =>
      rw [finds_readAt_seven]
      refine inStep_ifChosen rfl (fun op => ?_) eight
      refine (below 7).bind fun _ _ _ => inStep_pure ?_
      exact bothNames_of_ne (fun _ => Expr.noConfusion) fun _ => Expr.noConfusion
    | previous level h7 next =>
      rw [finds_readAt h7]
      exact next.bind fun _ _ h => inStep_after level below h

end

section

variable (n : Nat)

theorem inStep_expr : InStep n anything (finds expr) (finds expr) :=
  (levelsInStep n 0).weaken

end

end Quill.Grammar
