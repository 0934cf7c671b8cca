import Quill.Proofs.Parsing.Viable.Programs

/-!
# Why reading stops

Most causes say what is missing, and the token at which reading stops tells the rest. Two causes
say something about the tokens before it.

* Tokens are left over only after a whole program, so no reader within a program has this cause.
* A call is wrong only where an opening parenthesis follows an expression that is no plain name
  (`Stop.Justified`). The expression stands directly before the parenthesis, and in a program much
  may stand before the expression.

Whether a call is wrong is decided by the tree read so far. So a reader is looked at together with
the tokens in front of those that it is given (`Justifies`), and only the loop that reads suffixes
asks what these tokens are.
-/

set_option autoImplicit false

namespace Quill

/-- The tokens end in an expression that suffixes may follow. -/
def Grammar.EndsIn (us : List Token) (head : Expr) : Prop :=
  ∃ front vs, us = front ++ vs ∧ Grammar.DerivesExpr 8 vs head

/-- A stop in a token list has a cause that the tokens bear out. -/
structure Stop.Justified (ts : List Token) (stop : Stop) : Prop where
  ne_trailing : stop.cause ≠ .trailing
  call : stop.cause = .callTarget → Grammar.ahead stop.rest = .lparen ∧
    ∃ used head, ts = used ++ stop.rest ∧ Grammar.EndsIn used head ∧ ∀ name, head ≠ .var name

/-- Causes other than the two are borne out by any tokens. -/
theorem Stop.justified_of_ne {ts : List Token} {stop : Stop} (htrailing : stop.cause ≠ .trailing)
    (hcall : stop.cause ≠ .callTarget) : stop.Justified ts where
  ne_trailing := htrailing
  call h := absurd h hcall

namespace Grammar

section

variable {α β γ : Type} {n : Nat} {us : List Token}

/-- A finder stops for causes that the tokens bear out, in lists of fewer than `n` tokens that `us`
stands in front of. -/
def Justifies (n : Nat) (us : List Token) (P : Finds α) : Prop :=
  ∀ ts stop, ts.length < n → P ts = .error stop → stop.Justified (us ++ ts)

/-! ## How readers are put together -/

/-- No list has fewer than no tokens. -/
theorem justifies_zero (us : List Token) (P : Finds α) : Justifies 0 us P :=
  fun _ _ hts => absurd hts (Nat.not_lt_zero _)

/-- What holds of longer lists holds of shorter ones. -/
theorem Justifies.mono {m : Nat} {P : Finds α} (h : Justifies n us P) (hm : m ≤ n) :
    Justifies m us P :=
  fun ts stop hts => h ts stop (Nat.lt_of_lt_of_le hts hm)

/-- A value is found without a stop. -/
theorem justifies_pure {v : α} : Justifies n us (pure v) :=
  fun _ _ _ hP => nomatch hP

/-- A stop for any cause but the two is justified by whatever stands in front. -/
theorem justifies_halt {cause : SyntaxCause} (htrailing : cause ≠ .trailing)
    (hcall : cause ≠ .callTarget) : Justifies n us (halt cause : Finds α) := by
  intro ts stop _ hP
  obtain rfl := Except.error.inj hP
  exact Stop.justified_of_ne htrailing hcall

/-- Two readers in turn: the second has to be justified behind the tokens that the first has used,
in the shorter lists that it leaves. -/
theorem Justifies.bind_of_lt {m : Nat} {derives : List Token → α → Prop} {P : Finds α}
    {Q : α → Finds β} (hP : Justifies n us P) (hexplains : Explains derives P)
    (hlength : ∀ ts v rest, ts.length < n → P ts = .ok (v, rest) → rest.length < m)
    (hQ : ∀ used v, derives used v → Justifies m (us ++ used) (Q v)) :
    Justifies n us (P >>= Q) := by
  intro ts stop hts h
  rcases finds_bind_eq_error_iff.mp h with hfirst | ⟨v, rest, hv, hstop⟩
  · exact hP ts stop hts hfirst
  · have hrest := hlength ts v rest hts hv
    -- what the first part used stands in front of the second one
    obtain ⟨used, rfl, hused⟩ := hexplains ts v rest hv
    rw [← List.append_assoc]
    exact hQ used v hused rest stop hrest hstop

/-- Two readers in turn, with the same bound on the length for both. -/
theorem Justifies.bind {derives : List Token → α → Prop} {P : Finds α} {Q : α → Finds β}
    (hP : Justifies n us P) (hexplains : Explains derives P)
    (hQ : ∀ used v, derives used v → Justifies n (us ++ used) (Q v)) :
    Justifies n us (P >>= Q) := by
  refine hP.bind_of_lt hexplains (fun ts v rest hts hv => ?_) hQ
  obtain ⟨used, rfl, -⟩ := hexplains ts v rest hv
  exact Nat.lt_of_le_of_lt (by simp) hts

/-- After a token is used, there are fewer tokens left. -/
theorem Justifies.bind_fewer {derives : List Token → α → Prop} {P : Finds α} {Q : α → Finds β}
    (hP : Justifies (n + 1) us P) (hexplains : Explains derives P) (huses : UsesToken P)
    (hQ : ∀ used v, derives used v → Justifies n (us ++ used) (Q v)) :
    Justifies (n + 1) us (P >>= Q) := by
  refine hP.bind_of_lt hexplains (fun ts v rest hts hv => ?_) hQ
  have hfewer := huses ts v rest hv
  omega

/-- A token that is not of the kind is one of the causes that need no tokens in front. -/
theorem justifies_token {kind : Kind} : Justifies n us (token kind) := by
  intro ts stop _ h
  obtain rfl := eq_of_token_error h
  exact Stop.justified_of_ne SyntaxCause.noConfusion SyntaxCause.noConfusion

/-- A required token, and what follows it. -/
theorem justifies_token_bind {kind : Kind} {Q : Token → Finds α}
    (hQ : ∀ t, t.kind = kind → Justifies n (us ++ [t]) (Q t)) :
    Justifies n us (token kind >>= Q) := by
  refine justifies_token.bind (token_explains kind) ?_
  rintro _ t ⟨rfl, ht⟩
  exact hQ t ht

/-- After a token the list is shorter, and the bound goes down by one. -/
theorem justifies_token_fewer {kind : Kind} {Q : Token → Finds α}
    (hQ : ∀ t, t.kind = kind → Justifies n (us ++ [t]) (Q t)) :
    Justifies (n + 1) us (token kind >>= Q) := by
  refine justifies_token.bind_fewer (token_explains kind) (finds_usesToken _) ?_
  rintro _ t ⟨rfl, ht⟩
  exact hQ t ht

/-- A token that may be ahead, and what goes on without it. -/
theorem justifies_ifChosen_fewer {choose : Kind → Option γ} (heof : choose .eof = none)
    {yes : γ → Finds α} {no : Finds α} (hyes : ∀ t choice, Justifies n (us ++ [t]) (yes choice))
    (hno : Justifies (n + 1) us no) : Justifies (n + 1) us (ifChosen choose yes no) := by
  intro ts stop hts h
  rcases ifChosen_cases heof ts with ⟨-, heq⟩ | ⟨t, vs, choice, rfl, -, heq⟩
  · rw [heq] at h
    exact hno ts stop hts h
  · rw [heq] at h
    have hrest := hyes t choice vs stop (Nat.lt_of_succ_lt_succ hts) h
    rwa [List.append_assoc, List.singleton_append] at hrest

/-- An optional token makes the list shorter where it is taken. -/
theorem justifies_ifToken_fewer {kind : Kind} (hkind : kind ≠ .eof) {yes no : Finds α}
    (hyes : ∀ t, Justifies n (us ++ [t]) yes) (hno : Justifies (n + 1) us no) :
    Justifies (n + 1) us (ifToken kind yes no) :=
  justifies_ifChosen_fewer (exactly_of_ne hkind.symm) (fun t _ => hyes t) hno

theorem justifies_ifToken {kind : Kind} (hkind : kind ≠ .eof) {yes no : Finds α}
    (hyes : ∀ t, Justifies n (us ++ [t]) yes) (hno : Justifies n us no) :
    Justifies n us (ifToken kind yes no) := by
  cases n with
  | zero => exact justifies_zero us _
  | succ n => exact justifies_ifToken_fewer hkind (fun t => (hyes t).mono (Nat.le_succ n)) hno

/-- What goes on by the kind of the next token may make use of that kind. -/
theorem justifies_byAhead_of_eq {goOn : Kind → Finds α}
    (h : ∀ kind, (∀ ts stop, ahead ts = kind → goOn kind ts = .error stop →
      stop.Justified (us ++ ts)) ∨ Justifies n us (goOn kind)) : Justifies n us (byAhead goOn) := by
  intro ts stop hts hstop
  rcases h (ahead ts) with hkind | hkind
  · exact hkind ts stop rfl hstop
  · exact hkind ts stop hts hstop

/-- A reader that decides by the kind ahead is justified if each of its branches is. -/
theorem justifies_byAhead {goOn : Kind → Finds α} (h : ∀ kind, Justifies n us (goOn kind)) :
    Justifies n us (byAhead goOn) :=
  justifies_byAhead_of_eq fun kind => .inr (h kind)

/-- A loop stops for good causes after any tokens that it may come after, if each round of it does
as long as the rounds after it do. -/
theorem justifies_loop (follows : List Token → α → Prop) {loop : α → Finds β}
    (hround : ∀ m ≤ n, (∀ us v, follows us v → Justifies m us (loop v)) →
      ∀ us v, follows us v → Justifies (m + 1) us (loop v))
    {v : α} (h : follows us v) : Justifies (n + 1) us (loop v) := by
  have hrounds : ∀ m ≤ n + 1, ∀ us v, follows us v → Justifies m us (loop v) := by
    intro m
    induction m with
    | zero => exact fun _ us v _ => justifies_zero us (loop v)
    | succ m ih => exact fun hm => hround m (by omega) (ih (by omega))
  exact hrounds (n + 1) (Nat.le_refl _) us v h

end

/-! ## Names and types -/

section

variable (n : Nat) (us : List Token)

theorem justifies_name : Justifies n us (finds name) := by
  rw [finds_name]
  exact justifies_token_bind fun _ _ => justifies_pure

theorem justifies_segments : Justifies n us (finds segments) := by
  induction n generalizing us with
  | zero => exact justifies_zero us _
  | succ n ih =>
    rw [finds_segments]
    refine (justifies_name _ us).bind name_explains fun vs _ _ => ?_
    refine justifies_ifToken_fewer (by decide) (fun dot => ?_) justifies_pure
    exact (ih _).bind segments_explains fun _ _ _ => justifies_pure

theorem justifies_qualifiedName : Justifies n us (finds qualifiedName) := by
  rw [finds_qualifiedName]
  exact (justifies_segments n us).bind segments_explains fun _ _ _ => justifies_pure

theorem justifies_builtIn (kind : Kind) : Justifies n us (finds (builtIn kind)) := by
  rw [finds_builtIn]
  exact justifies_token_bind fun _ _ => justifies_pure

/-- A pair of brackets is a round; after it the list is shorter by two tokens. -/
theorem justifies_arraySuffixes (type : TypeExpr) :
    Justifies (n + 1) us (findsAfter arraySuffixes type) := by
  refine justifies_loop (fun _ _ => True) (fun m _ more us type _ => ?_) trivial
  rw [arraySuffixes_rounds.2]
  refine justifies_ifToken_fewer (by decide) (fun opening => ?_) justifies_pure
  exact justifies_token_bind fun closing _ => more _ _ trivial

theorem justifies_simpleType (below : ∀ us, Justifies n us (finds typeExpr)) :
    Justifies (n + 1) us (finds simpleType) := by
  rw [finds_simpleType]
  refine justifies_byAhead fun kind => ?_
  split
  · exact justifies_builtIn _ us _
  · exact justifies_builtIn _ us _
  · exact justifies_builtIn _ us _
  · exact (justifies_qualifiedName _ us).bind qualifiedName_explains fun _ _ _ => justifies_pure
  · refine justifies_token_fewer fun opening _ => ?_
    refine (below _).bind typeExpr_explains fun vs type _ => ?_
    exact justifies_token_bind fun _ _ => justifies_pure
  · exact justifies_halt (by decide) (by decide)

theorem justifies_typeExpr : Justifies n us (finds typeExpr) := by
  induction n generalizing us with
  | zero => exact justifies_zero us _
  | succ n ih =>
    rw [finds_typeExpr]
    have explains : Explains (DerivesType .simple) (finds simpleType) :=
      fun _ _ _ => simpleType_sound fun _ _ _ _ => typeExpr_sound
    refine (justifies_simpleType n us ih).bind explains fun vs type _ => ?_
    exact justifies_arraySuffixes n _ type

theorem justifies_binder : Justifies n us (finds binder) := by
  rw [finds_binder]
  refine (justifies_name n us).bind name_explains fun vs name _ => ?_
  refine justifies_token_bind fun colon _ => ?_
  exact (justifies_typeExpr n _).bind typeExpr_explains fun _ _ _ => justifies_pure

end

/-! ## Lists -/

section

variable {α : Type} {close : Kind} {derives : List Token → α → Prop}
  {element : (ts : List Token) → Except Stop (Reading ts α)} {n : Nat}

/-- Elements up to a closing mark: the tokens of an element and the comma after it stand in front of
the next one. -/
theorem justifies_findsMany (helement : ∀ us, Justifies n us (finds element))
    (hexplains : Explains derives (finds element)) (us : List Token) :
    Justifies n us (findsMany close element) := by
  induction n generalizing us with
  | zero => exact justifies_zero us _
  | succ n ih =>
    rw [findsMany_eq]
    refine (helement us).bind hexplains fun vs first _ => ?_
    refine justifies_ifToken_fewer (by decide) (fun comma => ?_) ?_
    · have others := ih fun us => (helement us).mono (Nat.le_succ n)
      refine (others _).bind (findsMany_explains hexplains) fun _ _ _ => justifies_pure
    · exact justifies_token_bind fun _ _ => justifies_pure

theorem justifies_findsList (hclose : close ≠ .eof)
    (helement : ∀ us, Justifies n us (finds element))
    (hexplains : Explains derives (finds element)) (us : List Token) :
    Justifies n us (findsList close element) := by
  rw [findsList_eq hclose]
  refine justifies_ifToken hclose (fun closing => justifies_pure) ?_
  exact justifies_findsMany helement hexplains us

end

/-! ## Expressions -/

/-- The readers of all levels stop for causes that the tokens bear out, whatever stands in front. -/
def LevelsJustify (n : Nat) : Prop :=
  ∀ level ≤ 9, ∀ us, Justifies n us (finds (readAt level))

section

variable {n : Nat} (below : LevelsJustify n) (us : List Token)

include below

/-- A parenthesis makes the list shorter before the expression in it is read. -/
theorem justifies_primary : Justifies (n + 1) us (finds primary) := by
  rw [finds_primary]
  refine justifies_byAhead fun kind => ?_
  split
  · exact justifies_token_bind fun _ _ => justifies_pure
  · exact justifies_token_bind fun _ _ => justifies_pure
  · exact justifies_token_bind fun _ _ => justifies_pure
  · exact justifies_token_bind fun _ _ => justifies_pure
  · exact justifies_token_bind fun _ _ => justifies_pure
  · refine justifies_token_fewer fun opening _ => ?_
    refine (below 0 (by decide) _).bind expr_explains fun vs inner _ => ?_
    exact justifies_token_bind fun _ _ => justifies_pure
  · exact justifies_halt (by decide) (by decide)

theorem justifies_assigned (target : Expr) : Justifies (n + 1) us (after 0 target) := by
  rw [after_zero]
  refine justifies_ifToken_fewer (by decide) (fun sign => ?_) justifies_pure
  exact (below 0 (by decide) _).bind expr_explains fun _ _ _ => justifies_pure

/-- An operator is there to be taken. Reading can stop in its right operand only, which is of a
tighter level. -/
theorem justifies_operators (op : BinaryOp) (lhs : Expr) :
    Justifies (n + 1) us (after op.level lhs) := by
  refine justifies_loop (fun _ _ => True) (fun m hm more us lhs _ => ?_) trivial
  rw [after_level]
  refine justifies_ifChosen_fewer rfl (fun sign other => ?_) justifies_pure
  have hnext : op.level + 1 ≤ 9 := Nat.le_trans (Nat.succ_le_succ op.level_le) (by decide)
  refine ((below _ hnext _).mono hm).bind (readAt_explains hnext) fun vs rhs _ => ?_
  exact more _ _ trivial

/-- The one place where a call is wrong. The tokens in front end in the expression that is called,
and with each suffix they end in the longer expression. -/
theorem justifies_suffixes {us : List Token} {head : Expr} (h : EndsIn us head) :
    Justifies (n + 1) us (after 8 head) := by
  refine justifies_loop EndsIn (fun m hm more us head h => ?_) h
  have inner := fun us => (below 0 (by decide) us).mono hm
  obtain ⟨front, vs, rfl, hvs⟩ := h
  rw [after_eight]
  refine justifies_byAhead_of_eq fun kind => ?_
  split
  · split
    · refine .inr (justifies_token_fewer fun opening hopening => ?_)
      refine (justifies_findsList (by decide) inner expr_explains _).bind
        (findsList_explains (by decide) expr_explains) fun ws args hws => ?_
      obtain ⟨parts, joined, closing, rfl, hclosing, hjoined, hparts, rfl⟩ := hws
      exact more _ _ ⟨front, _, by simp, .call hvs hopening hjoined hparts hclosing⟩
    · -- the call is refused here, and the tokens in front show what was to be called
      rename_i hvar
      refine .inl fun ts stop hahead hstop => ?_
      obtain rfl := Except.error.inj hstop
      exact ⟨SyntaxCause.noConfusion, fun _ => ⟨hahead, _, head, rfl, ⟨front, vs, rfl, hvs⟩, hvar⟩⟩
  · refine .inr (justifies_token_fewer fun opening hopening => ?_)
    refine (inner _).bind expr_explains fun ws position hws => ?_
    refine justifies_token_bind fun closing hclosing => ?_
    exact more _ _ ⟨front, _, by simp, .index hvs hopening hws hclosing⟩
  · refine .inr (justifies_token_fewer fun dot hdot => ?_)
    refine (justifies_name m _).bind name_explains fun _ member hmember => ?_
    obtain ⟨t, rfl, ht, rfl⟩ := hmember
    exact more _ _ ⟨front, _, by simp, .member hvs hdot ht⟩
  · exact .inr justifies_pure

/-- What a level adds to an expression of the next level. -/
theorem justifies_after {level : Nat} (hlevel : level ≤ 8) (h7 : level ≠ 7) {vs : List Token}
    {first : Expr} (h : DerivesExpr (level + 1) vs first) :
    Justifies (n + 1) (us ++ vs) (after level first) := by
  rcases level_cases level with rfl | ⟨op, rfl⟩ | rfl | rfl | ⟨m, rfl⟩
  · exact justifies_assigned below _ first
  · exact justifies_operators below _ op first
  · exact absurd rfl h7
  · exact justifies_suffixes below ⟨us, vs, rfl, h.lift⟩
  · omega

/-- An operator makes the list shorter before its operand is read. -/
theorem justifies_unary (next : Justifies (n + 1) us (finds (readAt 8))) :
    Justifies (n + 1) us (finds (readAt 7)) := by
  rw [finds_readAt_seven]
  refine justifies_ifChosen_fewer rfl (fun sign op => ?_) next
  exact (below 7 (by decide) _).bind (readAt_explains (by decide)) fun _ _ _ => justifies_pure

end

/-- All levels at once, by induction on the number of tokens: at each number from the tightest level
to the loosest. -/
theorem levelsJustify (n : Nat) : LevelsJustify n := by
  induction n with
  | zero => exact fun level _ us => justifies_zero us _
  | succ n below =>
    intro level
    induction level using levels_induction with
    | last m =>
      intro hm us
      obtain rfl : m = 0 := by omega
      exact justifies_primary below us
    | seven eight => exact fun _ us => justifies_unary below us (eight (by decide) us)
    | previous level h7 next =>
      intro hlevel us
      by_cases hlast : level = 9
      · subst hlast
        exact justifies_primary below us
      · have hnext : level + 1 ≤ 9 := by omega
        rw [finds_readAt h7]
        refine (next hnext us).bind (readAt_explains hnext) fun vs first hvs => ?_
        exact justifies_after below us (by omega) h7 hvs

section

variable (n : Nat) (us : List Token)

theorem justifies_expr : Justifies n us (finds expr) :=
  levelsJustify n 0 (by decide) us

/-! ## Statements -/

theorem justifies_letDecl : Justifies n us (finds letDecl) := by
  rw [finds_letDecl]
  refine justifies_token_bind fun keyword _ => ?_
  refine (justifies_binder n _).bind binder_explains fun vs binding _ => ?_
  refine justifies_ifToken (by decide) (fun sign => ?_) ?_
  · refine (justifies_expr n _).bind expr_explains fun ws value _ => ?_
    exact justifies_token_bind fun _ _ => justifies_pure
  · exact justifies_token_bind fun _ _ => justifies_pure

theorem justifies_condition : Justifies n us (finds condition) := by
  rw [finds_condition]
  refine justifies_token_bind fun opening _ => ?_
  refine (justifies_expr n _).bind expr_explains fun vs value _ => ?_
  exact justifies_token_bind fun _ _ => justifies_pure

theorem justifies_returnStmt : Justifies n us (finds returnStmt) := by
  rw [finds_returnStmt]
  refine justifies_token_bind fun keyword _ => ?_
  refine justifies_ifToken (by decide) (fun closing => justifies_pure) ?_
  refine (justifies_expr n _).bind expr_explains fun vs value _ => ?_
  exact justifies_token_bind fun _ _ => justifies_pure

theorem justifies_exprStmt : Justifies n us (finds exprStmt) := by
  rw [finds_exprStmt]
  refine (justifies_expr n us).bind expr_explains fun vs value _ => ?_
  exact justifies_token_bind fun _ _ => justifies_pure

end

section

variable {n : Nat} (below : ∀ us, Justifies n us (finds stmt)) (us : List Token)

include below

theorem justifies_conditional : Justifies (n + 1) us (finds conditional) := by
  rw [finds_conditional]
  refine justifies_token_fewer fun keyword _ => ?_
  refine (justifies_condition n _).bind condition_explains fun vs test _ => ?_
  refine (below _).bind stmt_explains fun ws body _ => ?_
  refine justifies_ifToken (by decide) (fun other => ?_) justifies_pure
  exact (below _).bind stmt_explains fun _ _ _ => justifies_pure

theorem justifies_loopStmt : Justifies (n + 1) us (finds loop) := by
  rw [finds_loop]
  refine justifies_token_fewer fun keyword _ => ?_
  refine (justifies_condition n _).bind condition_explains fun vs test _ => ?_
  exact (below _).bind stmt_explains fun _ _ _ => justifies_pure

/-- A statement makes the list shorter before the rest of the block is read. -/
theorem justifies_blockRest : Justifies n us (finds blockRest) := by
  induction n generalizing us with
  | zero => exact justifies_zero us _
  | succ n ih =>
    rw [finds_blockRest]
    refine justifies_ifToken (by decide) (fun closing => justifies_pure) ?_
    refine justifies_byAhead fun kind => ?_
    split
    · exact justifies_halt SyntaxCause.noConfusion SyntaxCause.noConfusion
    · refine (below us).bind_fewer stmt_explains (finds_usesToken _) fun vs first _ => ?_
      have others := ih fun us => (below us).mono (Nat.le_succ n)
      exact (others _).bind blockRest_explains fun _ _ _ => justifies_pure

theorem justifies_block : Justifies (n + 1) us (finds block) := by
  rw [finds_block]
  exact justifies_token_fewer fun opening _ => justifies_blockRest below _

end

section

variable (n : Nat) (us : List Token)

/-- A statement by its first token; the branches need statements in shorter lists only. -/
theorem justifies_stmt : Justifies n us (finds stmt) := by
  induction n generalizing us with
  | zero => exact justifies_zero us _
  | succ n below =>
    rw [finds_stmt]
    refine justifies_byAhead fun kind => ?_
    split
    · exact (justifies_letDecl _ us).bind letDecl_explains fun _ _ _ => justifies_pure
    · exact justifies_conditional below us
    · exact justifies_loopStmt below us
    · exact justifies_returnStmt _ us
    · exact (justifies_block below us).bind block_explains fun _ _ _ => justifies_pure
    · exact justifies_exprStmt _ us

theorem justifies_body : Justifies n us (finds block) :=
  (justifies_block (justifies_stmt n) us).mono (Nat.le_succ n)

/-! ## Declarations -/

theorem justifies_moduleHeader : Justifies n us (finds moduleHeader) := by
  rw [finds_moduleHeader]
  refine justifies_token_bind fun keyword _ => ?_
  refine (justifies_qualifiedName n _).bind qualifiedName_explains fun vs name _ => ?_
  exact justifies_token_bind fun _ _ => justifies_pure

theorem justifies_importDecl : Justifies n us (finds importDecl) := by
  rw [finds_importDecl]
  refine justifies_token_bind fun keyword _ => ?_
  refine (justifies_qualifiedName n _).bind qualifiedName_explains fun vs path _ => ?_
  refine justifies_ifToken (by decide) (fun sign => ?_) ?_
  · refine (justifies_name n _).bind name_explains fun ws localName _ => ?_
    exact justifies_token_bind fun _ _ => justifies_pure
  · exact justifies_token_bind fun _ _ => justifies_pure

theorem justifies_typeAlias : Justifies n us (finds typeAlias) := by
  rw [finds_typeAlias]
  refine justifies_token_bind fun keyword _ => ?_
  refine (justifies_name n _).bind name_explains fun vs name _ => ?_
  refine justifies_token_bind fun sign _ => ?_
  refine (justifies_typeExpr n _).bind typeExpr_explains fun ws type _ => ?_
  exact justifies_token_bind fun _ _ => justifies_pure

theorem justifies_structDecl : Justifies n us (finds structDecl) := by
  rw [finds_structDecl]
  refine justifies_token_bind fun keyword _ => ?_
  refine (justifies_name n _).bind name_explains fun vs name _ => ?_
  refine justifies_token_bind fun opening _ => ?_
  refine (justifies_findsList (by decide) (justifies_binder n) binder_explains _).bind
    (findsList_explains (by decide) binder_explains) fun ws fields _ => ?_
  exact justifies_token_bind fun _ _ => justifies_pure

theorem justifies_constDecl : Justifies n us (finds constDecl) := by
  rw [finds_constDecl]
  refine justifies_token_bind fun keyword _ => ?_
  refine (justifies_binder n _).bind binder_explains fun vs binding _ => ?_
  refine justifies_token_bind fun sign _ => ?_
  refine (justifies_expr n _).bind expr_explains fun ws value _ => ?_
  exact justifies_token_bind fun _ _ => justifies_pure

theorem justifies_fnDecl : Justifies n us (finds fnDecl) := by
  rw [finds_fnDecl]
  refine justifies_token_bind fun keyword _ => ?_
  refine (justifies_name n _).bind name_explains fun vs name _ => ?_
  refine justifies_token_bind fun opening _ => ?_
  refine (justifies_findsList (by decide) (justifies_binder n) binder_explains _).bind
    (findsList_explains (by decide) binder_explains) fun ws params _ => ?_
  refine justifies_ifToken (by decide) (fun arrow => ?_) ?_
  · refine (justifies_typeExpr n _).bind typeExpr_explains fun xs result _ => ?_
    exact (justifies_body n _).bind block_explains fun _ _ _ => justifies_pure
  · exact (justifies_body n _).bind block_explains fun _ _ _ => justifies_pure

theorem justifies_item : Justifies n us (finds item) := by
  rw [finds_item]
  refine justifies_byAhead fun kind => ?_
  split
  · exact justifies_typeAlias n us
  · exact justifies_structDecl n us
  · exact justifies_constDecl n us
  · exact justifies_fnDecl n us
  · exact (justifies_letDecl n us).bind letDecl_explains fun _ _ _ => justifies_pure
  · exact justifies_halt (by decide) (by decide)

/-! ## Programs -/

theorem justifies_imports : Justifies n us imports := by
  induction n generalizing us with
  | zero => exact justifies_zero us _
  | succ n ih =>
    rw [imports_eq]
    refine justifies_byAhead fun kind => ?_
    split
    · refine (justifies_importDecl _ us).bind_fewer importDecl_explains (finds_usesToken _)
        fun vs first _ => ?_
      exact (ih _).bind imports_explains fun _ _ _ => justifies_pure
    · exact justifies_pure

/-- An item makes the list shorter before the further items are read. -/
theorem justifies_items : Justifies n us items := by
  induction n generalizing us with
  | zero => exact justifies_zero us _
  | succ n ih =>
    rw [items_eq]
    refine justifies_byAhead fun kind => ?_
    split
    · exact justifies_pure
    · refine (justifies_item _ us).bind_fewer item_explains (finds_usesToken _) fun vs first _ => ?_
      exact (ih _).bind items_explains fun _ _ _ => justifies_pure

/-- The program as a whole: header, imports, items. -/
theorem justifies_findsProgram : Justifies n us findsProgram := by
  refine (justifies_moduleHeader n us).bind moduleHeader_explains fun vs name _ => ?_
  refine (justifies_imports n _).bind imports_explains fun ws imports _ => ?_
  exact (justifies_items n _).bind items_explains fun _ _ _ => justifies_pure

end

/-- Reading a program stops for a cause that the tokens bear out, unless it finds one. -/
theorem findsProgram_justified {ts : List Token} {stop : Stop}
    (h : findsProgram ts = .error stop) : stop.Justified ts :=
  justifies_findsProgram (ts.length + 1) [] ts stop (Nat.lt_succ_self _) h

end Grammar

end Quill
