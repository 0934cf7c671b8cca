import Quill.Proofs.Parsing.Equations.Programs
import Quill.Proofs.Parsing.Programs
import Quill.Proofs.Parsing.Viable.Expressions

/-!
# What is used of statements, declarations and programs can be completed

The body of a conditional can be completed by an alternative only if it does not end in a
conditional that would take the `else`. Where the alternative is what stops, the reader has seen
that `else`, so the body it read is of that kind.
-/

set_option autoImplicit false

namespace Quill.Grammar

section

variable (n : Nat)

/-! ## Statements -/

theorem letDecl_explains : Explains DerivesLet (finds letDecl) :=
  fun _ _ _ => letDecl_sound

theorem condition_explains : Explains DerivesCondition (finds condition) :=
  fun _ _ _ => condition_sound

theorem stmt_explains : Explains DerivesStmt (finds stmt) := by
  intro ts v rest h
  obtain ⟨us, hts, hus, -⟩ := stmt_sound ts rest v h
  exact ⟨us, hts, hus⟩

theorem viable_letDecl : Viable n DerivesLet (finds letDecl) := by
  rw [finds_letDecl]
  refine viable_token_bind fun keyword hkeyword => ?_
  refine (viable_binder n).bind binder_explains fun us binding hus => ?_
  refine viable_ifToken (by decide) (fun sign hsign => ?_) ?_
  · refine (viable_expr n).bind expr_explains fun vs value hvs => ?_
    refine viable_token_bind fun closing hclosing => ?_
    exact viable_pure (.valued hkeyword hus hsign hvs hclosing)
  · refine viable_token_bind fun closing hclosing => ?_
    exact viable_pure (.bare hkeyword hus hclosing)

theorem viable_condition : Viable n DerivesCondition (finds condition) := by
  rw [finds_condition]
  refine viable_token_bind fun opening hopening => ?_
  refine (viable_expr n).bind expr_explains fun us value hus => ?_
  refine viable_token_bind fun closing hclosing => ?_
  exact viable_pure (.intro hopening hus hclosing)

theorem viable_returnStmt : Viable n DerivesStmt (finds returnStmt) := by
  rw [finds_returnStmt]
  refine viable_token_bind fun keyword hkeyword => ?_
  refine viable_ifToken (by decide) (fun closing hclosing => ?_) ?_
  · exact viable_pure (.leave hkeyword hclosing)
  · refine (viable_expr n).bind expr_explains fun us value hus => ?_
    refine viable_token_bind fun closing hclosing => ?_
    exact viable_pure (.ret hkeyword hus hclosing)

theorem viable_exprStmt : Viable n DerivesStmt (finds exprStmt) := by
  rw [finds_exprStmt]
  refine (viable_expr n).bind expr_explains fun us value hus => ?_
  refine viable_token_bind fun closing hclosing => ?_
  exact viable_pure (.expr hus hclosing)

theorem exists_stmt : ∃ us stmt, DerivesStmt us stmt :=
  ⟨[sample .kwReturn, sample .semicolon], _, .leave rfl rfl⟩

/-- One part after another. -/
def DerivesEach {α : Type} (derives : List Token → α → Prop) (us : List Token)
    (values : List α) : Prop :=
  ∃ parts : List (List Token × α), us = parts.flatMap Prod.fst ∧
    (∀ part ∈ parts, derives part.1 part.2) ∧ parts.map Prod.snd = values

theorem derivesEach_nil {α : Type} {derives : List Token → α → Prop} :
    DerivesEach derives [] [] :=
  ⟨[], rfl, by simp, rfl⟩

theorem DerivesEach.cons {α : Type} {derives : List Token → α → Prop} {us vs : List Token}
    {first : α} {others : List α} (hvs : DerivesEach derives vs others) (hus : derives us first) :
    DerivesEach derives (us ++ vs) (first :: others) := by
  obtain ⟨parts, rfl, hparts, rfl⟩ := hvs
  exact ⟨(us, first) :: parts, rfl, List.forall_mem_cons.mpr ⟨hus, hparts⟩, rfl⟩

/-- The statements of a block with the brace that closes it. -/
def DerivesBlockRest (us : List Token) (body : List Stmt) : Prop :=
  ∃ vs closing, us = vs ++ [closing] ∧ closing.kind = .rbrace ∧ DerivesEach DerivesStmt vs body

theorem derivesBlockRest_nil {closing : Token} (h : closing.kind = .rbrace) :
    DerivesBlockRest [closing] [] :=
  ⟨[], closing, rfl, h, derivesEach_nil⟩

theorem DerivesBlockRest.cons {us vs : List Token} {first : Stmt} {others : List Stmt}
    (hvs : DerivesBlockRest vs others) (hus : DerivesStmt us first) :
    DerivesBlockRest (us ++ vs) (first :: others) := by
  obtain ⟨ws, closing, rfl, hclosing, hws⟩ := hvs
  exact ⟨us ++ ws, closing, by simp, hclosing, hws.cons hus⟩

theorem blockRest_explains : Explains DerivesBlockRest (finds blockRest) := by
  intro ts body rest h
  have below : ∀ us, us.length < (sample .lbrace :: ts).length → SoundStmt us :=
    fun us _ => stmt_sound us
  obtain ⟨parts, closing, rfl, hclosing, hparts, rfl⟩ :=
    blockRest_sound below (Nat.lt_succ_self _) h
  exact ⟨parts.flatMap Prod.fst ++ [closing], by simp, _, closing, rfl, hclosing, parts, rfl,
    hparts, rfl⟩

theorem block_explains : Explains (fun us body => DerivesStmt us (.block body)) (finds block) :=
  fun _ _ _ => block_sound fun us _ => stmt_sound us

section

variable {n : Nat} (below : Viable n DerivesStmt (finds stmt))

include below

/-- A conditional can be ended after its first branch, and after the other one once there is an
`else`. -/
theorem viable_conditional : Viable (n + 1) DerivesStmt (finds conditional) := by
  rw [finds_conditional]
  refine viable_token_fewer fun keyword hkeyword => ?_
  refine (viable_condition n).bind condition_explains fun us test hus => ?_
  refine below.bind_of_ok (fun vs body hvs => ?_) ?_
  · exact ⟨[], .ifThen test body, by simpa using .ifThen hkeyword hus hvs⟩
  · intro ts body rest stop hts hbody hstop
    obtain ⟨vs, rfl, hvs, hopen⟩ := stmt_sound ts rest body hbody
    -- it is the alternative that stops, so an `else` follows the body
    rcases ifToken_cases .kwElse (by decide) rest with
      ⟨-, heq⟩ | ⟨other, ws, rfl, hother, heq⟩
    · rw [heq] at hstop
      exact nomatch hstop
    · rw [heq] at hstop
      have hclosed : body.endsOpen = false := by
        rw [Bool.eq_false_iff]
        exact fun htrue => hopen htrue hother
      have alternative : Viable n
          (fun ws stmt => DerivesStmt (keyword :: (us ++ (vs ++ other :: ws))) stmt) _ :=
        below.bind stmt_explains fun ws alternative hws => viable_pure
          (by simpa using .ifElse hkeyword hus hvs hclosed hother hws)
      have hws : ws.length < n := by
        simp only [List.length_append, List.length_cons] at hts
        omega
      obtain ⟨used, more, stmt, rfl, hstmt⟩ := alternative.error ws stop hws hstop
      exact ⟨vs ++ other :: used, more, stmt, by simp, by simpa using hstmt⟩

theorem viable_loopStmt : Viable (n + 1) DerivesStmt (finds loop) := by
  rw [finds_loop]
  refine viable_token_fewer fun keyword hkeyword => ?_
  refine (viable_condition n).bind condition_explains fun us test hus => ?_
  refine below.bind stmt_explains fun vs body hvs => ?_
  exact viable_pure (by simpa using .whileDo hkeyword hus hvs)

/-- The rest of a block can be ended after each statement with a closing brace. -/
theorem viable_blockRest : Viable n DerivesBlockRest (finds blockRest) := by
  have empty : ∃ us body, DerivesBlockRest us body :=
    ⟨_, _, derivesBlockRest_nil (rfl : (sample .rbrace).kind = .rbrace)⟩
  induction n with
  | zero => exact viable_zero empty
  | succ n ih =>
    rw [finds_blockRest]
    refine viable_ifToken (by decide)
      (fun closing hclosing => viable_pure (derivesBlockRest_nil hclosing)) ?_
    refine viable_byAhead fun kind => ?_
    split
    · exact viable_halt empty
    · refine below.bind_fewer stmt_explains (finds_usesToken _) fun us first hus => ?_
      have others := ih (below.mono (Nat.le_succ n))
      refine others.bind blockRest_explains fun vs others hvs => ?_
      exact viable_pure (by simpa using hvs.cons hus)

theorem viable_block :
    Viable (n + 1) (fun us body => DerivesStmt us (.block body)) (finds block) := by
  rw [finds_block]
  refine viable_token_fewer fun opening hopening => ?_
  refine (viable_blockRest below).weaken fun us body hus => ?_
  obtain ⟨vs, closing, rfl, hclosing, parts, rfl, hparts, rfl⟩ := hus
  exact .block hopening hparts hclosing

end

/-- Every branch for the first token reads statements, and whatever it stops at, a statement can be
finished there. -/
theorem viable_stmt : Viable n DerivesStmt (finds stmt) := by
  induction n with
  | zero => exact viable_zero exists_stmt
  | succ n below =>
    rw [finds_stmt]
    refine viable_byAhead fun kind => ?_
    split
    · refine (viable_letDecl _).bind letDecl_explains fun us decl hus => ?_
      exact viable_pure (by simpa using .letDecl hus)
    · exact viable_conditional below
    · exact viable_loopStmt below
    · exact viable_returnStmt _
    · refine (viable_block below).bind block_explains fun us body hus => ?_
      exact viable_pure (by simpa using hus)
    · exact viable_exprStmt _

theorem viable_body : Viable n (fun us body => DerivesStmt us (.block body)) (finds block) :=
  (viable_block (viable_stmt n)).mono (Nat.le_succ n)

/-! ## Declarations -/

/-- The line that names the module. -/
def DerivesHeader (us : List Token) (name : QualifiedName) : Prop :=
  ∃ keyword vs closing, us = keyword :: (vs ++ [closing]) ∧ keyword.kind = .kwModule ∧
    DerivesSegments vs name.segments ∧ closing.kind = .semicolon

theorem moduleHeader_explains : Explains DerivesHeader (finds moduleHeader) := by
  intro ts name rest h
  obtain ⟨keyword, us, closing, rfl, hkeyword, hus, hclosing⟩ := moduleHeader_sound h
  exact ⟨keyword :: (us ++ [closing]), by simp, keyword, us, closing, rfl, hkeyword, hus, hclosing⟩

theorem importDecl_explains : Explains DerivesImport (finds importDecl) :=
  fun _ _ _ => importDecl_sound

theorem item_explains : Explains DerivesItem (finds item) :=
  fun _ _ _ => item_sound

theorem imports_explains : Explains (DerivesEach DerivesImport) imports := by
  intro ts decls rest h
  obtain ⟨parts, hts, hparts, hdecls⟩ := imports_sound h
  exact ⟨_, hts, parts, rfl, hparts, hdecls⟩

theorem items_explains : Explains (DerivesEach DerivesItem) items := by
  intro ts decls rest h
  obtain ⟨-, parts, hts, hparts, hdecls⟩ := items_sound h
  exact ⟨_, hts, parts, rfl, hparts, hdecls⟩

theorem viable_moduleHeader : Viable n DerivesHeader (finds moduleHeader) := by
  rw [finds_moduleHeader]
  refine viable_token_bind fun keyword hkeyword => ?_
  refine (viable_qualifiedName n).bind qualifiedName_explains fun us name hus => ?_
  refine viable_token_bind fun closing hclosing => ?_
  exact viable_pure ⟨keyword, us, closing, rfl, hkeyword, hus, hclosing⟩

theorem viable_importDecl : Viable n DerivesImport (finds importDecl) := by
  rw [finds_importDecl]
  refine viable_token_bind fun keyword hkeyword => ?_
  refine (viable_qualifiedName n).bind qualifiedName_explains fun us path hus => ?_
  refine viable_ifToken (by decide) (fun sign hsign => ?_) ?_
  · refine viable_name_bind fun t ht => ?_
    refine viable_token_bind fun closing hclosing => ?_
    exact viable_pure (.renamed hkeyword hus hsign ht hclosing)
  · refine viable_token_bind fun closing hclosing => ?_
    exact viable_pure (.bare hkeyword hus hclosing)

theorem viable_typeAlias : Viable n DerivesItem (finds typeAlias) := by
  rw [finds_typeAlias]
  refine viable_token_bind fun keyword hkeyword => ?_
  refine viable_name_bind fun t ht => ?_
  refine viable_token_bind fun sign hsign => ?_
  refine (viable_typeExpr n).bind typeExpr_explains fun us type hus => ?_
  refine viable_token_bind fun closing hclosing => ?_
  exact viable_pure (.typeAlias hkeyword ht hsign hus hclosing)

theorem viable_structDecl : Viable n DerivesItem (finds structDecl) := by
  rw [finds_structDecl]
  refine viable_token_bind fun keyword hkeyword => ?_
  refine viable_name_bind fun t ht => ?_
  refine viable_token_bind fun opening hopening => ?_
  refine (viable_findsList (by decide) (viable_binder n) binder_explains).bind
    (findsList_explains (by decide) binder_explains) fun us fields hus => ?_
  obtain ⟨parts, inner, last, rfl, hlast, hjoined, hparts, rfl⟩ := hus
  refine viable_token_bind fun closing hclosing => ?_
  exact viable_pure
    (by simpa using .struct hkeyword ht hopening hjoined hparts hlast hclosing)

theorem viable_constDecl : Viable n DerivesItem (finds constDecl) := by
  rw [finds_constDecl]
  refine viable_token_bind fun keyword hkeyword => ?_
  refine (viable_binder n).bind binder_explains fun us binding hus => ?_
  refine viable_token_bind fun sign hsign => ?_
  refine (viable_expr n).bind expr_explains fun vs value hvs => ?_
  refine viable_token_bind fun closing hclosing => ?_
  exact viable_pure (.const hkeyword hus hsign hvs hclosing)

theorem viable_fnDecl : Viable n DerivesItem (finds fnDecl) := by
  rw [finds_fnDecl]
  refine viable_token_bind fun keyword hkeyword => ?_
  refine viable_name_bind fun t ht => ?_
  refine viable_token_bind fun opening hopening => ?_
  refine (viable_findsList (by decide) (viable_binder n) binder_explains).bind
    (findsList_explains (by decide) binder_explains) fun us params hus => ?_
  obtain ⟨parts, inner, last, rfl, hlast, hjoined, hparts, rfl⟩ := hus
  refine viable_ifToken (by decide) (fun arrow harrow => ?_) ?_
  · refine (viable_typeExpr n).bind typeExpr_explains fun us result hus => ?_
    refine (viable_body n).bind block_explains fun vs body hvs => ?_
    exact viable_pure
      (by simpa using .function hkeyword ht hopening hjoined hparts hlast harrow hus hvs)
  · refine (viable_body n).bind block_explains fun vs body hvs => ?_
    exact viable_pure (by simpa using .procedure hkeyword ht hopening hjoined hparts hlast hvs)

theorem exists_item : ∃ us item, DerivesItem us item := by
  obtain ⟨us, decl, hus⟩ := (viable_letDecl 0).inhabited
  exact ⟨us, .letDecl decl, .letDecl hus⟩

/-- Every branch for the first token reads items; where none starts, an item can be put. -/
theorem viable_item : Viable n DerivesItem (finds item) := by
  rw [finds_item]
  refine viable_byAhead fun kind => ?_
  split
  · exact viable_typeAlias n
  · exact viable_structDecl n
  · exact viable_constDecl n
  · exact viable_fnDecl n
  · refine (viable_letDecl n).bind letDecl_explains fun us decl hus => ?_
    exact viable_pure (by simpa using .letDecl hus)
  · exact viable_halt exists_item

/-! ## Programs -/

/-- Imports can be ended after each of them. -/
theorem viable_imports : Viable n (DerivesEach DerivesImport) imports := by
  induction n with
  | zero => exact viable_zero ⟨[], [], derivesEach_nil⟩
  | succ n ih =>
    rw [imports_eq]
    refine viable_byAhead fun kind => ?_
    split
    · refine (viable_importDecl _).bind_fewer importDecl_explains (finds_usesToken _)
        fun us first hus => ?_
      refine ih.bind imports_explains fun vs others hvs => ?_
      exact viable_pure (by simpa using hvs.cons hus)
    · exact viable_pure derivesEach_nil

/-- Items can be ended after each of them. -/
theorem viable_items : Viable n (DerivesEach DerivesItem) items := by
  induction n with
  | zero => exact viable_zero ⟨[], [], derivesEach_nil⟩
  | succ n ih =>
    rw [items_eq]
    refine viable_byAhead fun kind => ?_
    split
    · exact viable_pure derivesEach_nil
    · refine (viable_item _).bind_fewer item_explains (finds_usesToken _) fun us first hus => ?_
      refine ih.bind items_explains fun vs others hvs => ?_
      exact viable_pure (by simpa using hvs.cons hus)

/-- A derived header, derived imports and derived items make a program. -/
theorem derivesProgram_of_parts {us vs ws : List Token} {name : QualifiedName}
    {imports : List Import} {items : List Item} (hus : DerivesHeader us name)
    (hvs : DerivesEach DerivesImport vs imports) (hws : DerivesEach DerivesItem ws items) :
    DerivesProgram (us ++ (vs ++ ws)) ⟨name, imports, items⟩ := by
  obtain ⟨keyword, ns, closing, rfl, hkeyword, hns, hclosing⟩ := hus
  obtain ⟨is, rfl, his, rfl⟩ := hvs
  obtain ⟨ds, rfl, hds, rfl⟩ := hws
  simpa using DerivesProgram.intro hkeyword hns hclosing his hds

/-- Where a program stops being read, its parts so far can be finished and the others put after
them. -/
theorem viable_findsProgram : Viable n DerivesProgram findsProgram := by
  refine (viable_moduleHeader n).bind moduleHeader_explains fun us name hus => ?_
  refine (viable_imports n).bind imports_explains fun vs imports hvs => ?_
  refine (viable_items n).bind items_explains fun ws items hws => ?_
  exact viable_pure (by simpa using derivesProgram_of_parts hus hvs hws)

end

end Quill.Grammar
