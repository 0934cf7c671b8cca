import Quill.Proofs.RoundTrip.Groups
import Quill.Proofs.RoundTrip.Programs

/-!
# The tokens that a canonical text keeps

The canonical text of a program that was read from a source has the tokens of that source, in
their order, without the parentheses around types (`Program.canonical_keeps_tokens`).

* `Thinned n m us vs`: the words `vs` are the words `us` without `n` opening and `m` closing
  parentheses. Nothing else is left out, added or moved.
* `Kept us words`: the words of the tokens `us` come out as `words`, with as many opening
  parentheses left out as closing ones, and none at all if no type is grouped.

Each rule of the grammar keeps its tokens if its parts do. A type is the one exception: it is kept
only where what stands before it shows whether it is in parentheses (`TypeKept.after`).
-/

set_option autoImplicit false

namespace Quill

open Lexical Grammar

/-! ## Leaving out parentheses -/

/-- The second list is the first without a number of opening and a number of closing
parentheses. -/
inductive Thinned : Nat → Nat → List Word → List Word → Prop
  | nil : Thinned 0 0 [] []
  | keep {n m : Nat} {us vs : List Word} (word : Word) : Thinned n m us vs →
      Thinned n m (word :: us) (word :: vs)
  | opening {n m : Nat} {us vs : List Word} (text : String) : Thinned n m us vs →
      Thinned (n + 1) m ((.lparen, text) :: us) vs
  | closing {n m : Nat} {us vs : List Word} (text : String) : Thinned n m us vs →
      Thinned n (m + 1) ((.rparen, text) :: us) vs

namespace Thinned

theorem refl (words : List Word) : Thinned 0 0 words words := by
  induction words with
  | nil => exact .nil
  | cons word words ih => exact .keep word ih

/-- Two runs in turn: the numbers of parentheses left out are added up. -/
theorem append {n m k l : Nat} {us vs ws xs : List Word} (hus : Thinned n m us vs)
    (hws : Thinned k l ws xs) : Thinned (n + k) (m + l) (us ++ ws) (vs ++ xs) := by
  induction hus with
  | nil => simpa using hws
  | keep word _ ih => exact .keep word ih
  | opening text _ ih =>
    rw [Nat.add_right_comm]
    exact .opening text ih
  | closing text _ ih =>
    rw [Nat.add_right_comm]
    exact .closing text ih

/-- Where nothing is left out, the lists are the same. -/
theorem eq_of_zero {n m : Nat} {us vs : List Word} (h : Thinned n m us vs) (hn : n = 0)
    (hm : m = 0) : us = vs := by
  induction h with
  | nil => rfl
  | keep word _ ih => rw [ih hn hm]
  | opening => exact absurd hn (Nat.succ_ne_zero _)
  | closing => exact absurd hm (Nat.succ_ne_zero _)

end Thinned

/-! ## Words with one spelling -/

/-- The keywords and marks, each with its kind. -/
def fixedWords : List Word :=
  Kind.keywords.map Prod.swap ++
    Kind.doubleMarks.map (fun mark => (mark.2, String.ofList [mark.1.1, mark.1.2])) ++
    Kind.singleMarks.map fun mark => (mark.2, String.ofList [mark.1])

/-- A lexeme of a kind that is neither a literal nor a name is a keyword or a mark. -/
theorem mem_fixedWords_of_isLexeme {kind : Kind} {text : String} (h : IsLexeme kind text.toList)
    (hkind : kind ≠ .number ∧ kind ≠ .string ∧ kind ≠ .ident) : (kind, text) ∈ fixedWords := by
  generalize hword : text.toList = word at h
  have htext : text = String.ofList word := by rw [← hword, String.ofList_toList]
  rw [fixedWords, List.mem_append, List.mem_append]
  cases h with
  | number => exact absurd rfl hkind.1
  | string => exact absurd rfl hkind.2.1
  | name => exact absurd rfl hkind.2.2
  | keyword hmem =>
    rw [String.ofList_toList] at htext
    exact .inl (.inl (List.mem_map.mpr ⟨_, hmem, by rw [htext]; rfl⟩))
  | double hmem => exact .inl (.inr (List.mem_map.mpr ⟨_, hmem, by rw [htext]⟩))
  | single hmem => exact .inr (List.mem_map.mpr ⟨_, hmem, by rw [htext]⟩)

/-- A token of the kind of a keyword or mark is that keyword or mark. -/
theorem word_of_fixed {t : Token} {word : Word} (ht : IsLexeme t.kind t.text.toList)
    (hword : word ∈ fixedWords) (hkind : t.kind = word.1) : t.word = word := by
  have hfixed : ∀ word ∈ fixedWords, word.1 ≠ .number ∧ word.1 ≠ .string ∧ word.1 ≠ .ident := by
    decide
  have hone : ∀ word ∈ fixedWords, ∀ other ∈ fixedWords, word.1 = other.1 → word = other := by
    decide +kernel
  have hmem : t.word ∈ fixedWords :=
    mem_fixedWords_of_isLexeme ht (hkind ▸ hfixed word hword)
  exact hone _ hmem _ hword hkind

/-- An operator is found for its own kind only. -/
theorem BinaryOp.kind_of_ofKind? {kind : Kind} {op : BinaryOp} (h : ofKind? kind = some op) :
    kind = op.kind := by
  unfold ofKind? at h
  split at h <;> cases h <;> rfl

theorem BinaryOp.mem_fixedWords (op : BinaryOp) : (op.kind, op.symbol) ∈ fixedWords := by
  cases op <;> decide

theorem UnaryOp.kind_of_ofKind? {kind : Kind} {op : UnaryOp} (h : ofKind? kind = some op) :
    kind = op.kind := by
  unfold ofKind? at h
  split at h <;> cases h <;> rfl

theorem UnaryOp.mem_fixedWords (op : UnaryOp) : (op.kind, op.symbol) ∈ fixedWords := by
  cases op <;> decide

/-! ## What a construct keeps -/

/-- The words of spelled tokens, without as many opening as closing parentheses, and without any
that are not around a type. -/
def Kept (us : List Token) (words : List Word) : Prop :=
  Spelled us → ∃ n, Thinned n n (us.map Token.word) words ∧
    (groupsType (us.map Token.kind) = false → n = 0)

namespace Kept

theorem nil : Kept [] [] := fun _ => ⟨0, .nil, fun _ => rfl⟩

theorem append {us vs : List Token} {ws xs : List Word} (hus : Kept us ws) (hvs : Kept vs xs) :
    Kept (us ++ vs) (ws ++ xs) := by
  intro hspelled
  obtain ⟨hleft, hright⟩ := spelled_append.mp hspelled
  obtain ⟨n, hn, hnone⟩ := hus hleft
  obtain ⟨m, hm, hmone⟩ := hvs hright
  refine ⟨n + m, ?_, fun hfree => ?_⟩
  · rw [List.map_append]
    exact hn.append hm
  · rw [List.map_append] at hfree
    obtain ⟨husfree, hvsfree⟩ := groupsType_append_eq_false hfree
    rw [hnone husfree, hmone hvsfree]

/-- Tokens that all come out as they are. -/
theorem of_words {us : List Token} {words : List Word}
    (h : Spelled us → us.map Token.word = words) : Kept us words := by
  intro hspelled
  rw [h hspelled]
  exact ⟨0, .refl words, fun _ => rfl⟩

/-- A keyword or a mark before other tokens. -/
theorem fixed {t : Token} {kind : Kind} {text : String} {us : List Token} {words : List Word}
    (hkind : t.kind = kind) (hword : (kind, text) ∈ fixedWords) (h : Kept us words) :
    Kept (t :: us) ((kind, text) :: words) := by
  have htoken : Kept [t] [(kind, text)] := of_words fun hspelled => by
    rw [List.map_singleton, word_of_fixed (spelled_cons.mp hspelled).1 hword hkind]
  exact htoken.append h

/-- A name or a literal before other tokens. -/
theorem named {t : Token} {kind : Kind} {us : List Token} {words : List Word}
    (hkind : t.kind = kind) (h : Kept us words) : Kept (t :: us) ((kind, t.text) :: words) := by
  have htoken : Kept [t] [(kind, t.text)] := of_words fun _ => by
    rw [List.map_singleton, Token.word, hkind]
  exact htoken.append h

theorem flatMap {α : Type} {words : α → List Word} {parts : List (List Token × α)}
    (h : ∀ part ∈ parts, Kept part.1 (words part.2)) :
    Kept (parts.flatMap Prod.fst) ((parts.map Prod.snd).flatMap words) := by
  induction parts with
  | nil => exact nil
  | cons part others ih =>
    obtain ⟨hpart, hothers⟩ := List.forall_mem_cons.mp h
    exact hpart.append (ih hothers)

theorem commaJoined {α : Type} {words : α → List Word} {parts : List (List Token × α)}
    {us : List Token} (hjoined : CommaJoined parts us)
    (h : ∀ part ∈ parts, Kept part.1 (words part.2)) :
    Kept us (commaWords ((parts.map Prod.snd).map words)) := by
  induction hjoined with
  | none => exact nil
  | one => simpa [commaWords] using h
  | @more part next parts comma us hcomma _ ih =>
    obtain ⟨hpart, hothers⟩ := List.forall_mem_cons.mp h
    have hwords : commaWords (((part :: next :: parts).map Prod.snd).map words) =
        words part.2 ++ (.comma, ",") ::
          commaWords (((next :: parts).map Prod.snd).map words) := by
      simp [commaWords]
    rw [hwords]
    exact hpart.append ((ih hothers).fixed hcomma (by decide))

end Kept

/-! ## Names and types -/

namespace Grammar

theorem DerivesSegments.map_word {us : List Token} {names : List String}
    (h : DerivesSegments us names) (hus : Spelled us) :
    us.map Token.word = segmentWords names := by
  induction h with
  | one hname => rw [List.map_singleton, Token.word, hname, segmentWords]
  | @more name dot us others hname hdot hothers ih =>
    simp only [spelled_cons] at hus
    have hdot' : dot.word = (.dot, ".") := word_of_fixed hus.2.1 (by decide) hdot
    rw [List.map_cons, List.map_cons, ih hus.2.2, hdot', Token.word, hname]
    -- at least one name follows the point
    cases hothers <;> rfl

theorem DerivesSegments.kept {us : List Token} {names : List String}
    (h : DerivesSegments us names) : Kept us (segmentWords names) :=
  .of_words h.map_word

end Grammar

/-- The words of the tokens of a type, without the parentheses around it and around the types in
it; none are left out if the first token opens none. -/
def TypeKept (us : List Token) (words : List Word) : Prop :=
  Spelled us → ∃ n, Thinned n n (us.map Token.word) words ∧
    ((us.map Token.kind).head? ≠ some .lparen → n = 0)

/-- A type is kept in its place, where a parenthesis shows that it is grouped. -/
theorem TypeKept.after {us marks : List Token} {words before : List Word} (h : TypeKept us words)
    (hmarks : marks.map Token.kind ∈ typePlaces) (hbefore : Kept marks before) :
    Kept (marks ++ us) (before ++ words) := by
  intro hspelled
  obtain ⟨hleft, hright⟩ := spelled_append.mp hspelled
  obtain ⟨n, hn, hnone⟩ := hbefore hleft
  obtain ⟨m, hm, hmone⟩ := h hright
  refine ⟨n + m, ?_, fun hfree => ?_⟩
  · rw [List.map_append]
    exact hn.append hm
  · rw [List.map_append] at hfree
    have hhead : (us.map Token.kind).head? ≠ some .lparen := by
      intro hopens
      rw [groupsType_of_group hmarks hopens] at hfree
      exact absurd hfree (by decide)
    rw [hnone (groupsType_append_eq_false hfree).1, hmone hhead]

namespace Grammar

/-- The words of a type are its tokens without the parentheses around types. -/
theorem DerivesType.kept {rule : TypeRule} {us : List Token} {type : TypeExpr}
    (h : DerivesType rule us type) : TypeKept us type.words := by
  induction h with
  | simple _ ih => exact ih
  | @array us opening closing element _ hopening hclosing ih =>
    intro hspelled
    obtain ⟨hleft, hright⟩ := spelled_append.mp hspelled
    obtain ⟨n, hn, hnone⟩ := ih hleft
    have hopening' : opening.word = (.lbracket, "[") :=
      word_of_fixed (spelled_cons.mp hright).1 (by decide) hopening
    have hclosing' : closing.word = (.rbracket, "]") :=
      word_of_fixed (spelled_cons.mp (spelled_cons.mp hright).2).1 (by decide) hclosing
    refine ⟨n, ?_, fun hhead => hnone fun hopens => hhead ?_⟩
    · rw [List.map_append, List.map_cons, List.map_singleton, hopening', hclosing']
      exact hn.append (.refl _)
    · rw [List.map_append, List.head?_append, hopens]
      rfl
  | @builtIn t hkind =>
    intro hspelled
    have hmem : (t.text, t.kind) ∈ Kind.keywords := by
      apply keyword_of_isLexeme (spelled_cons.mp hspelled).1
      rcases hkind with hkind | hkind | hkind <;> rw [hkind] <;> decide
    refine ⟨0, ?_, fun _ => rfl⟩
    rw [TypeExpr.words, typeNameWords, keyword?_eq_some_iff.mpr hmem]
    exact .refl _
  | @segments us names hnames =>
    intro hspelled
    obtain ⟨hne, hall⟩ := hnames.wellFormed hspelled
    refine ⟨0, ?_, fun _ => rfl⟩
    rw [TypeExpr.words, typeNameWords_dotted hne hall, hnames.map_word hspelled]
    exact .refl _
  | @group us opening closing type hopening _ hclosing ih =>
    intro hspelled
    simp only [spelled_cons, spelled_append] at hspelled
    obtain ⟨n, hn, -⟩ := ih hspelled.2.1
    -- the opening parenthesis shows that a group stands here, and both parentheses are left out
    have hclose : Thinned 0 1 [closing.word] [] := by
      rw [Token.word, hclosing]
      exact .closing _ .nil
    refine ⟨n + 1, ?_, fun hhead => absurd ?_ hhead⟩
    · rw [List.map_cons, List.map_append, Token.word, hopening]
      have hinner := hn.append hclose
      rw [List.append_nil] at hinner
      exact .opening _ hinner
    · rw [List.map_cons, hopening]
      rfl

theorem DerivesBinder.kept {us : List Token} {binder : Binder} (h : DerivesBinder us binder) :
    Kept us binder.words := by
  obtain ⟨hname, hcolon, htype⟩ := h
  have hplace : Kept [_] [(Kind.colon, ":")] := Kept.nil.fixed hcolon (by decide)
  exact (htype.kept.after (by simp [hcolon, typePlaces]) hplace).named hname

/-! ## Expressions -/

/-- The words of an expression are its tokens, parentheses included. -/
theorem DerivesExpr.kept {level : Nat} {us : List Token} {expr : Expr}
    (h : DerivesExpr level us expr) : Kept us expr.words := by
  induction h with
  | lift _ ih => exact ih
  | assign _ hsign _ ihtarget ihvalue =>
    rw [Expr.words]
    exact ihtarget.append (ihvalue.fixed hsign (by decide))
  | @binary us vs sign op lhs rhs _ hsign _ ihlhs ihrhs =>
    rw [Expr.words]
    exact ihlhs.append (ihrhs.fixed (BinaryOp.kind_of_ofKind? hsign) op.mem_fixedWords)
  | @unary us sign op operand hsign _ ih =>
    rw [Expr.words]
    exact ih.fixed (UnaryOp.kind_of_ofKind? hsign) op.mem_fixedWords
  | @call us inner opening closing callee args _ hopening hjoined _ hclosing ihcallee ihargs =>
    have hargs := Kept.commaJoined hjoined ihargs
    have hclose : Kept [closing] [(.rparen, ")")] := Kept.nil.fixed hclosing (by decide)
    rw [Expr.words, Expr.wordsList_eq_map]
    exact ihcallee.append ((hargs.append hclose).fixed hopening (by decide))
  | @index us vs opening closing array position _ hopening _ hclosing iharray ihposition =>
    have hclose : Kept [closing] [(.rbracket, "]")] := Kept.nil.fixed hclosing (by decide)
    rw [Expr.words]
    exact iharray.append ((ihposition.append hclose).fixed hopening (by decide))
  | member _ hdot hname ih =>
    rw [Expr.words]
    exact ih.append ((Kept.nil.named hname).fixed hdot (by decide))
  | var hname => exact Kept.nil.named hname
  | number hkind => exact Kept.nil.named hkind
  | string hkind => exact Kept.nil.named hkind
  | kwTrue hkind => exact Kept.nil.fixed hkind (by decide)
  | kwFalse hkind => exact Kept.nil.fixed hkind (by decide)
  | @paren us opening closing inner hopening _ hclosing ih =>
    have hclose : Kept [closing] [(.rparen, ")")] := Kept.nil.fixed hclosing (by decide)
    rw [Expr.words]
    exact (ih.append hclose).fixed hopening (by decide)

/-! ## Statements -/

theorem DerivesLet.kept {us : List Token} {decl : LetDecl} (h : DerivesLet us decl) :
    Kept us decl.words := by
  cases h with
  | @bare us keyword closing binder hkeyword hbinder hclosing =>
    have hclose : Kept [closing] [(.semicolon, ";")] := Kept.nil.fixed hclosing (by decide)
    exact (hbinder.kept.append hclose).fixed hkeyword (by decide)
  | @valued us vs keyword sign closing binder value hkeyword hbinder hsign hvalue hclosing =>
    have hclose : Kept [closing] [(.semicolon, ";")] := Kept.nil.fixed hclosing (by decide)
    exact (hbinder.kept.append ((hvalue.kept.append hclose).fixed hsign (by decide))).fixed
      hkeyword (by decide)

theorem DerivesCondition.kept {us : List Token} {condition : Expr}
    (h : DerivesCondition us condition) : Kept us (conditionWords condition) := by
  obtain ⟨hopening, hvalue, hclosing⟩ := h
  exact (hvalue.kept.append (Kept.nil.fixed hclosing (by decide))).fixed hopening (by decide)

theorem DerivesStmt.kept {us : List Token} {stmt : Stmt} (h : DerivesStmt us stmt) :
    Kept us stmt.words := by
  induction h with
  | letDecl h => exact h.kept
  | expr hvalue hclosing =>
    rw [Stmt.words]
    exact hvalue.kept.append (Kept.nil.fixed hclosing (by decide))
  | ifThen hkeyword hcondition _ ih =>
    rw [Stmt.words]
    exact (hcondition.kept.append ih).fixed hkeyword (by decide)
  | ifElse hkeyword hcondition _ _ hother _ ihbody ihother =>
    rw [Stmt.words]
    exact (hcondition.kept.append (ihbody.append (ihother.fixed hother (by decide)))).fixed
      hkeyword (by decide)
  | whileDo hkeyword hcondition _ ih =>
    rw [Stmt.words]
    exact (hcondition.kept.append ih).fixed hkeyword (by decide)
  | leave hkeyword hclosing =>
    exact (Kept.nil.fixed hclosing (by decide)).fixed hkeyword (by decide)
  | ret hkeyword hvalue hclosing =>
    rw [Stmt.words]
    exact (hvalue.kept.append (Kept.nil.fixed hclosing (by decide))).fixed hkeyword (by decide)
  | block hopening _ hclosing ih =>
    rw [Stmt.words, Stmt.wordsList_eq_flatMap]
    exact ((Kept.flatMap ih).append (Kept.nil.fixed hclosing (by decide))).fixed hopening
      (by decide)

/-! ## Programs -/

theorem DerivesImport.kept {us : List Token} {decl : Import} (h : DerivesImport us decl) :
    Kept us decl.words := by
  cases h with
  | bare hkeyword hpath hclosing =>
    exact (hpath.kept.append (Kept.nil.fixed hclosing (by decide))).fixed hkeyword (by decide)
  | renamed hkeyword hpath hsign hname hclosing =>
    exact (hpath.kept.append (((Kept.nil.fixed hclosing (by decide)).named hname).fixed hsign
      (by decide))).fixed hkeyword (by decide)

theorem DerivesItem.kept {us : List Token} {item : Item} (h : DerivesItem us item) :
    Kept us item.words := by
  cases h with
  | @typeAlias us keyword name sign closing type hkeyword hname hsign htype hclosing =>
    have hplace : Kept [keyword, name, sign]
        [(.kwType, "type"), (.ident, name.text), (.assign, "=")] :=
      ((Kept.nil.fixed hsign (by decide)).named hname).fixed hkeyword (by decide)
    have halias := htype.kept.after (by simp [hkeyword, hname, hsign, typePlaces]) hplace
    exact halias.append (Kept.nil.fixed hclosing (by decide))
  | @struct inner keyword name opening last closing fields hkeyword hname hopening hjoined hfields
      hlast hclosing =>
    have hinner := Kept.commaJoined hjoined fun field hfield => (hfields field hfield).kept
    have hend : Kept [last, closing] [(.rbrace, "\x7d"), (.semicolon, ";")] :=
      (Kept.nil.fixed hclosing (by decide)).fixed hlast (by decide)
    exact (((hinner.append hend).fixed hopening (by decide)).named hname).fixed hkeyword
      (by decide)
  | @const us vs keyword sign closing binder value hkeyword hbinder hsign hvalue hclosing =>
    have hclose : Kept [closing] [(.semicolon, ";")] := Kept.nil.fixed hclosing (by decide)
    exact (hbinder.kept.append ((hvalue.kept.append hclose).fixed hsign (by decide))).fixed
      hkeyword (by decide)
  | procedure hkeyword hname hopening hjoined hparams hlast hblock =>
    have hinner := Kept.commaJoined hjoined fun param hparam => (hparams param hparam).kept
    exact (((hinner.append (hblock.kept.fixed hlast (by decide))).fixed hopening
      (by decide)).named hname).fixed hkeyword (by decide)
  | @function inner us block keyword name opening last arrow params result body hkeyword hname
      hopening hjoined hparams hlast harrow hresult hblock =>
    have hinner := Kept.commaJoined hjoined fun param hparam => (hparams param hparam).kept
    have hplace : Kept [arrow] [(.arrow, "->")] := Kept.nil.fixed harrow (by decide)
    have htype := hresult.kept.after (by simp [harrow, typePlaces]) hplace
    have hend := htype.append hblock.kept
    exact (((hinner.append (hend.fixed hlast (by decide))).fixed hopening (by decide)).named
      hname).fixed hkeyword (by decide)
  | letDecl h => exact h.kept

/-- A program keeps its tokens, without the parentheses around types. -/
theorem DerivesProgram.kept {us : List Token} {program : Program} (h : DerivesProgram us program) :
    Kept us program.words := by
  obtain ⟨hkeyword, hname, hclosing, himports, hitems⟩ := h
  have hdecls := Kept.flatMap fun decl hdecl => (himports decl hdecl).kept
  have hparts := Kept.flatMap fun item hitem => (hitems item hitem).kept
  exact (hname.kept.append ((hdecls.append hparts).fixed hclosing (by decide))).fixed hkeyword
    (by decide)

end Grammar

/-! ## The canonical text -/

namespace Program

/-- The tokens of the canonical text are those of the source, without as many opening as closing
parentheses, and exactly those of the source if no type is in parentheses there. -/
theorem canonical_keeps_tokens {source : String} {ts : List Token} {program : Program}
    (hscan : Token.scan source = .ok ts) (hread : ofTokens ts = .ok program) :
    ∃ again n, Token.scan program.canonical = .ok again ∧
      Thinned n n (ts.map Token.word) (again.map Token.word) ∧
      (again.map Token.word = ts.map Token.word ↔ groupsType (ts.map Token.kind) = false) := by
  have hprogram := wellFormed_of_reads hscan hread
  -- the canonical text spells the words of the program, and the end of the input
  obtain ⟨vs, hvs, hwords⟩ := hprogram.spells Pos.start
  have hagain := (Token.scan_eq_ok_iff program.canonical _).mpr ⟨vs, hvs, rfl⟩
  obtain ⟨us, hus, rfl⟩ := (Token.scan_eq_ok_iff source ts).mp hscan
  have hderives : DerivesProgram us program := by
    rwa [ofTokens_eq_ok_iff_program, program_append_eof_iff rfl] at hread
  obtain ⟨n, hn, hnone⟩ := hderives.kept hus.isLexeme
  refine ⟨_, n, hagain, ?_, ?_⟩
  · simp only [List.map_append, hwords, List.map_singleton]
    exact hn.append (.refl _)
  · simp only [List.map_append, hwords, List.map_singleton]
    constructor
    · -- the words of a program group no type, so the equal words of the source do not either
      intro hsame
      calc groupsType (us.map Token.kind ++ [Kind.eof])
          = groupsType ((us.map Token.word ++ [(Kind.eof, "")]).map Prod.fst) := by
            rw [List.map_append, List.map_map]
            rfl
        _ = groupsType ((program.words ++ [(Kind.eof, "")]).map Prod.fst) :=
            congrArg (fun words => groupsType (words.map Prod.fst)) hsame.symm
        _ = false := hprogram.ungrouped _
    · intro hfree
      obtain rfl := hnone (groupsType_append_eq_false hfree).1
      rw [hn.eq_of_zero rfl rfl]
      rfl

/-- A type in two pairs of parentheses, one around its element type, and a value in one pair: the
parentheses around types are left out, those of the value are not. -/
theorem canonical_keeps_tokens_grouped_type :
    ∃ ts program again n, Token.scan "module m; let x: ((int)[]) = (a);" = .ok ts ∧
      ofTokens ts = .ok program ∧ Token.scan program.canonical = .ok again ∧
      Thinned n n (ts.map Token.word) (again.map Token.word) ∧
      again.map Token.word ≠ ts.map Token.word := by
  let ts : List Token := [⟨.kwModule, "module", ⟨1, 1⟩⟩, ⟨.ident, "m", ⟨1, 8⟩⟩,
    ⟨.semicolon, ";", ⟨1, 9⟩⟩, ⟨.kwLet, "let", ⟨1, 11⟩⟩, ⟨.ident, "x", ⟨1, 15⟩⟩,
    ⟨.colon, ":", ⟨1, 16⟩⟩, ⟨.lparen, "(", ⟨1, 18⟩⟩, ⟨.lparen, "(", ⟨1, 19⟩⟩,
    ⟨.kwInt, "int", ⟨1, 20⟩⟩, ⟨.rparen, ")", ⟨1, 23⟩⟩, ⟨.lbracket, "[", ⟨1, 24⟩⟩,
    ⟨.rbracket, "]", ⟨1, 25⟩⟩, ⟨.rparen, ")", ⟨1, 26⟩⟩, ⟨.assign, "=", ⟨1, 28⟩⟩,
    ⟨.lparen, "(", ⟨1, 30⟩⟩, ⟨.ident, "a", ⟨1, 31⟩⟩, ⟨.rparen, ")", ⟨1, 32⟩⟩,
    ⟨.semicolon, ";", ⟨1, 33⟩⟩, ⟨.eof, "", ⟨1, 34⟩⟩]
  have hscan : Token.scan "module m; let x: ((int)[]) = (a);" = .ok ts := by decide +kernel
  have hread : ofTokens ts = .ok ⟨⟨["m"]⟩, [],
      [.letDecl ⟨"x", .array (.named "int"), some (.paren (.var "a"))⟩]⟩ := by
    cbv
  obtain ⟨again, n, hagain, hthinned, hiff⟩ := canonical_keeps_tokens hscan hread
  refine ⟨ts, _, again, n, hscan, hread, hagain, hthinned, ?_⟩
  rw [ne_eq, hiff]
  decide

end Program

end Quill
