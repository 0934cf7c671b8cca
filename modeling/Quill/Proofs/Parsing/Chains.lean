import Quill.Proofs.Parsing.Expressions

/-!
# Chains of operators

A chain is an operand, followed by any number of binary operators with an operand after each.
Reading goes through a chain level by level and from the left, and at no time sees it as a whole.
What it finds can be said of the whole chain all the same (`Chain.tree`).

* The operator at the root is the rightmost one among the loosest operators of the chain. This is
  where a chain comes apart: what stands before it is the left side, what stands after it the right
  side, and both are chains again (`Chain.tree_eq_binary`).
* Chains with equals signs between them come apart at the first of these (`Assignments.tree`).

That reading agrees is shown through the grammar. The two sides of a chain are derived at the levels
that the rule of the root asks for (`Chain.derives`), and what is derived is read.
-/

set_option autoImplicit false

namespace Quill.Grammar

open Reading (outcome)

/-! ## Operators -/

/-- The binary operators from the tightest level to the loosest one, with the kinds of tokens that
stand for them. -/
def operatorTable : List (List (Kind × BinaryOp)) :=
  [[(.star, .mul), (.slash, .div), (.percent, .mod)],
    [(.plus, .add), (.minus, .sub)],
    [(.less, .lt), (.lessEqual, .le), (.greater, .gt), (.greaterEqual, .ge)],
    [(.equal, .eq), (.notEqual, .ne)],
    [(.andAnd, .and)],
    [(.orOr, .or)]]

/-- A kind of token is an operator of a level exactly if it is in the row of that level. -/
theorem operator_iff_mem_operatorTable {kind : Kind} {op : BinaryOp} {level : Nat} :
    BinaryOp.ofKind? kind = some op ∧ op.looseness = level ↔
      ∃ row, operatorTable[level]? = some row ∧ (kind, op) ∈ row := by
  constructor
  · rintro ⟨hkind, rfl⟩
    cases kind <;> simp [BinaryOp.ofKind?] at hkind <;> subst hkind <;> exact ⟨_, rfl, by decide⟩
  · rintro ⟨row, hrow, hmem⟩
    have hrows : ∀ (i : Nat) (h : i < operatorTable.length), ∀ pair ∈ operatorTable[i],
        BinaryOp.ofKind? pair.1 = some pair.2 ∧ pair.2.looseness = i := by
      decide
    obtain ⟨hlevel, rfl⟩ := List.getElem?_eq_some_iff.mp hrow
    exact hrows level hlevel (kind, op) hmem

/-! ## Chains -/

/-- An operand: tokens that are used up where a binary operator follows, and the tree that is made
of them. It is enough that they are so before one operator. -/
structure Operand where
  tokens : List Token
  tree : Expr
  reads : ∃ sign op rest, BinaryOp.ofKind? sign.kind = some op ∧
    outcome (unary (tokens ++ sign :: rest)) = .ok (tree, sign :: rest)

/-- A binary operator with the operand after it. -/
structure Link where
  sign : Token
  op : BinaryOp
  isSign : BinaryOp.ofKind? sign.kind = some op
  operand : Operand

/-- An operand and the links that follow it. -/
structure Chain where
  first : Operand
  links : List Link

namespace Chain

/-- The tokens of a chain, in order. -/
def tokens (chain : Chain) : List Token :=
  chain.first.tokens ++ chain.links.flatMap fun link => link.sign :: link.operand.tokens

/-- Links with one of them taken out. -/
structure Split where
  before : List Link
  root : Link
  after : List Link

/-- The links of a chain, taken apart at the rightmost of the loosest operators. -/
def splitAtLoosest? : List Link → Option Split
  | [] => none
  | link :: links =>
    match splitAtLoosest? links with
    | none => some ⟨[], link, []⟩
    | some split =>
      if link.op.looseness ≤ split.root.op.looseness then
        some ⟨link :: split.before, split.root, split.after⟩
      else some ⟨[], link, links⟩

/-- No operator before the one taken out is looser, and all after it bind more tightly. -/
structure Split.IsLoosest (split : Split) : Prop where
  before : ∀ link ∈ split.before, link.op.looseness ≤ split.root.op.looseness
  after : ∀ link ∈ split.after, link.op.looseness < split.root.op.looseness

/-- A chain without an operator at its root is a single operand. -/
theorem eq_nil_of_splitAtLoosest? {links : List Link} (h : splitAtLoosest? links = none) :
    links = [] := by
  cases links with
  | nil => rfl
  | cons link links =>
    rw [splitAtLoosest?] at h
    split at h
    · exact nomatch h
    · split at h <;> exact nomatch h

/-- The links come apart at the rightmost of the loosest operators. -/
theorem isLoosest_of_splitAtLoosest? {links : List Link} {split : Split}
    (h : splitAtLoosest? links = some split) :
    links = split.before ++ split.root :: split.after ∧ split.IsLoosest := by
  induction links generalizing split with
  | nil => exact nomatch h
  | cons link links ih =>
    rw [splitAtLoosest?] at h
    cases hlinks : splitAtLoosest? links with
    | none =>
      obtain rfl := eq_nil_of_splitAtLoosest? hlinks
      rw [hlinks] at h
      obtain rfl := Option.some.inj h
      exact ⟨rfl, List.forall_mem_nil _, List.forall_mem_nil _⟩
    | some later =>
      obtain ⟨rfl, hbefore, hafter⟩ := ih hlinks
      rw [hlinks] at h
      dsimp only at h
      by_cases hle : link.op.looseness ≤ later.root.op.looseness
      · rw [if_pos hle] at h
        obtain rfl := Option.some.inj h
        exact ⟨rfl, List.forall_mem_cons.mpr ⟨hle, hbefore⟩, hafter⟩
      · -- the first operator is looser than the loosest of the others
        rw [if_neg hle] at h
        obtain rfl := Option.some.inj h
        refine ⟨rfl, List.forall_mem_nil _, ?_⟩
        intro other hother
        have hroot : later.root.op.looseness < link.op.looseness := Nat.lt_of_not_le hle
        rcases List.mem_append.mp hother with hother | hother
        · exact Nat.lt_of_le_of_lt (hbefore other hother) hroot
        · rcases List.mem_cons.mp hother with rfl | hother
          · exact hroot
          · exact Nat.lt_trans (hafter other hother) hroot

/-- Wherever an operator is the rightmost of the loosest ones, the links come apart there. -/
theorem Split.IsLoosest.splitAtLoosest? {before after : List Link} {root : Link}
    (h : IsLoosest ⟨before, root, after⟩) :
    Chain.splitAtLoosest? (before ++ root :: after) = some ⟨before, root, after⟩ := by
  obtain ⟨hbefore, hafter⟩ := h
  induction before with
  | nil =>
    rw [List.nil_append, Chain.splitAtLoosest?]
    cases hlinks : Chain.splitAtLoosest? after with
    | none =>
      obtain rfl := eq_nil_of_splitAtLoosest? hlinks
      rfl
    | some later =>
      -- an operator after the root cannot take its place
      obtain ⟨rfl, -⟩ := isLoosest_of_splitAtLoosest? hlinks
      have htight : later.root.op.looseness < root.op.looseness :=
        hafter later.root (List.mem_append_right _ List.mem_cons_self)
      exact if_neg (Nat.not_le_of_lt htight)
  | cons link before ih =>
    obtain ⟨hlink, hbefore⟩ := List.forall_mem_cons.mp hbefore
    rw [List.cons_append, Chain.splitAtLoosest?, ih hbefore hafter]
    exact if_pos hlink

/-- Both sides of a chain have fewer links. -/
theorem length_lt_of_splitAtLoosest? {links : List Link} {split : Split}
    (h : splitAtLoosest? links = some split) :
    split.before.length < links.length ∧ split.after.length < links.length := by
  obtain ⟨rfl, -⟩ := isLoosest_of_splitAtLoosest? h
  rw [List.length_append, List.length_cons]
  omega

/-- The tree of a chain: that of its operand, or the rightmost of the loosest operators applied to
the trees of the two sides. -/
def tree (chain : Chain) : Expr :=
  match _found : splitAtLoosest? chain.links with
  | none => chain.first.tree
  | some split =>
    .binary split.root.op (tree ⟨chain.first, split.before⟩)
      (tree ⟨split.root.operand, split.after⟩)
termination_by chain.links.length
decreasing_by
  · exact (length_lt_of_splitAtLoosest? _found).1
  · exact (length_lt_of_splitAtLoosest? _found).2

/-- A chain without operators is its operand. -/
theorem tree_nil (operand : Operand) : tree ⟨operand, []⟩ = operand.tree := by
  rw [tree]
  rfl

/-- The root of a chain is its loosest operator, the rightmost of them: what is before it is the
left operand, and what is after it the right one. -/
theorem tree_eq_binary {first : Operand} {before after : List Link} {root : Link}
    (h : Split.IsLoosest ⟨before, root, after⟩) :
    tree ⟨first, before ++ root :: after⟩ =
      .binary root.op (tree ⟨first, before⟩) (tree ⟨root.operand, after⟩) := by
  rw [tree]
  dsimp only
  split
  · rename_i hnone
    rw [h.splitAtLoosest?] at hnone
    exact nomatch hnone
  · rename_i hsome
    rw [h.splitAtLoosest?] at hsome
    obtain rfl := Option.some.inj hsome
    rfl

end Chain

/-! ## Chains are derived -/

/-- What is used up as an operand is derived at the level of unary operators. -/
theorem Operand.derives (operand : Operand) : DerivesExpr 7 operand.tokens operand.tree := by
  obtain ⟨tokens, tree, sign, op, rest, -, hread⟩ := operand
  have hread' : outcome (readAt 7 (tokens ++ sign :: rest)) = .ok (tree, sign :: rest) := by
    rw [readAt, binary]
    exact hread
  obtain ⟨us, hus, hderives⟩ := readAt_sound _ (by decide) _ _ hread'
  obtain rfl := List.append_cancel_right hus
  exact hderives

namespace Chain

/-- The tokens of a chain are those before an operator, its sign, and those after it. -/
theorem tokens_append {first : Operand} {before after : List Link} {root : Link} :
    tokens ⟨first, before ++ root :: after⟩ =
      tokens ⟨first, before⟩ ++ root.sign :: tokens ⟨root.operand, after⟩ := by
  simp [tokens]

/-- A chain is derived at every level that is not looser than one of its operators. -/
theorem derives (chain : Chain) {level : Nat} (h7 : level ≤ 7)
    (hlevel : ∀ link ∈ chain.links, level ≤ link.op.level) :
    DerivesExpr level chain.tokens chain.tree := by
  -- the two sides of the chain have fewer links
  induction hn : chain.links.length using Nat.strongRecOn generalizing chain level with
  | ind n ih =>
    obtain ⟨first, links⟩ := chain
    cases hsplit : splitAtLoosest? links with
    | none =>
      obtain rfl := eq_nil_of_splitAtLoosest? hsplit
      rw [tree_nil, tokens, List.flatMap_nil, List.append_nil]
      exact first.derives.lower h7
    | some split =>
      obtain ⟨hbefore, hafter⟩ := length_lt_of_splitAtLoosest? hsplit
      obtain ⟨before, root, after⟩ := split
      obtain ⟨rfl, hloosest⟩ := isLoosest_of_splitAtLoosest? hsplit
      have hroot := root.op.level_add_looseness
      -- the rule of the root takes a left side of its own level, and a right side of the next one
      have hlhs : DerivesExpr root.op.level (tokens ⟨first, before⟩) (tree ⟨first, before⟩) := by
        apply ih before.length (hn ▸ hbefore) ⟨first, before⟩ (by omega) _ rfl
        intro link hlink
        have hle := hloosest.before link hlink
        have hlink := link.op.level_add_looseness
        dsimp only at hle
        omega
      have hrhs : DerivesExpr (root.op.level + 1) (tokens ⟨root.operand, after⟩)
          (tree ⟨root.operand, after⟩) := by
        apply ih after.length (hn ▸ hafter) ⟨root.operand, after⟩ (by omega) _ rfl
        intro link hlink
        have hlt := hloosest.after link hlink
        have hlink := link.op.level_add_looseness
        dsimp only at hlt
        omega
      rw [tree_eq_binary hloosest, tokens_append]
      apply (DerivesExpr.binary hlhs root.isSign hrhs).lower
      exact hlevel root (List.mem_append_right _ List.mem_cons_self)

end Chain

/-! ## Assignments -/

/-- An equals sign with the chain that is assigned. -/
structure Assigned where
  sign : Token
  isSign : sign.kind = .assign
  value : Chain

/-- A chain and the equals signs with the chains after them. -/
structure Assignments where
  target : Chain
  values : List Assigned

namespace Assignments

/-- The tokens of assignments, in order. -/
def tokens (chains : Assignments) : List Token :=
  chains.target.tokens ++ chains.values.flatMap fun next => next.sign :: next.value.tokens

/-- The tree of assignments: the first chain is assigned what all the others come to. -/
def tree : Assignments → Expr
  | ⟨target, []⟩ => target.tree
  | ⟨target, next :: values⟩ => .assign target.tree (tree ⟨next.value, values⟩)
termination_by chains => chains.values.length

/-- Chains with assignment signs between them derive the assignment that nests to the right. -/
theorem derives (chains : Assignments) : DerivesExpr 0 chains.tokens chains.tree := by
  have hchain : ∀ chain : Chain, DerivesExpr 1 chain.tokens chain.tree :=
    fun chain => chain.derives (by decide) fun link _ => link.op.level_pos
  obtain ⟨target, values⟩ := chains
  induction values generalizing target with
  | nil =>
    rw [tree, tokens, List.flatMap_nil, List.append_nil]
    exact (hchain target).lift
  | cons next values ih =>
    rw [tree, tokens, List.flatMap_cons, List.cons_append]
    exact .assign (hchain target) next.isSign (ih next.value)

end Assignments

/-! ## Chains are read -/

/-- The kinds of tokens that go on a chain: binary operators, and what may follow an operand as a
part of it. -/
def GoesOnChain (kind : Kind) : Prop :=
  (BinaryOp.ofKind? kind).isSome ∨ kind = .lparen ∨ kind = .lbracket ∨ kind = .dot
deriving Decidable

/-- Where no chain goes on, at most an assignment does. -/
theorem continues?_of_not_goesOnChain {kind : Kind} (h : ¬ GoesOnChain kind) :
    continues? kind = none ∨ kind = .assign := by
  cases kind <;> revert h <;> decide

/-- A chain is read up to a token that does not go on it. -/
theorem Chain.reads (chain : Chain) {rest : List Token} (h : ¬ GoesOnChain (ahead rest)) :
    outcome (readAt 1 (chain.tokens ++ rest)) = .ok (chain.tree, rest) := by
  have hderives : DerivesExpr 1 chain.tokens chain.tree :=
    chain.derives (by decide) fun link _ => link.op.level_pos
  have hallows : Allows 1 rest := by
    intro m hm
    rcases continues?_of_not_goesOnChain h with hnone | hassign
    · rw [hnone] at hm
      exact nomatch hm
    · rw [hassign] at hm
      obtain rfl := Option.some.inj hm
      decide
  apply (readAt_of_derives hderives hallows).stop
  -- an assignment goes on at level 0 only, and nothing else goes on at all
  intro hahead
  rcases continues?_of_not_goesOnChain h with hnone | hassign
  · rw [hnone] at hahead
    exact nomatch hahead
  · rw [hassign] at hahead
    exact absurd hahead (by decide)

/-- Assignments are read up to a token that goes on neither a chain nor an assignment. -/
theorem Assignments.reads (chains : Assignments) {rest : List Token}
    (h : ¬ GoesOnChain (ahead rest)) (hassign : ahead rest ≠ .assign) :
    outcome (expr (chains.tokens ++ rest)) = .ok (chains.tree, rest) := by
  have hnone : continues? (ahead rest) = none := by
    rcases continues?_of_not_goesOnChain h with hnone | hahead
    · exact hnone
    · exact absurd hahead hassign
  apply (readAt_of_derives chains.derives (allows_of_none hnone)).stop
  rw [hnone]
  exact nofun

/-- The binary operators stand on six levels (`operatorTable`). Operands with operators between
them, any number of them, are read as the tree of the chain, up to a token that does not go on it.
That tree is the one operand, if there is only one. Otherwise its root is the rightmost of the
loosest operators, applied to the trees of the chains on its two sides. Chains with equals signs
between them are assigned from the right. -/
theorem chains_read :
    (∀ (kind : Kind) (op : BinaryOp) (level : Nat),
      BinaryOp.ofKind? kind = some op ∧ op.looseness = level ↔
        ∃ row, operatorTable[level]? = some row ∧ (kind, op) ∈ row) ∧
    (∀ (chain : Chain) (rest : List Token), ¬ GoesOnChain (ahead rest) →
      outcome (binary BinaryOp.levels (chain.tokens ++ rest)) = .ok (chain.tree, rest)) ∧
    (∀ operand : Operand, Chain.tree ⟨operand, []⟩ = operand.tree) ∧
    (∀ (first : Operand) (before : List Link) (root : Link) (after : List Link),
      (∀ link ∈ before, link.op.looseness ≤ root.op.looseness) →
      (∀ link ∈ after, link.op.looseness < root.op.looseness) →
        Chain.tree ⟨first, before ++ root :: after⟩ =
          .binary root.op (Chain.tree ⟨first, before⟩) (Chain.tree ⟨root.operand, after⟩)) ∧
    ∀ (chains : Assignments) (rest : List Token), ¬ GoesOnChain (ahead rest) →
      ahead rest ≠ .assign →
        outcome (expr (chains.tokens ++ rest)) = .ok (chains.tree, rest) := by
  refine ⟨fun _ _ _ => operator_iff_mem_operatorTable, ?_, Chain.tree_nil, ?_, ?_⟩
  · intro chain rest h
    exact chain.reads h
  · intro first before root after hbefore hafter
    exact Chain.tree_eq_binary ⟨hbefore, hafter⟩
  · intro chains rest h hassign
    exact chains.reads h hassign

/-- A product between two differences: the second difference is the root, and the product stands on
the right of the first one. An equals sign ends the chain and assigns it to a name. -/
theorem chains_read_mixed :
    let name (text : String) : Token := ⟨.ident, text, Pos.start⟩
    let sign (kind : Kind) : Token := ⟨kind, "", Pos.start⟩
    let chain := [name "a", sign .minus, name "b", sign .star, name "c", sign .minus, name "d"]
    let tree : Expr :=
      .binary .sub (.binary .sub (.var "a") (.binary .mul (.var "b") (.var "c"))) (.var "d")
    outcome (binary BinaryOp.levels (chain ++ [sign .assign])) = .ok (tree, [sign .assign]) ∧
      outcome (expr (name "x" :: sign .assign :: (chain ++ [sign .semicolon]))) =
        .ok (.assign (.var "x") tree, [sign .semicolon]) := by
  intro name sign chain tree
  let operand (text : String) : Operand :=
    ⟨[name text], .var text, sign .plus, .add, [], rfl, by cbv⟩
  let links : List Link := [⟨sign .minus, .sub, rfl, operand "b"⟩,
    ⟨sign .star, .mul, rfl, operand "c"⟩, ⟨sign .minus, .sub, rfl, operand "d"⟩]
  have htree : Chain.tree ⟨operand "a", links⟩ = tree := by
    simp [Chain.tree, Chain.splitAtLoosest?, BinaryOp.looseness, links, tree, operand]
  have hchain := chains_read.2.1 ⟨operand "a", links⟩ [sign .assign] (by decide)
  have hassigned := chains_read.2.2.2.2
    ⟨⟨operand "x", []⟩, [⟨sign .assign, rfl, operand "a", links⟩]⟩ [sign .semicolon] (by decide)
    (by decide)
  rw [htree] at hchain
  rw [Assignments.tree, Assignments.tree, htree, Chain.tree_nil] at hassigned
  exact ⟨hchain, hassigned⟩

end Quill.Grammar
