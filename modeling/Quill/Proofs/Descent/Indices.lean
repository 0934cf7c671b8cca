import Quill.Proofs.Descent.Procedures

/-!
# The index grows and the calls end

A procedure that is called before the index has moved is lower in the order of the grammar
(`Procedure.rank`), and it moves the index (`Procedure.descends`). So from a call to the calls in it
the index grows, or it stays and the rank falls (`Script.calls_descend`). Since there are 13 ranks
and the index stops at the end of the list, calls in calls go no deeper than 13 for each token that
is left, and 13 once more (`Procedure.exists_run`).

Once the index has moved, a script may do whatever it likes: nothing moves the index back
(`Script.exec_forward`).
-/

set_option autoImplicit false

namespace Quill.Descent

open Grammar (operatorOf)

/-! ## The order of the procedures -/

/-- The place of a procedure in the grammar: what it calls before the index has moved is lower. -/
def Procedure.rank {α : Type} : Procedure α → Nat
  | .stmts => 12
  | .stmt => 11
  | .expr => 10
  | .binary level => level + 3
  | .typeExpr => 3
  | .unary | .simpleType | .params | .items => 2
  | .suffixed | .suffixes _ | .qualifiedName | .binder | .item | .imports | .program => 1
  | _ => 0

/-- There are thirteen ranks, so that calls at one index are at most that many deep. -/
theorem Procedure.rank_lt {α : Type} (p : Procedure α) : p.rank < 13 := by
  cases p with
  | binary level =>
    have hlevel := level.isLt
    simp only [rank, BinaryOp.levels] at hlevel ⊢
    omega
  | _ => simp [rank]

/-- Whether a procedure may succeed and leave the index where it is, if a token of a kind stands
there. A loop does so where no round starts. Of the others it is only the list of parameters, which
is empty before a closing parenthesis. -/
def Procedure.mayStay {α : Type} : Procedure α → Kind → Bool
  | .params, kind => kind == .rparen
  | .moreNames, kind => kind != .dot
  | .moreBinders, kind | .moreArgs, kind => kind != .comma
  | .arraySuffixes _, kind => kind != .lbracket
  | .chain level _, kind => (operatorOf level kind).isNone
  | .suffixes _, kind => kind != .lparen && kind != .lbracket && kind != .dot
  | .stmts, kind => kind == .rbrace || kind == .eof
  | .imports, kind => kind != .kwImport
  | .items, kind => kind == .eof
  | _, _ => false

/-! ## Until the index moves -/

/-- What a script does until the index moves, in a procedure of a rank that was called at a token
of a kind: it only calls what is lower, and it succeeds only if it may stay. Past the last token the
index does not move. -/
def Script.Descends {α : Type} (rank : Nat) (stays : Bool) (start : Kind) : Script α → Prop
  | done _ => stays = true
  | fail _ => True
  | look next => ∀ t, kindOf t = start → (next t).Descends rank stays start
  | bump _ => start ≠ .eof
  | call procedure _ => procedure.rank < rank ∧ procedure.mayStay start = false

namespace Script

variable {α β : Type} {rank : Nat} {stays : Bool} {start : Kind}

/-- A script that looks at the next kind descends if the script for that kind does. -/
theorem descends_byKind {next : Kind → Script α} (h : (next start).Descends rank stays start) :
    (byKind next).Descends rank stays start := by
  rintro t rfl
  exact h

/-- A token of a known kind is there to be moved past. -/
theorem descends_bump {t : Option Token} {kind : Kind} (ht : kindOf t = kind) (hkind : kind ≠ .eof)
    (next : Script α) : (bump next).Descends rank stays (kindOf t) := by
  show kindOf t ≠ .eof
  rw [ht]
  exact hkind

/-- After an expected token the index has moved on, and any call may follow. -/
theorem descends_expect {kind : Kind} (hkind : kind ≠ .eof) (next : String → Script α) :
    (expect kind next).Descends rank stays start := by
  rintro t rfl
  dsimp only
  split
  · rename_i ht
    exact descends_bump ht hkind _
  · trivial

/-- A choice descends if its other branch does: the token taken moves the index on. -/
theorem descends_choose {choice : Kind → Option β} (heof : choice .eof = none)
    (yes : β → Script α) {no : Script α}
    (hno : choice start = none → no.Descends rank stays start) :
    (choose choice yes no).Descends rank stays start := by
  apply descends_byKind
  cases hchoice : choice start with
  | none => exact hno hchoice
  | some chosen =>
    rintro rfl
    exact Option.some_ne_none chosen (hchoice.symm.trans heof)

/-- An optional token descends if the branch without it does: the token taken moves the index on. -/
theorem descends_ifNext {kind : Kind} (hkind : kind ≠ .eof) (yes : Script α) {no : Script α}
    (hno : start ≠ kind → no.Descends rank stays start) :
    (ifNext kind yes no).Descends rank stays start := by
  apply descends_choose (Grammar.exactly_of_ne hkind.symm)
  intro hnone
  apply hno
  rintro rfl
  exact Option.some_ne_none () ((Grammar.exactly_of_eq rfl).symm.trans hnone)

/-- A round of a loop starts with a separator, or the loop stays before another token. -/
theorem descends_further {separator : Kind} (h : separator ≠ .eof) (element : Procedure α)
    (more : Procedure (List α)) :
    (further separator element more).Descends rank (start != separator) start := by
  apply descends_ifNext h
  intro hstart
  exact bne_iff_ne.mpr hstart

/-- A round of a loop starts with an element, or the loop stays. -/
theorem descends_each {starts : Kind → Bool} {element : Procedure α} (more : Procedure (List α))
    (hrank : element.rank < rank) (hmoves : element.mayStay start = false)
    (hstays : stays = !starts start) :
    (each starts element more).Descends rank stays start := by
  apply descends_byKind
  cases hstarts : starts start with
  | true => exact ⟨hrank, hmoves⟩
  | false =>
    show stays = true
    rw [hstays, hstarts]
    rfl

/-- Arguments are a call of what is lower, or they follow no plain name. -/
theorem descends_callOn (head : Expr) : (callOn head).Descends 1 stays start := by
  cases head with
  | var callee => exact ⟨Nat.zero_lt_one, rfl⟩
  | _ => trivial

end Script

open Script in
/-- Until the index moves, a procedure only calls what is lower. -/
theorem Procedure.descends {α : Type} (p : Procedure α) (start : Kind) :
    p.script.Descends p.rank (p.mayStay start) start := by
  cases p with
  -- one call of what is lower
  | qualifiedName | typeExpr | binder | expr | suffixed | program =>
    rw [script]
    exact ⟨by decide, rfl⟩
  -- one token that is required
  | name | callArgs | letDecl | conditional | loop | returnStmt | block | moduleHeader
  | importDecl | typeAlias | structDecl | constDecl | fnDecl =>
    rw [script]
    exact descends_expect (by decide) _
  -- loops with separators
  | moreNames | moreBinders | moreArgs =>
    rw [script]
    exact descends_further (by decide) _ _
  -- loops without separators
  | stmts | items =>
    rw [script]
    exact descends_each _ (Nat.lt_succ_self _) rfl (Bool.not_not _).symm
  | imports =>
    rw [script]
    exact descends_each _ (Nat.lt_succ_self _) rfl rfl
  | simpleType =>
    rw [script]
    rintro t rfl
    dsimp only
    split
    -- a name is left to `qualifiedName`, and any other token that starts no type is an error
    case h_4 => exact ⟨by decide, rfl⟩
    case h_6 => trivial
    all_goals
      rename_i hkind
      exact descends_bump hkind (by decide) _
  | arraySuffixes type =>
    rw [script]
    apply descends_ifNext (by decide)
    intro hstart
    exact bne_iff_ne.mpr hstart
  | params =>
    rw [script]
    apply descends_byKind
    split
    · rename_i hstart
      exact beq_iff_eq.mpr hstart
    · exact ⟨by decide, rfl⟩
  | binary level =>
    obtain ⟨level, h⟩ := level
    cases level with
    | zero => exact ⟨Nat.lt_succ_self 2, rfl⟩
    | succ level => exact ⟨Nat.lt_succ_self (level + 3), rfl⟩
  | chain level lhs =>
    rw [script]
    apply descends_choose rfl
    intro hstart
    exact Option.isNone_iff_eq_none.mpr hstart
  | unary =>
    rw [script]
    apply descends_choose rfl
    intro hstart
    exact ⟨by decide, rfl⟩
  | suffixes head =>
    rw [script]
    apply descends_byKind
    split
    · exact descends_callOn head
    · exact Kind.noConfusion
    · exact Kind.noConfusion
    · rename_i hparen hbracket hdot
      simp only [mayStay, Descends, Bool.and_eq_true, bne_iff_ne]
      exact ⟨⟨hparen, hbracket⟩, hdot⟩
  | primary =>
    rw [script]
    rintro t rfl
    dsimp only
    split
    case h_7 => trivial
    all_goals
      rename_i hkind
      exact descends_bump hkind (by decide) _
  | stmt =>
    rw [script]
    apply descends_byKind
    split <;> exact ⟨by decide, rfl⟩
  | item =>
    rw [script]
    apply descends_byKind
    split
    case h_6 => trivial
    all_goals exact ⟨by decide, rfl⟩

/-! ## Runs -/

section

variable {ts : List Token} {callee : {β : Type} → Procedure β → Nat → Option (Ending β)}

/-- Where a call that starts at an index may end: not before it, and not past the last token, unless
it was called there. -/
def Ending.IsForward {α : Type} (ts : List Token) (i : Nat) (ending : Ending α) : Prop :=
  i ≤ ending.2 ∧ ending.2 ≤ max i ts.length

/-- How a call of a procedure at an index may end: if it succeeds, it has moved the index, unless it
may stay. -/
def Procedure.EndsWell {α : Type} (p : Procedure α) (ts : List Token) (i : Nat)
    (ending : Ending α) : Prop :=
  ending.IsForward ts i ∧
    (ending.1.isOk = true → i < ending.2 ∨ p.mayStay (kindOf ts[i]?) = true)

/-- Every call that ends has moved the index forward. -/
def MovesForward (ts : List Token) (callee : {β : Type} → Procedure β → Nat → Option (Ending β)) :
    Prop :=
  ∀ {β : Type} (q : Procedure β) (j : Nat) (ending : Ending β), callee q j = some ending →
    ending.IsForward ts j

/-- Every call that ends, ends well. -/
def AllEndWell (ts : List Token) (callee : {β : Type} → Procedure β → Nat → Option (Ending β)) :
    Prop :=
  ∀ {β : Type} (q : Procedure β) (j : Nat) (ending : Ending β), callee q j = some ending →
    q.EndsWell ts j ending

/-- Calls that all end well move forward. -/
theorem AllEndWell.movesForward (h : AllEndWell ts callee) : MovesForward ts callee :=
  fun q j ending hcall => (h q j ending hcall).1

/-- An end that lies forward of an index lies forward of every earlier one. -/
theorem Ending.IsForward.trans {α : Type} {i j : Nat} {ending : Ending α} (hle : i ≤ j)
    (hend : j ≤ max i ts.length) (h : ending.IsForward ts j) : ending.IsForward ts i := by
  obtain ⟨hj, hmax⟩ := h
  exact ⟨Nat.le_trans hle hj, by omega⟩

/-- A move of the index. -/
theorem bump_forward (ts : List Token) (i : Nat) : i ≤ (if i < ts.length then i + 1 else i) ∧
    (if i < ts.length then i + 1 else i) ≤ max i ts.length := by
  split <;> omega

/-- A token at the index is one that the index can move past. -/
theorem lt_length_of_kindOf {i : Nat} (h : kindOf ts[i]? ≠ .eof) : i < ts.length := by
  apply Nat.lt_of_not_le
  intro hover
  apply h
  rw [List.getElem?_eq_none hover]
  rfl

namespace Script

variable {α : Type}

/-- A script moves the index forward, as the calls in it do. -/
theorem exec_forward (hcallee : MovesForward ts callee) (script : Script α) (j : Nat)
    (ending : Ending α) (h : script.exec ts callee j = some ending) :
    ending.IsForward ts j := by
  induction script generalizing j with
  | done value =>
    obtain rfl := Option.some.inj h
    exact ⟨Nat.le_refl j, Nat.le_max_left j _⟩
  | fail cause =>
    obtain rfl := Option.some.inj h
    exact ⟨Nat.le_refl j, Nat.le_max_left j _⟩
  | look next ih => exact ih _ j h
  | bump next ih =>
    obtain ⟨hle, hend⟩ := bump_forward ts j
    exact (ih _ h).trans hle hend
  | call q next ih =>
    rw [exec] at h
    split at h
    · -- the call has moved the index forward, and the rest of the script does so from there
      rename_i value k hcall
      obtain ⟨hle, hend⟩ := hcallee q j _ hcall
      exact (ih value k h).trans hle hend
    · rename_i cause k hcall
      obtain rfl := Option.some.inj h
      exact hcallee q j _ hcall
    · exact absurd h (by simp)

/-- The calls in a script come one after another, each from where the index has got to. -/
theorem calls_forward (hcallee : MovesForward ts callee) (script : Script α) (j : Nat) (c : Call)
    (h : c ∈ script.calls ts callee j) :
    j ≤ c.index ∧ c.index ≤ max j ts.length := by
  induction script generalizing j with
  | done value => simp [calls] at h
  | fail cause => simp [calls] at h
  | look next ih => exact ih _ j h
  | bump next ih =>
    obtain ⟨hle, hend⟩ := bump_forward ts j
    obtain ⟨hj, hmax⟩ := ih _ h
    exact ⟨Nat.le_trans hle hj, by omega⟩
  | call q next ih =>
    rw [calls] at h
    rcases List.mem_cons.mp h with rfl | h
    · -- the call itself is made where the script has got to
      exact ⟨Nat.le_refl j, Nat.le_max_left j _⟩
    · split at h
      · rename_i value k hcall
        obtain ⟨hle, hend⟩ := hcallee q j _ hcall
        obtain ⟨hk, hmax⟩ := ih value k h
        exact ⟨Nat.le_trans hle hk, by omega⟩
      · simp at h

/-- A script gives something if the calls in it do. -/
theorem exists_exec (script : Script α) (j : Nat)
    (h : ∀ c ∈ script.calls ts callee j, ∃ ending, callee c.procedure c.index = some ending) :
    ∃ ending, script.exec ts callee j = some ending := by
  induction script generalizing j with
  | done value => exact ⟨_, rfl⟩
  | fail cause => exact ⟨_, rfl⟩
  | look next ih => exact ih _ j h
  | bump next ih => exact ih _ h
  | call q next ih =>
    obtain ⟨⟨result, k⟩, hcall⟩ := h ⟨q, j⟩ (by rw [calls]; exact List.mem_cons_self)
    rw [exec, hcall]
    cases result with
    | error cause => exact ⟨_, rfl⟩
    | ok value =>
      -- the calls after this one are among those of the whole script
      apply ih value k
      intro c hc
      apply h c
      rw [calls, hcall]
      exact List.mem_cons_of_mem _ hc

section

variable {rank i : Nat} {stays : Bool} (hcallee : AllEndWell ts callee)
include hcallee

/-- A call that may not stay moves the index if it succeeds. -/
theorem lt_of_call {β : Type} {q : Procedure β} (hmoves : q.mayStay (kindOf ts[i]?) = false)
    {value : β} {j : Nat} (h : callee q i = some (.ok value, j)) : i < j := by
  rcases (hcallee q i _ h).2 rfl with hlt | hstay
  · exact hlt
  · rw [hmoves] at hstay
    exact absurd hstay Bool.false_ne_true

/-- From a procedure to the calls in it the index grows, or it stays and the rank falls. -/
theorem calls_descend (script : Script α) (hdescends : script.Descends rank stays (kindOf ts[i]?))
    (c : Call) (h : c ∈ script.calls ts callee i) :
    i < c.index ∧ c.index ≤ ts.length ∨ c.index = i ∧ c.procedure.rank < rank := by
  induction script with
  | done value => simp [calls] at h
  | fail cause => simp [calls] at h
  | look next ih => exact ih _ (hdescends _ rfl) h
  | bump next ih =>
    -- `Descends` says nothing of what comes after the move, and nothing is needed of it
    have hi := lt_length_of_kindOf hdescends
    rw [calls, if_pos hi] at h
    obtain ⟨hle, hend⟩ := calls_forward hcallee.movesForward next _ c h
    exact .inl ⟨hle, by omega⟩
  | call q next ih =>
    obtain ⟨hrank, hmoves⟩ := hdescends
    rw [calls] at h
    rcases List.mem_cons.mp h with rfl | h
    · exact .inr ⟨rfl, hrank⟩
    · split at h
      · rename_i value k hcall
        -- the first call has moved the index, and the others come after it
        have hmoved := lt_of_call hcallee hmoves hcall
        obtain ⟨hle, hend⟩ := calls_forward hcallee.movesForward (next value) k c h
        obtain ⟨hk, hmax⟩ := (hcallee q i _ hcall).1
        exact .inl ⟨Nat.lt_of_lt_of_le hmoved hle, by omega⟩
      · simp at h

/-- A script that succeeds has moved the index, unless it may stay. -/
theorem lt_of_exec (script : Script α) (hdescends : script.Descends rank stays (kindOf ts[i]?))
    {value : α} {j : Nat} (h : script.exec ts callee i = some (.ok value, j)) :
    i < j ∨ stays = true := by
  induction script with
  | done other => exact .inr hdescends
  | fail cause => simp [exec] at h
  | look next ih => exact ih _ (hdescends _ rfl) h
  | bump next ih =>
    have hi := lt_length_of_kindOf hdescends
    rw [exec, if_pos hi] at h
    exact .inl (exec_forward hcallee.movesForward next _ _ h).1
  | call q next ih =>
    obtain ⟨hrank, hmoves⟩ := hdescends
    rw [exec] at h
    split at h
    · rename_i found k hcall
      -- the first call is at the index of the script, and it may not stay
      have hmoved := lt_of_call hcallee hmoves hcall
      obtain ⟨hle, -⟩ := exec_forward hcallee.movesForward (next found) k _ h
      exact .inl (Nat.lt_of_lt_of_le hmoved hle)
    · simp at h
    · simp at h

end

end Script

end

namespace Procedure

variable (ts : List Token)

/-- Every call moves the index forward, and it succeeds only where it has moved the index or may
stay. -/
theorem run_endsWell (depth : Nat) : AllEndWell ts (run ts depth) := by
  induction depth with
  | zero =>
    intro α p i ending h
    simp [run] at h
  | succ depth ih =>
    intro α p i ending h
    constructor
    · exact Script.exec_forward ih.movesForward p.script i ending h
    · intro hok
      obtain ⟨result, j⟩ := ending
      cases result with
      | ok value => exact Script.lt_of_exec ih p.script (p.descends _) h
      | error cause => exact absurd hok Bool.false_ne_true

/-- The calls in a call are at a later index, or at the same one and lower. -/
theorem calls_descend (depth : Nat) {α : Type} (p : Procedure α) (i : Nat) (c : Call)
    (h : c ∈ p.script.calls ts (run ts depth) i) :
    i < c.index ∧ c.index ≤ ts.length ∨ c.index = i ∧ c.procedure.rank < p.rank :=
  Script.calls_descend (run_endsWell ts depth) p.script (p.descends _) c h

/-- Every call ends. Calls in calls go no deeper than the number of ranks for each token left, and
the rank of the procedure. -/
theorem exists_run (depth : Nat) {α : Type} (p : Procedure α) (i : Nat)
    (h : 13 * (ts.length - i) + p.rank < depth) : ∃ ending, p.run ts depth i = some ending := by
  induction depth generalizing α p i with
  | zero => exact absurd h (Nat.not_lt_zero _)
  | succ depth ih =>
    apply Script.exists_exec
    intro c hc
    apply ih
    -- a later index leaves a token less, which is worth more than any rank
    have hrank := c.procedure.rank_lt
    rcases calls_descend ts depth p i c hc with ⟨hlt, hend⟩ | ⟨heq, hlower⟩
    · omega
    · rw [heq]
      omega

end Procedure

/-- A script gives what it gave if the calls in it do. -/
theorem Script.exec_mono {ts : List Token}
    {callee callee' : {β : Type} → Procedure β → Nat → Option (Ending β)}
    (hcallee : ∀ {β : Type} (q : Procedure β) j ending, callee q j = some ending →
      callee' q j = some ending)
    {α : Type} (script : Script α) (j : Nat) (ending : Ending α)
    (h : script.exec ts callee j = some ending) : script.exec ts callee' j = some ending := by
  induction script generalizing j with
  | done value => exact h
  | fail cause => exact h
  | look next ih => exact ih _ j h
  | bump next ih => exact ih _ h
  | call q next ih =>
    rw [exec] at h ⊢
    cases hcall : callee q j with
    | none => simp [hcall] at h
    | some other =>
      rw [hcall] at h
      -- the same result and the same index, so that the script goes on in the same way
      rw [hcallee q j other hcall]
      obtain ⟨result, k⟩ := other
      cases result with
      | ok value => exact ih value k h
      | error cause => exact h

/-- A depth that is enough stays enough. -/
theorem Procedure.run_mono (ts : List Token) {depth depth' : Nat} (hle : depth ≤ depth') {α : Type}
    (p : Procedure α) (i : Nat) (ending : Ending α) (h : p.run ts depth i = some ending) :
    p.run ts depth' i = some ending := by
  induction depth generalizing depth' α p i ending with
  | zero => simp [run] at h
  | succ depth ih =>
    obtain ⟨n, rfl⟩ : ∃ n, depth' = n + 1 := ⟨depth' - 1, by omega⟩
    exact Script.exec_mono (ih (Nat.le_of_succ_le_succ hle)) p.script i ending h

end Quill.Descent
