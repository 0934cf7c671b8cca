import Quill.Proofs.Lexical.Scan
import Quill.Proofs.Lexical.Spelling

/-!
# Texts joined by a gap

The tokens of a text that is put together from two, with a gap between them that starts with white
space, are the tokens of the parts (`Token.scan_joined`). Three facts make this up:

* white space goes on no lexeme, so the first part is read before the gap as it is read alone
  (`Lexes.before_whiteSpace`), and the cursor passes it token by token (`tokens_of_lexes`);
* a gap is passed whatever follows it (`tokens_of_gap`);
* what a cursor finds does not depend on its position. The positions of the second part are
  counted from the end of the gap instead of from the start (`Pos.shift`), in its tokens and in
  its fault alike (`tokens_shift`).
-/

set_option autoImplicit false

namespace Quill

/-! ## Positions counted from elsewhere -/

namespace Pos

/-- The position that a text read from `base` gives to the character which it has at `p` when it
is read from the start. On the first line both columns count, on later lines only the second. -/
def shift (base p : Pos) : Pos :=
  if p.line = 1 then ⟨base.line, base.column + p.column - 1⟩
  else ⟨base.line + p.line - 1, p.column⟩

/-- Line and column are counted from one. -/
def FromOne (p : Pos) : Prop := 1 ≤ p.line ∧ 1 ≤ p.column

/-- Counting starts at one. -/
theorem fromOne_start : start.FromOne := ⟨Nat.le_refl 1, Nat.le_refl 1⟩

/-- A character keeps line and column at one or more. -/
theorem FromOne.step {p : Pos} (h : p.FromOne) (c : Char) : (p.step c).FromOne := by
  unfold Pos.step
  split
  · exact ⟨Nat.le_add_left 1 _, Nat.le_refl 1⟩
  · exact ⟨h.1, Nat.le_add_left 1 _⟩

/-- A text keeps line and column at one or more. -/
theorem FromOne.advance {p : Pos} (h : p.FromOne) (text : List Char) :
    (p.advance text).FromOne := by
  induction text generalizing p with
  | nil => exact h
  | cons c cs ih => exact ih (h.step c)

/-- Moving a position and passing a character may be done in either order. -/
theorem shift_step (base : Pos) {p : Pos} (h : p.FromOne) (c : Char) :
    base.shift (p.step c) = (base.shift p).step c := by
  obtain ⟨line, column⟩ := p
  obtain ⟨hline, hcolumn⟩ : 1 ≤ line ∧ 1 ≤ column := h
  by_cases hc : c = '\n'
  · -- the line after the first and every later one are not the first
    have hlater : line + 1 ≠ 1 := by omega
    simp only [shift, step, if_pos hc, if_neg hlater]
    split <;> simp only [Pos.mk.injEq, and_true] <;> omega
  · simp only [shift, step, if_neg hc]
    split <;> simp only [Pos.mk.injEq, true_and]
    omega

/-- Moving over a text commutes with counting from elsewhere. -/
theorem shift_advance (base : Pos) {p : Pos} (h : p.FromOne) (text : List Char) :
    base.shift (p.advance text) = (base.shift p).advance text := by
  induction text generalizing p with
  | nil => rfl
  | cons c cs ih => rw [advance_cons, advance_cons, ih (h.step c), shift_step base h]

end Pos

/-- A token with its position counted from elsewhere. -/
def Token.shift (base : Pos) (t : Token) : Token := ⟨t.kind, t.text, base.shift t.pos⟩

/-- A cursor with its position counted from elsewhere. -/
def Cursor.shift (base : Pos) (cursor : Cursor) : Cursor := ⟨cursor.rest, base.shift cursor.pos⟩

/-- What a step found, with the positions counted from elsewhere. -/
def Cursor.Step.shift (base : Pos) : Cursor.Step → Cursor.Step
  | .finished pos => .finished (base.shift pos)
  | .token found after => .token (found.shift base) (after.shift base)
  | .fault found pos after => .fault found (base.shift pos) (after.shift base)

/-- The outcome of reading a text as a later part of another: its positions are counted from
`base`, and the tokens `front` stand before its own. -/
def Token.outcomeAfter (base : Pos) (front : List Token) :
    Except LexicalError (List Token) → Except LexicalError (List Token)
  | .ok ts => .ok (front ++ ts.map (Token.shift base))
  | .error e => .error ⟨e.fault, base.shift e.pos, front ++ e.tokens.map (Token.shift base)⟩

namespace Lexical

open Quill.Text Quill.Cursor

/-! ## White space after a lexeme -/

/-- A text that does not start with such a character still does not before a character that is
none. -/
theorem not_startsWith_append_cons {p : Char → Bool} {c : Char} (hc : p c = false)
    {text : List Char} (h : ¬ StartsWith p text) (rest : List Char) :
    ¬ StartsWith p (text ++ c :: rest) := by
  cases text with
  | nil => simp [StartsWith, hc]
  | cons d ds => exact h

/-- Where a text before a character that is neither point nor digit starts with a fraction, the
fraction is in that text. -/
theorem StartsWithFraction.of_append_cons {c : Char} (hdot : c ≠ '.') (hdigit : c.isDigit = false)
    {text rest : List Char} (h : StartsWithFraction (text ++ c :: rest)) :
    StartsWithFraction text := by
  obtain ⟨d, more, hsplit, hd⟩ := h
  -- the point and the digit can only be the first two characters of `text`
  cases text with
  | nil => exact absurd (List.cons.inj hsplit).1 hdot
  | cons first others =>
    simp only [List.cons_append, List.cons.injEq] at hsplit
    obtain ⟨rfl, hsplit⟩ := hsplit
    cases others with
    | nil =>
      obtain ⟨rfl, -⟩ := List.cons.inj hsplit
      rw [hdigit] at hd
      exact absurd hd (by decide)
    | cons second others =>
      simp only [List.cons_append, List.cons.injEq] at hsplit
      obtain ⟨rfl, -⟩ := hsplit
      exact ⟨second, others, rfl, hd⟩

/-- White space may be put after what a lexeme precedes. -/
theorem MayPrecede.before_whiteSpace {kind : Kind} {word text : List Char}
    (h : MayPrecede kind word text) {c : Char} (hc : isWhiteSpace c = true) (rest : List Char) :
    MayPrecede kind word (text ++ c :: rest) := by
  have hpart := isNamePart_eq_false_of_isWhiteSpace hc
  have hdigit : c.isDigit = false := by
    rw [Bool.eq_false_iff]
    intro hdigit
    rw [isNamePart_of_isDigit hdigit] at hpart
    simp at hpart
  have hletter : Lexeme.isExponentLetter c = false := by
    rw [Bool.eq_false_iff]
    intro hletter
    rw [isNamePart_of_isExponentLetter hletter] at hpart
    simp at hpart
  have hne : ∀ d, isWhiteSpace d = false → c ≠ d := by
    rintro d hd rfl
    rw [hc] at hd
    simp at hd
  have hmark : ∀ d, isWhiteSpace d = false → ¬ StartsWith (· == d) text →
      ¬ StartsWith (· == d) (text ++ c :: rest) :=
    fun d hd htext => not_startsWith_append_cons (by simp [hne d hd]) htext rest
  -- no class that a lexeme asks about has white space in it
  cases kind with
  | number =>
    refine ⟨not_startsWith_append_cons hdigit h.1 rest, fun hword => ?_⟩
    refine ⟨not_startsWith_append_cons hletter (h.2 hword).1 rest, fun hpoint hfraction => ?_⟩
    exact (h.2 hword).2 hpoint (hfraction.of_append_cons (hne '.' (by decide)) hdigit)
  | assign | bang | less | greater =>
    exact hmark '=' (by decide) h
  | minus => exact hmark '>' (by decide) h
  | slash => exact hmark '/' (by decide) h
  | _ => exact fun hkind => not_startsWith_append_cons hpart (h hkind) rest

/-- A text is read before white space as it is read alone. -/
theorem Lexes.before_whiteSpace {pos : Pos} {text : List Char} {ts : List Token}
    (h : Lexes [] pos text ts) {c : Char} (hc : isWhiteSpace c = true) (rest : List Char) :
    Lexes (c :: rest) pos text ts := by
  induction h with
  | gap hg => exact .gap hg
  | token hg hw hm _ ih =>
    rw [List.append_nil] at hm
    exact .token hg hw (hm.before_whiteSpace hc rest) ih

/-! ## Runs over a part of a text -/

/-- At the end of the text the tokens are those read and an end of input. -/
theorem tokens_of_finished {cursor : Cursor} {pos : Pos} (h : cursor.step = .finished pos)
    (before : List Token) : cursor.tokens before = .ok (before.reverse ++ [Token.eofAt pos]) := by
  rw [Cursor.tokens]
  split <;> rename_i found <;> rw [h] at found
  · obtain rfl := Step.finished.inj found
    rw [List.reverse_cons]
  · simp at found
  · simp at found

/-- After a token the tokens are those read from the text behind it. -/
theorem tokens_of_token {cursor after : Cursor} {token : Token}
    (h : cursor.step = .token token after) (before : List Token) :
    cursor.tokens before = after.tokens (token :: before) := by
  rw [Cursor.tokens]
  split <;> rename_i found <;> rw [h] at found
  · simp at found
  · obtain ⟨rfl, rfl⟩ := Step.token.inj found
    rfl
  · simp at found

/-- At a fault the tokens end, and those read are kept in the error. -/
theorem tokens_of_fault {cursor after : Cursor} {fault : Fault} {pos : Pos}
    (h : cursor.step = .fault fault pos after) (before : List Token) :
    cursor.tokens before = .error ⟨fault, pos, before.reverse⟩ := by
  rw [Cursor.tokens]
  split <;> rename_i found <;> rw [h] at found
  · simp at found
  · simp at found
  · obtain ⟨rfl, rfl, rfl⟩ := Step.fault.inj found
    rfl

/-- A run depends on the first step only. -/
theorem tokens_congr {cursor other : Cursor} (h : cursor.step = other.step)
    (before : List Token) : cursor.tokens before = other.tokens before := by
  cases found : other.step with
  | finished pos => rw [tokens_of_finished (h.trans found), tokens_of_finished found]
  | token token after => rw [tokens_of_token (h.trans found), tokens_of_token found]
  | fault fault pos after => rw [tokens_of_fault (h.trans found), tokens_of_fault found]

/-- A run passes the gap at which it starts. -/
theorem tokens_of_gap {gap : List Char} (hg : Gap gap) (rest : List Char) (pos : Pos)
    (before : List Token) :
    Cursor.tokens ⟨gap ++ rest, pos⟩ before = Cursor.tokens ⟨rest, pos.advance gap⟩ before := by
  apply tokens_congr
  simp only [Cursor.step, skipGap, passGap_append hg]

/-- A run passes a text with its tokens, and goes on after it. -/
theorem tokens_of_lexes {next : List Char} {pos : Pos} {text : List Char} {ts : List Token}
    (h : Lexes next pos text ts) (before : List Token) :
    Cursor.tokens ⟨text ++ next, pos⟩ before =
      Cursor.tokens ⟨next, pos.advance text⟩ (ts.reverse ++ before) := by
  -- the tokens read first come last in the list that the run carries
  induction h generalizing before with
  | gap hg => exact tokens_of_gap hg next _ before
  | @token pos gap word text kind ts hg hw hm _ ih =>
    have hstep : Cursor.step ⟨gap ++ (word ++ text) ++ next, pos⟩ =
        .token ⟨kind, String.ofList word, pos.advance gap⟩
          ⟨text ++ next, pos.advance (gap ++ word)⟩ :=
      step_eq_token_iff.mpr ⟨gap, word, hg, hw, hm, by simp, rfl, rfl⟩
    rw [tokens_of_token hstep, ih, ← Pos.advance_append, List.append_assoc, List.reverse_cons,
      List.append_assoc]
    rfl

/-! ## Runs counted from elsewhere -/

/-- Passing a gap moves positions by what the start is moved. -/
theorem passGap_shift (base : Pos) (cs : List Char) {pos : Pos} (h : pos.FromOne) :
    passGap cs (base.shift pos) = (passGap cs pos).shift base ∧ (passGap cs pos).pos.FromOne := by
  obtain ⟨gap, hg, hcs, hpos, hend⟩ := passGap_sound cs pos
  have hshifted := passGap_complete hg hend (base.shift pos)
  rw [← hcs] at hshifted
  refine ⟨?_, hpos ▸ h.advance gap⟩
  rw [hshifted, Cursor.shift, hpos, Pos.shift_advance base h]

/-- What a step finds does not depend on where the text is counted from. -/
theorem step_shift (base : Pos) {cursor : Cursor} (h : cursor.pos.FromOne) :
    (cursor.shift base).step = cursor.step.shift base := by
  obtain ⟨hgap, hfrom⟩ := passGap_shift base cursor.rest h
  have hskip : (cursor.shift base).skipGap = cursor.skipGap.shift base := hgap
  replace hfrom : cursor.skipGap.pos.FromOne := hfrom
  unfold Cursor.step
  rw [hskip]
  -- after the gap stands the end of the text, or a lexeme
  generalize cursor.skipGap = skipped at hfrom
  obtain ⟨rest, pos⟩ := skipped
  cases rest with
  | nil => rfl
  | cons c cs =>
    show readLexeme c cs (base.shift pos) = (readLexeme c cs pos).shift base
    have hafter : base.shift (pos.advance (Lexeme.classify c cs).text) =
        (base.shift pos).advance (Lexeme.classify c cs).text := Pos.shift_advance base hfrom _
    simp only [readLexeme, ← hafter]
    split <;> rfl

/-- The run of a cursor that is counted from elsewhere, and carries other tokens before those
it reads. -/
theorem tokens_shift (base : Pos) (front before : List Token) (cursor : Cursor)
    (h : cursor.pos.FromOne) :
    (cursor.shift base).tokens (before.map (Token.shift base) ++ front.reverse) =
      Token.outcomeAfter base front (cursor.tokens before) := by
  have hstep := step_shift base h
  induction hn : cursor.rest.length using Nat.strongRecOn generalizing cursor before with
  | ind n ih =>
    cases found : cursor.step with
    | finished pos =>
      rw [found] at hstep
      rw [tokens_of_finished hstep, tokens_of_finished found]
      simp [Token.outcomeAfter, Token.shift, Token.eofAt]
    -- one token further on both sides; the tokens left are read from a shorter text
    | token token after =>
      rw [found] at hstep
      have hfrom : after.pos.FromOne := by
        obtain ⟨gap, word, -, -, -, -, -, hpos⟩ := step_eq_token_iff.mp found
        exact hpos ▸ h.advance _
      have hless := hn ▸ step_token_length_lt found
      rw [tokens_of_token hstep, tokens_of_token found]
      exact ih _ hless (token :: before) after hfrom (step_shift base hfrom) rfl
    | fault fault pos after =>
      rw [found] at hstep
      rw [tokens_of_fault hstep, tokens_of_fault found]
      simp [Token.outcomeAfter]

end Lexical

namespace Token

open Lexical

/-- Reading a text, a gap that starts with white space, and another text: the tokens of the first
without its end of the input, and after them the outcome of the second, counted from the end of
the gap. -/
theorem scan_joined {first gap second : String} {ts : List Token} {c : Char} {cs : List Char}
    (hfirst : scan first = .ok ts) (hgap : gap.toList = c :: cs)
    (hc : Text.isWhiteSpace c = true) (hcs : Gap cs) :
    scan (first ++ gap ++ second) =
      outcomeAfter (Pos.start.advance (first ++ gap).toList) ts.dropLast (scan second) := by
  obtain ⟨us, hus, rfl⟩ := (scan_eq_ok_iff first ts).mp hfirst
  have hread := hus.before_whiteSpace hc (cs ++ second.toList)
  -- the first text is read to its end, then the gap is passed, and the rest is the second text
  have hpassed := tokens_of_lexes hread []
  have hgapped := tokens_of_gap (.space hc hcs) second.toList
    (Pos.start.advance first.toList) (us.reverse ++ [])
  have hshifted :
      Cursor.tokens ⟨second.toList, Pos.start.advance (first ++ gap).toList⟩ us.reverse =
        outcomeAfter (Pos.start.advance (first ++ gap).toList) us (scan second) :=
    tokens_shift _ us [] (Cursor.ofSource second) Pos.fromOne_start
  rw [List.dropLast_concat]
  calc scan (first ++ gap ++ second)
      = Cursor.tokens ⟨first.toList ++ c :: (cs ++ second.toList), Pos.start⟩ [] := by
        rw [scan, Cursor.ofSource, String.toList_append, String.toList_append, hgap,
          List.append_assoc, List.cons_append]
    _ = Cursor.tokens ⟨second.toList, Pos.start.advance (first ++ gap).toList⟩ us.reverse := by
        rw [hpassed, ← List.cons_append, hgapped, ← Pos.advance_append, String.toList_append, hgap,
          List.append_nil]
    _ = outcomeAfter (Pos.start.advance (first ++ gap).toList) us (scan second) := hshifted

/-- A name and a text at fault, joined by a comment that covers the end of a line: the slash after
the comment opens no other, and the fault stands one line lower and in the first column. -/
theorem scan_joined_by_comment :
    scan "x" = .ok [⟨.ident, "x", ⟨1, 1⟩⟩, ⟨.eof, "", ⟨1, 2⟩⟩] ∧
      scan ("x" ++ "\t// a\n //" ++ "/ y\n&") = .error ⟨.loneOperator '&', ⟨3, 1⟩,
        [⟨.ident, "x", ⟨1, 1⟩⟩, ⟨.slash, "/", ⟨2, 4⟩⟩, ⟨.ident, "y", ⟨2, 6⟩⟩]⟩ := by
  have hfirst : scan "x" = .ok [⟨.ident, "x", ⟨1, 1⟩⟩, ⟨.eof, "", ⟨1, 2⟩⟩] := by
    decide +kernel
  have hsecond : scan "/ y\n&" = .error ⟨.loneOperator '&', ⟨2, 1⟩,
      [⟨.slash, "/", ⟨1, 1⟩⟩, ⟨.ident, "y", ⟨1, 3⟩⟩]⟩ := by
    decide +kernel
  have hinside : IsInside [' ', 'a', '\n', ' '] := by
    simp [isInside_cons, isInside_nil, StartsWith]
  refine ⟨hfirst, ?_⟩
  rw [scan_joined hfirst (show "\t// a\n //".toList = '\t' :: _ by rfl) (by decide)
    (.comment hinside .nil), hsecond]
  decide

end Token

end Quill
