import Mathlib.Data.List.DropRight
import Mathlib.Logic.Function.Iterate
import Quill.Proofs.Lexical.Faults

/-!
# Repeated reading with one cursor

A cursor may be read from any number of times, also after a fault and after the end. Each reading
passes a piece of the text ahead: a gap, and after it the token it gives or the construct it finds
at fault (`next_passes`). The cursor then stands after that piece, at the position that counting
the lines and columns of the text before it gives (`Pos.advance_start`).

The pieces of all readings up to the first end of the input make up the source, and from there on
every reading finds the same end (`Cursor.readings_cover_source`).
-/

set_option autoImplicit false

namespace Quill

/-- The position after a text that starts a source, by counting: one line more than there are line
feeds, one column more than there are characters after the last of them. -/
def Pos.counted (before : List Char) : Pos :=
  ⟨1 + before.count '\n', 1 + (before.rtakeWhile (· != '\n')).length⟩

/-- Moving over a text from its start is counting its lines and columns. -/
theorem Pos.advance_start (before : List Char) : Pos.start.advance before = Pos.counted before := by
  -- the last character decides whether a line or a column is added
  induction before using List.reverseRecOn with
  | nil => rfl
  | append_singleton before c ih =>
    rw [Pos.advance_append, ih, Pos.advance_cons, Pos.advance_nil]
    by_cases hc : c = '\n'
    · subst hc
      simp [Pos.step, Pos.counted, List.rtakeWhile_concat_neg, Nat.add_assoc]
    · have hstep : (Pos.counted before).step c =
          ⟨(Pos.counted before).line, (Pos.counted before).column + 1⟩ := if_neg hc
      have hcount : (before ++ [c]).count '\n' = before.count '\n' := by
        simp [List.count_append, hc]
      rw [hstep, Pos.counted, Pos.counted, hcount,
        List.rtakeWhile_concat_pos _ _ _ (by simpa using hc), List.length_append,
        List.length_singleton, Nat.add_assoc]

/-- A reading finds the end of the input. -/
def EndsInput (found : Except (Fault × Pos) Token) : Prop :=
  ∃ token, found = .ok token ∧ token.kind = .eof

namespace Cursor

/-- The cursor after a number of readings, whatever each of them found. -/
def after (n : Nat) (cursor : Cursor) : Cursor :=
  (fun c : Cursor => c.next.2)^[n] cursor

/-- The piece of text that the next reading passes. -/
def passed (cursor : Cursor) : List Char :=
  cursor.rest.take (cursor.rest.length - cursor.next.2.rest.length)

@[simp] theorem after_zero (cursor : Cursor) : cursor.after 0 = cursor := rfl

/-- One reading more is the last of the readings. -/
theorem after_succ (n : Nat) (cursor : Cursor) : cursor.after (n + 1) = (cursor.after n).next.2 :=
  Function.iterate_succ_apply' _ n cursor

/-- One reading more is the first of the readings. -/
theorem after_next (n : Nat) (cursor : Cursor) : cursor.next.2.after n = cursor.after (n + 1) :=
  (Function.iterate_succ_apply _ n cursor).symm

/-- The piece passed by a reading is what stands before the text left. -/
theorem passed_eq {cursor : Cursor} {piece : List Char}
    (h : cursor.rest = piece ++ cursor.next.2.rest) : cursor.passed = piece := by
  have hlength : cursor.rest.length - cursor.next.2.rest.length = piece.length := by
    have whole := congrArg List.length h
    rw [List.length_append] at whole
    omega
  rw [passed, hlength]
  conv => lhs; rw [h]
  exact List.take_left

/-- The results of a number of readings are those of the readings one by one. -/
theorem nexts_eq_map (n : Nat) (cursor : Cursor) :
    nexts n cursor = (List.range n).map fun k => (cursor.after k).next.1 := by
  induction n generalizing cursor with
  | zero => rfl
  | succ n ih =>
    rw [nexts, ih, List.range_succ_eq_map, List.map_cons, List.map_map, after_zero]
    rfl

end Cursor

namespace Lexical

open Cursor

/-! ## One reading -/

/-- The end of the input is no lexeme. -/
theorem IsLexeme.kind_ne_eof {kind : Kind} {word : List Char} (h : IsLexeme kind word) :
    kind ≠ .eof := by
  rintro rfl
  cases h with
  | keyword hmem => simp [Kind.keywords] at hmem
  | double hmem => simp [Kind.doubleMarks] at hmem
  | single hmem => simp [Kind.singleMarks] at hmem

/-- No token of a text is an end-of-input token. -/
theorem Lexes.kind_ne_eof {next text : List Char} {pos : Pos} {ts : List Token}
    (h : Lexes next pos text ts) : ∀ t ∈ ts, t.kind ≠ .eof := by
  induction h with
  | gap _ => exact fun t ht => absurd ht List.not_mem_nil
  | token _ hword _ _ ih =>
    intro t ht
    rcases List.mem_cons.mp ht with rfl | ht
    · exact hword.kind_ne_eof
    · exact ih t ht

/-- A reading that starts after the text `before`: the piece it passes, what it finds, and the text
after the piece. The piece is a gap and after it the text of the token, or the construct at fault;
what is found has the position of the first character after the gap. -/
inductive Passes (before : List Char) :
    List Char → Except (Fault × Pos) Token → List Char → Prop
  | finished {gap : List Char} : Gap gap →
      Passes before gap (.ok (Token.eofAt (Pos.counted (before ++ gap)))) []
  | token {gap rest : List Char} {token : Token} : Gap gap → token.kind ≠ .eof →
      token.text.toList ≠ [] → token.pos = Pos.counted (before ++ gap) →
      Passes before (gap ++ token.text.toList) (.ok token) rest
  | fault {gap construct rest : List Char} {fault : Fault} : Gap gap →
      fault.Covers construct rest → construct ≠ [] →
      Passes before (gap ++ construct) (.error (fault, Pos.counted (before ++ gap))) rest

/-- A reading that passes nothing is at the end of the input. -/
theorem Passes.ne_nil {before piece rest : List Char} {found : Except (Fault × Pos) Token}
    (h : Passes before piece found rest) (hend : ¬ EndsInput found) : piece ≠ [] := by
  cases h with
  | finished _ => exact absurd ⟨_, rfl, rfl⟩ hend
  | token _ _ hword _ => simp only [ne_eq, List.append_eq_nil_iff, hword, and_false, not_false_iff]
  | fault _ _ hconstruct =>
    simp only [ne_eq, List.append_eq_nil_iff, hconstruct, and_false, not_false_iff]

/-- Each reading passes a piece of the text ahead, and the cursor moves over that piece. -/
theorem next_passes {cursor : Cursor} {before : List Char}
    (hpos : cursor.pos = Pos.start.advance before) :
    Passes before cursor.passed cursor.next.1 cursor.next.2.rest ∧
      cursor.rest = cursor.passed ++ cursor.next.2.rest ∧
      cursor.next.2.pos = Pos.start.advance (before ++ cursor.passed) := by
  have hcounted : ∀ text, cursor.pos.advance text = Pos.counted (before ++ text) := by
    intro text
    rw [hpos, ← Pos.advance_append, Pos.advance_start]
  -- it is enough to find the piece
  suffices h : ∃ piece, Passes before piece cursor.next.1 cursor.next.2.rest ∧
      cursor.rest = piece ++ cursor.next.2.rest ∧
      cursor.next.2.pos = cursor.pos.advance piece by
    obtain ⟨piece, hpasses, hrest, hafter⟩ := h
    rw [passed_eq hrest]
    exact ⟨hpasses, hrest, by rw [hafter, hpos, Pos.advance_append]⟩
  cases hstep : cursor.step with
  | finished pos =>
    obtain ⟨hgap, rfl⟩ := step_eq_finished_iff.mp hstep
    have hnext : cursor.next = (.ok (Token.eofAt (cursor.pos.advance cursor.rest)),
        ⟨[], cursor.pos.advance cursor.rest⟩) := by rw [next, hstep]
    refine ⟨cursor.rest, ?_, ?_, ?_⟩
    · rw [hnext, hcounted]
      exact .finished hgap
    · rw [hnext, List.append_nil]
    · rw [hnext]
  | token token after =>
    obtain ⟨gap, word, hgap, hword, -, hrest, htoken, hafter⟩ := step_eq_token_iff.mp hstep
    have hnext : cursor.next = (.ok token, after) := by rw [next, hstep]
    have htext : token.text.toList = word := by rw [htoken, String.toList_ofList]
    refine ⟨gap ++ token.text.toList, ?_, ?_, ?_⟩
    · rw [hnext]
      refine .token hgap hword.kind_ne_eof (htext ▸ hword.ne_nil) ?_
      rw [htoken, hcounted]
    · rw [hnext, htext, List.append_assoc]
      exact hrest
    · rw [hnext, htext]
      exact hafter
  | fault fault pos after =>
    obtain ⟨gap, construct, hgap, hcovers, hne, hrest, hstart, hafter⟩ := step_fault_covers hstep
    have hnext : cursor.next = (.error (fault, pos), after) := by rw [next, hstep]
    refine ⟨gap ++ construct, ?_, ?_, ?_⟩
    · rw [hnext, hstart, hcounted]
      exact .fault hgap hcovers hne
    · rw [hnext, List.append_assoc]
      exact hrest
    · rw [hnext]
      exact hafter

end Lexical

namespace Cursor

open Lexical

/-! ## Many readings -/

/-- The cursor stands in a source: the text ahead is what the source has after `before`, and the
position is that of the end of `before`. -/
def StandsAfter (source before : List Char) (cursor : Cursor) : Prop :=
  source = before ++ cursor.rest ∧ cursor.pos = Pos.start.advance before

/-- A reading moves the cursor on in its source. -/
theorem StandsAfter.next {source before : List Char} {cursor : Cursor}
    (h : cursor.StandsAfter source before) :
    cursor.next.2.StandsAfter source (before ++ cursor.passed) := by
  obtain ⟨hsource, hpos⟩ := h
  obtain ⟨-, hrest, hafter⟩ := next_passes hpos
  refine ⟨?_, hafter⟩
  rw [List.append_assoc, ← hrest]
  exact hsource

/-- After any number of readings the cursor stands behind the pieces that these passed. -/
theorem standsAfter_after (source : String) (n : Nat) :
    ((ofSource source).after n).StandsAfter source.toList
      ((List.range n).flatMap fun k => ((ofSource source).after k).passed) := by
  induction n with
  | zero => exact ⟨rfl, rfl⟩
  | succ n ih =>
    rw [after_succ, List.range_succ, List.flatMap_append, List.flatMap_singleton]
    exact ih.next

/-- After a reading that ends the input no text is left, and the next reading is the same. -/
theorem next_of_endsInput {cursor : Cursor} (h : EndsInput cursor.next.1) :
    cursor.next.2.rest = [] ∧ cursor.next.2.next = cursor.next := by
  obtain ⟨token, hfound, hkind⟩ := h
  cases hstep : cursor.step with
  | finished pos =>
    -- nothing is left, so that the end is found at the same place again
    have hnext : cursor.next = (.ok (Token.eofAt pos), ⟨[], pos⟩) := by rw [next, hstep]
    have hagain : (⟨[], pos⟩ : Cursor).step = .finished pos :=
      step_eq_finished_iff.mpr ⟨.nil, rfl⟩
    rw [hnext]
    exact ⟨rfl, by rw [next, hagain]⟩
  | token other after =>
    obtain ⟨gap, word, -, hword, -⟩ := step_eq_token_iff.mp hstep
    rw [next, hstep] at hfound
    obtain rfl := Except.ok.inj hfound
    exact absurd hkind hword.kind_ne_eof
  | fault fault pos after =>
    rw [next, hstep] at hfound
    simp at hfound

/-- Once the end of the input is found, every later reading finds it again. -/
theorem next_after_of_endsInput {cursor : Cursor} (h : EndsInput cursor.next.1) (n : Nat) :
    (cursor.after n).next = cursor.next := by
  induction n with
  | zero => rfl
  | succ n ih =>
    rw [after_succ, ih]
    exact (next_of_endsInput h).2

/-- A reading before the end of the input leaves less text. -/
theorem next_rest_length_lt {cursor : Cursor} (h : ¬ EndsInput cursor.next.1) :
    cursor.next.2.rest.length < cursor.rest.length := by
  cases hstep : cursor.step with
  | finished pos =>
    rw [next, hstep] at h
    exact absurd ⟨_, rfl, rfl⟩ h
  | token token after =>
    rw [next, hstep]
    exact step_token_length_lt hstep
  | fault fault pos after =>
    rw [next, hstep]
    exact step_fault_length_lt hstep

/-- The end of the input is found after at most as many readings as there are characters. -/
theorem exists_endsInput (cursor : Cursor) : ∃ n ≤ cursor.rest.length,
    EndsInput (cursor.after n).next.1 ∧ ∀ m < n, ¬ EndsInput (cursor.after m).next.1 := by
  induction hn : cursor.rest.length using Nat.strongRecOn generalizing cursor with
  | ind n ih =>
    by_cases hend : EndsInput cursor.next.1
    · exact ⟨0, Nat.zero_le n, hend, fun m hm => absurd hm (Nat.not_lt_zero m)⟩
    · have hless := hn ▸ next_rest_length_lt hend
      obtain ⟨k, hk, hfound, hbefore⟩ := ih _ hless cursor.next.2 rfl
      refine ⟨k + 1, by omega, by rwa [← after_next], fun m hm => ?_⟩
      cases m with
      | zero => exact hend
      | succ m =>
        rw [← after_next]
        exact hbefore m (by omega)

/-- A token ends where the cursor stands that has read it. -/
theorem endPos_of_next {cursor : Cursor} {token : Token} (h : cursor.next.1 = .ok token) :
    token.endPos = cursor.next.2.pos := by
  cases hstep : cursor.step with
  | finished pos =>
    rw [next, hstep] at h ⊢
    obtain rfl := Except.ok.inj h
    rfl
  | token found after =>
    obtain ⟨gap, word, -, -, -, -, hfound, hafter⟩ := step_eq_token_iff.mp hstep
    rw [next, hstep] at h ⊢
    obtain rfl := Except.ok.inj h
    rw [hfound, hafter, Token.endPos, String.toList_ofList, Pos.advance_append]
  | fault fault pos after =>
    rw [next, hstep] at h
    simp at h

/-- The tokens of a run are those that the readings give one by one, and the reading after the last
of them finds the end. -/
theorem readings_of_tokens {cursor : Cursor} {before ts : List Token}
    (h : cursor.tokens before = .ok ts) :
    ∃ us pos, ts = before.reverse ++ us ++ [Token.eofAt pos] ∧
      (cursor.after us.length).step = .finished pos ∧
      ∀ k (hk : k < us.length), (cursor.after k).next.1 = .ok us[k] := by
  -- along the run; `before` holds the tokens read so far, the last one first
  fun_induction Cursor.tokens cursor before with
  | case1 cursor before pos found =>
    refine ⟨[], pos, ?_, found, fun k hk => absurd hk (Nat.not_lt_zero k)⟩
    rw [← Except.ok.inj h]
    simp
  | case2 cursor before token after found ih =>
    obtain ⟨us, pos, rfl, hend, hreadings⟩ := ih h
    have hnext : cursor.next = (.ok token, after) := by rw [next, found]
    have hafter : ∀ k, cursor.after (k + 1) = after.after k := by
      intro k
      rw [← after_next, hnext]
    refine ⟨token :: us, pos, by simp, by rw [List.length_cons, hafter, hend], fun k hk => ?_⟩
    cases k with
    | zero => rw [after_zero, hnext, List.getElem_cons_zero]
    | succ k =>
      rw [hafter, List.getElem_cons_succ]
      exact hreadings k (Nat.lt_of_succ_lt_succ hk)
  | case3 => simp at h

/-- Reading from the start of a source, any number of times and whatever is found, the cursor
keeps its place by lines and columns, each reading passes a gap and what it gives, the first
reading that finds the end of the input comes after the whole source is passed, and the end is
found again by every later reading. -/
theorem readings_cover_source (source : String) :
    (∀ n, nexts n (ofSource source) =
      (List.range n).map fun k => ((ofSource source).after k).next.1) ∧
    (∀ n, ∃ before, source.toList = before ++ ((ofSource source).after n).rest ∧
      ((ofSource source).after n).pos = Pos.counted before ∧
      ((ofSource source).after n).rest =
        ((ofSource source).after n).passed ++ ((ofSource source).after (n + 1)).rest ∧
      Passes before ((ofSource source).after n).passed ((ofSource source).after n).next.1
        ((ofSource source).after (n + 1)).rest ∧
      (¬ EndsInput ((ofSource source).after n).next.1 →
        ((ofSource source).after n).passed ≠ [])) ∧
    (∀ n, EndsInput ((ofSource source).after n).next.1 → ∀ m, n ≤ m →
      ((ofSource source).after m).next.1 = ((ofSource source).after n).next.1) ∧
    ∃ n ≤ source.toList.length, EndsInput ((ofSource source).after n).next.1 ∧
      (∀ m < n, ¬ EndsInput ((ofSource source).after m).next.1) ∧
      source.toList =
        (List.range (n + 1)).flatMap fun k => ((ofSource source).after k).passed := by
  refine ⟨fun n => nexts_eq_map n _, fun n => ?_, fun n hend m hm => ?_, ?_⟩
  · obtain ⟨hsource, hpos⟩ := standsAfter_after source n
    obtain ⟨hpasses, hrest, -⟩ := next_passes hpos
    rw [← after_succ] at hpasses hrest
    exact ⟨_, hsource, hpos.trans (Pos.advance_start _), hrest, hpasses, hpasses.ne_nil⟩
  · obtain ⟨k, rfl⟩ := Nat.exists_eq_add_of_le hm
    have hlater : (ofSource source).after (n + k) = ((ofSource source).after n).after k := by
      rw [after, after, after, Nat.add_comm, Function.iterate_add_apply]
    rw [hlater, next_after_of_endsInput hend]
  · obtain ⟨n, hn, hend, hbefore⟩ := exists_endsInput (ofSource source)
    refine ⟨n, hn, hend, hbefore, ?_⟩
    obtain ⟨hsource, -⟩ := standsAfter_after source (n + 1)
    rwa [after_succ, (next_of_endsInput hend).1, List.append_nil] at hsource

end Cursor

end Quill
