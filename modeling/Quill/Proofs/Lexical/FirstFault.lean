import Quill.Proofs.Lexical.Readings

/-!
# What is before the first fault, and what is at it

A source with a fault falls in two. The part before the fault is a text without any: read alone, it
gives the tokens that the error keeps, and its end is the position of the error. The part from there
on shows the fault (`Fault.ShownBy`).

Cutting a text changes what its last lexemes precede. That does no harm, because a restriction on
what may follow a lexeme is met by every shorter text as well (`MayPrecede.cut`).
-/

set_option autoImplicit false

namespace Quill

/-- A number up to the place where the digits of its exponent have to stand: digits, perhaps a
fraction, an exponent letter, perhaps a sign. -/
def Lexical.IsOpenExponent (cs : List Char) : Prop :=
  ∃ whole part letter sign, IsDigits whole ∧ IsFraction part ∧
    Lexeme.isExponentLetter letter = true ∧ IsOptionalSign sign ∧
    cs = whole ++ part ++ letter :: sign

open Lexical

/-- The text that starts at a fault shows why there is one.

* An open comment: two slashes, and no two slashes after them.
* An open string: a quote, and no quote after it that a backslash does not protect.
* A bare exponent: the longest number up to its exponent that starts the text, quoted in the
  message, and no digit after it.
* A lone operator: the character is not doubled.
* A stray character: no lexeme and no gap starts with it. -/
def Fault.ShownBy (fault : Fault) (text : List Char) : Prop :=
  match fault with
  | .openComment => ∃ inside, text = '/' :: '/' :: inside ∧
      ∀ before after, inside ≠ before ++ '/' :: '/' :: after
  | .openString => ∃ inside, text = '"' :: inside ∧
      ∀ body after, IsBody body → inside ≠ body ++ '"' :: after
  | .bareExponent accepted => ∃ rest, text = accepted.toList ++ rest ∧
      IsOpenExponent accepted.toList ∧
      (∀ other more, IsOpenExponent other → text = other ++ more →
        other.length ≤ accepted.toList.length) ∧
      ¬ StartsWith Char.isDigit rest ∧
      fault.message = "malformed number '" ++ accepted ++ "': exponent needs at least one digit"
  | .loneOperator c => (c = '&' ∨ c = '|') ∧ ∃ rest, text = c :: rest ∧ ¬ StartsWith (· == c) rest
  | .strayChar c => (∃ rest, text = c :: rest) ∧ Text.isWhiteSpace c = false ∧ c ≠ '"' ∧
      c.isDigit = false ∧ Text.isLetter c = false ∧ c ≠ '&' ∧ c ≠ '|' ∧
      c ∉ Kind.singleMarks.map Prod.fst

namespace Lexical

open Cursor Lexeme

/-! ## Texts cut short -/

/-- If a text does not start with such a character once more is put after it, it does not alone. -/
theorem not_startsWith_of_append {p : Char → Bool} {text next : List Char}
    (h : ¬ StartsWith p (text ++ next)) : ¬ StartsWith p text := by
  cases text with
  | nil => exact id
  | cons c cs => exact h

/-- A point and a digit stay at the start of a text, whatever is put after it. -/
theorem StartsWithFraction.append {text : List Char} (h : StartsWithFraction text)
    (next : List Char) : StartsWithFraction (text ++ next) := by
  obtain ⟨d, rest, rfl, hd⟩ := h
  exact ⟨d, rest ++ next, rfl, hd⟩

/-- What may precede a text may precede what is left when its end is cut off. -/
theorem MayPrecede.cut {kind : Kind} {word text next : List Char}
    (h : MayPrecede kind word (text ++ next)) : MayPrecede kind word text := by
  cases kind with
  | number =>
    refine ⟨not_startsWith_of_append h.1, fun hword => ?_⟩
    obtain ⟨hletter, hpoint⟩ := h.2 hword
    exact ⟨not_startsWith_of_append hletter, fun hfree hfraction =>
      hpoint hfree (hfraction.append next)⟩
  | assign | bang | less | greater | minus | slash => exact not_startsWith_of_append h
  | _ => exact fun hkind => not_startsWith_of_append (h hkind)

/-- A text is read alone as it is read before another one. -/
theorem Lexes.cut {next text : List Char} {pos : Pos} {ts : List Token}
    (h : Lexes next pos text ts) : Lexes [] pos text ts := by
  induction h with
  | gap hg => exact .gap hg
  | token hg hw hm _ ih => exact .token hg hw (by rw [List.append_nil]; exact hm.cut) ih

/-! ## What a fault shows -/

/-- No two slashes close the comment. -/
theorem closeComment?_eq_none {cs : List Char} {pos : Pos} (h : closeComment? cs pos = none)
    (before after : List Char) : cs ≠ before ++ '/' :: '/' :: after := by
  fun_induction closeComment? cs pos generalizing before with
  | case1 => simp at h
  | case2 pos c cs hnot ih =>
    intro hcs
    cases before with
    | nil =>
      obtain ⟨rfl, rfl⟩ := List.cons.inj hcs
      exact hnot _ rfl rfl
    | cons d before => exact ih h before (List.cons.inj hcs).2
  | case3 => simp

/-- Where no gap starts, two slashes open a comment that is never closed. -/
theorem openComment_shown {inside : List Char} (h : Settled ('/' :: '/' :: inside)) :
    Fault.openComment.ShownBy ('/' :: '/' :: inside) := by
  have hopen : closeComment? inside Pos.start = none := by
    cases hclose : closeComment? inside Pos.start with
    | none => rfl
    | some after =>
      -- up to where it is closed the comment would be a gap
      obtain ⟨before, hbefore, hinside, -⟩ := closeComment?_eq_some_iff.mp hclose
      have hgap : Gap ('/' :: '/' :: (before ++ '/' :: '/' :: [])) := .comment hbefore .nil
      have hnil := h _ after.rest hgap (by rw [hinside]; simp)
      exact absurd hnil (List.cons_ne_nil _ _)
  exact ⟨inside, rfl, closeComment?_eq_none hopen⟩

/-- The fault of a string literal is one that its text shows. -/
theorem quoted_shown {cs : List Char} {fault : Fault} (h : (quoted cs).verdict = .error fault) :
    fault.ShownBy ('"' :: cs) := by
  unfold quoted at h
  split at h
  · simp at h
  · rename_i hclose
    obtain rfl := Except.error.inj h
    refine ⟨cs, rfl, fun body after hbody hcs => ?_⟩
    rw [hcs, closeQuote_complete hbody] at hclose
    simp at hclose

/-- The parts of a number up to its exponent are those that are read, but for a sign that may be
read as well. -/
theorem IsOpenExponent.length_le {other more : List Char} (h : IsOpenExponent other) :
    other.length ≤ (digits (other ++ more) ++ (fraction (afterDigits (other ++ more))).1 ++
      (exponentMark (fraction (afterDigits (other ++ more))).2).1).length := by
  obtain ⟨whole, part, letter, sign, hwhole, hpart, hletter, hsign, rfl⟩ := h
  have hdigit : letter.isDigit = false := by
    rcases (isExponentLetter_iff letter).mp hletter with rfl | rfl <;> rfl
  have hpoint : letter ≠ '.' := by
    rcases (isExponentLetter_iff letter).mp hletter with rfl | rfl <;> decide
  have hnext : ¬ StartsWith Char.isDigit (part ++ letter :: (sign ++ more)) := by
    rcases hpart with rfl | ⟨ds, -, rfl⟩
    · simp [StartsWith, hdigit]
    · simp [StartsWith]
  -- the digits end before a point or an exponent letter, and are taken whole
  obtain ⟨htaken, hleft⟩ := digits_complete hwhole.2 hnext
  have hfraction : fraction (part ++ letter :: (sign ++ more)) =
      (part, letter :: (sign ++ more)) := by
    refine fraction_complete hpart (fun _ => by simp [StartsWith, hdigit]) fun _ => ?_
    rintro ⟨d, rest, hcs, -⟩
    exact hpoint (List.cons.inj hcs).1
  -- a sign is taken as well if one stands after the letter
  have hmark : (letter :: sign).length ≤ (exponentMark (letter :: (sign ++ more))).1.length := by
    rcases hsign with rfl | ⟨s, hs, rfl⟩
    · have hstart : StartsWith isExponentLetter (letter :: ([] ++ more)) := hletter
      obtain ⟨e, sign, -, -, hmark⟩ := exponentMark_of_startsWith hstart
      rw [hmark]
      simp
    · simp [exponentMark, hletter, hs]
  have htext : whole ++ part ++ letter :: sign ++ more =
      whole ++ (part ++ letter :: (sign ++ more)) := by simp
  rw [htext, htaken, hleft, hfraction]
  simp only [List.length_append]
  exact Nat.add_le_add_left hmark _

/-- The fault of a number is one that its text shows. -/
theorem number_shown {cs : List Char} (hstart : StartsWith Char.isDigit cs) {fault : Fault}
    (h : (number cs).verdict = .error fault) : fault.ShownBy cs := by
  have hwhole := isDigits_digits hstart
  have hpart := (fraction_sound (afterDigits cs)).1
  have hcs := number_text_append_rest cs
  -- without an exponent letter a number has no fault
  by_cases hexp : StartsWith isExponentLetter (fraction (afterDigits cs)).2
  · obtain ⟨e, sign, he, hsign, hmark⟩ := exponentMark_of_startsWith hexp
    by_cases hdigits : digits (exponentMark (fraction (afterDigits cs)).2).2 = []
    · simp only [number, hmark, List.cons_ne_nil, if_false, if_pos hdigits] at h hcs
      obtain rfl := Except.error.inj h
      refine ⟨_, by rw [String.toList_ofList, hcs], ?_, fun other more hother htext => ?_, ?_, rfl⟩
      · rw [String.toList_ofList]
        exact ⟨_, _, e, sign, hwhole, hpart, he, hsign, rfl⟩
      · -- no text of this form at the head of the number is longer than what is read
        rw [String.toList_ofList, ← hmark, htext]
        exact hother.length_le
      · rwa [← digits_ne_nil_iff, not_not]
    · simp [number, hmark, hdigits] at h
  · simp [number, exponentMark_eq_nil hexp] at h

/-- The fault of a mark is one that its text shows. -/
theorem mark_shown {c : Char} {cs : List Char} (hspace : Text.isWhiteSpace c = false)
    (hquote : c ≠ '"') (hdigit : c.isDigit = false) (hletter : Text.isLetter c = false)
    {fault : Fault} (h : (mark c cs).verdict = .error fault) : fault.ShownBy (c :: cs) := by
  -- a fault is found only where the first two characters form no mark
  obtain ⟨hsingle, hdouble⟩ : singleMark c = .error fault ∧
      ∀ d ds, cs = d :: ds → Kind.double? c d = none := by
    unfold mark at h
    split at h
    · exact ⟨h, fun _ _ hnil => absurd hnil.symm (List.cons_ne_nil _ _)⟩
    · rename_i d ds
      cases hd : Kind.double? c d with
      | some kind => simp [hd] at h
      | none =>
        simp only [hd] at h
        refine ⟨h, fun e es hcs => ?_⟩
        rw [← (List.cons.inj hcs).1, hd]
  unfold singleMark at hsingle
  split at hsingle
  · rename_i hlone
    obtain rfl := Except.error.inj hsingle
    refine ⟨hlone, cs, rfl, ?_⟩
    cases cs with
    | nil => exact id
    | cons d ds =>
      intro hd
      obtain rfl : d = c := by simpa [StartsWith] using hd
      have hnone := hdouble d ds rfl
      rcases hlone with rfl | rfl <;> simp [Kind.double?, Kind.doubleMarks] at hnone
  · rename_i hlone
    split at hsingle
    · simp at hsingle
    · rename_i hnone
      obtain rfl := Except.error.inj hsingle
      have hand : c ≠ '&' := fun hc => hlone (.inl hc)
      have hor : c ≠ '|' := fun hc => hlone (.inr hc)
      refine ⟨⟨cs, rfl⟩, hspace, hquote, hdigit, hletter, hand, hor, fun hmem => ?_⟩
      obtain ⟨⟨_, kind⟩, hentry, rfl⟩ := List.mem_map.mp hmem
      rw [single?_eq_some_iff.mpr hentry] at hnone
      simp at hnone

/-- A text at which no gap starts, and whose first lexeme is at fault, shows the fault. -/
theorem classify_shown {c : Char} {cs : List Char} (hend : Settled (c :: cs)) {fault : Fault}
    (h : (classify c cs).verdict = .error fault) : fault.ShownBy (c :: cs) := by
  -- the tests in their order, as the reader makes them; a word is never at fault
  unfold classify at h
  split at h
  · rename_i hopen
    obtain rfl := Except.error.inj h
    cases cs with
    | nil => simp [opensComment] at hopen
    | cons d ds =>
      obtain ⟨rfl, rfl⟩ := (opensComment_iff c d ds).mp hopen
      exact openComment_shown hend
  · split at h
    · rename_i hquote
      rw [hquote]
      exact quoted_shown h
    · rename_i hquote
      split at h
      · rename_i hdigit
        have hstart : StartsWith Char.isDigit (c :: cs) := hdigit
        exact number_shown hstart h
      · rename_i hdigit
        split at h
        · simp [word] at h
        · rename_i hletter
          have hspace : Text.isWhiteSpace c = false := by
            rw [Bool.eq_false_iff]
            intro hspace
            exact absurd (hend [c] cs (.space hspace .nil) rfl) (List.cons_ne_nil _ _)
          exact mark_shown hspace hquote (by simpa using hdigit) (by simpa using hletter) h

/-- A step that meets a fault passes a gap, after which the text shows the fault. -/
theorem step_fault_shown {cursor after : Cursor} {fault : Fault} {pos : Pos}
    (h : cursor.step = .fault fault pos after) :
    ∃ gap rest, Gap gap ∧ cursor.rest = gap ++ rest ∧ pos = cursor.pos.advance gap ∧
      fault.ShownBy rest := by
  obtain ⟨gap, hgap, hrest, hpos, hend⟩ := passGap_sound cursor.rest cursor.pos
  unfold Cursor.step skipGap at h
  split at h
  · simp at h
  · rename_i c cs stop hskip
    rw [hskip] at hrest hpos hend
    simp only [readLexeme] at h
    split at h
    · simp at h
    · rename_i found hfound
      obtain ⟨rfl, rfl, -⟩ := Step.fault.inj h
      exact ⟨gap, c :: cs, hgap, hrest, hpos, classify_shown hend hfound⟩

/-! ## Runs -/

/-- A run that meets a fault reads the tokens of the text before it. -/
theorem tokens_eq_error {cursor : Cursor} {before : List Token} {e : LexicalError}
    (h : cursor.tokens before = .error e) :
    ∃ text rest us, cursor.rest = text ++ rest ∧ Lexes rest cursor.pos text us ∧
      e.tokens = before.reverse ++ us ∧ e.pos = cursor.pos.advance text ∧
      e.fault.ShownBy rest := by
  -- along the run; `before` holds the tokens read so far, the last one first
  fun_induction Cursor.tokens cursor before with
  | case1 => simp at h
  | case2 cursor before token after found ih =>
    obtain ⟨text, rest, us, hrest, hus, htokens, hpos, hshown⟩ := ih h
    obtain ⟨gap, word, hgap, hword, hm, hcursor, htoken, hafter⟩ := step_eq_token_iff.mp found
    rw [hrest] at hm hcursor
    rw [hafter] at hus hpos
    refine ⟨gap ++ (word ++ text), rest, token :: us, by simp [hcursor], ?_, by simp [htokens], ?_,
      hshown⟩
    · rw [htoken]
      exact .token hgap hword hm hus
    · rw [hpos, ← Pos.advance_append, List.append_assoc]
  | case3 cursor before fault pos after found =>
    obtain ⟨gap, rest, hgap, hrest, hpos, hshown⟩ := step_fault_shown found
    obtain rfl := Except.error.inj h
    exact ⟨gap, rest, [], hrest, .gap hgap, by simp, hpos, hshown⟩

end Lexical

namespace Token

open Lexical

/-- A source with a fault is a text without one and, from the position of the fault on, a text that
shows it. The tokens kept with the error are those of the text before the fault. -/
theorem scan_error_splits {source : String} {e : LexicalError} (h : scan source = .error e) :
    ∃ before rest : String, source = before ++ rest ∧
      scan before = .ok (e.tokens ++ [⟨.eof, "", e.pos⟩]) ∧
      e.pos = Pos.counted before.toList ∧ e.fault.ShownBy rest.toList := by
  obtain ⟨text, rest, us, hsource, hus, htokens, hpos, hshown⟩ := tokens_eq_error h
  have hsource' : source.toList = text ++ rest := hsource
  refine ⟨String.ofList text, String.ofList rest, ?_, ?_, ?_, ?_⟩
  · rw [← String.ofList_append, ← hsource', String.ofList_toList]
  · have hbefore : Cursor.ofSource (String.ofList text) = ⟨text, Pos.start⟩ := by
      rw [Cursor.ofSource, String.toList_ofList]
    rw [scan, hbefore, htokens, hpos]
    exact tokens_eq_ok_iff.mpr ⟨us, hus.cut, rfl⟩
  · rw [String.toList_ofList, ← Pos.advance_start]
    exact hpos
  · rwa [String.toList_ofList]

/-- A number directly after a comment, without digits in its exponent: the name before the comment
is kept, and the sign belongs to the number. -/
theorem scan_error_splits_at_number :
    scan "x//c//1.5e+y" = .error ⟨.bareExponent "1.5e+", ⟨1, 7⟩, [⟨.ident, "x", ⟨1, 1⟩⟩]⟩ ∧
      ∃ before rest : String, "x//c//1.5e+y" = before ++ rest ∧
        scan before = .ok [⟨.ident, "x", ⟨1, 1⟩⟩, ⟨.eof, "", ⟨1, 7⟩⟩] ∧
        (⟨1, 7⟩ : Pos) = Pos.counted before.toList ∧
        (Fault.bareExponent "1.5e+").ShownBy rest.toList := by
  have hscan : scan "x//c//1.5e+y" =
      .error ⟨.bareExponent "1.5e+", ⟨1, 7⟩, [⟨.ident, "x", ⟨1, 1⟩⟩]⟩ := by
    decide +kernel
  exact ⟨hscan, scan_error_splits hscan⟩

end Token

end Quill
