import Quill.Proofs.Lexical.Rules

/-!
# Reading numbers

The number reader takes exactly the longest number at the head of a text.

* `number_sound`: a number that is read has the form of one, and what follows cannot be part
  of it.
* `number_complete`: a number that may precede a text is read from in front of it.

Each of the three parts, digits, fraction and exponent, has such a pair of its own.
-/

set_option autoImplicit false

namespace Quill.Lexical

open Quill.Lexeme

/-! ## Runs of a class -/

/-- A run of one class before a text that does not start with it is taken as a whole. -/
theorem takeWhile_run {p : Char → Bool} {run next : List Char} (hrun : ∀ c ∈ run, p c = true)
    (hnext : ¬ StartsWith p next) : (run ++ next).takeWhile p = run := by
  rw [List.takeWhile_append_of_pos hrun]
  cases next with
  | nil => simp
  | cons c cs => simp [show p c = false by simpa [StartsWith] using hnext]

/-- A run of one class before a text that does not start with it is dropped as a whole. -/
theorem dropWhile_run {p : Char → Bool} {run next : List Char} (hrun : ∀ c ∈ run, p c = true)
    (hnext : ¬ StartsWith p next) : (run ++ next).dropWhile p = next := by
  rw [List.dropWhile_append_of_pos hrun]
  cases next with
  | nil => rfl
  | cons c cs => simp [show p c = false by simpa [StartsWith] using hnext]

/-- After a run of a class the class does not go on. -/
theorem not_startsWith_dropWhile (p : Char → Bool) (cs : List Char) :
    ¬ StartsWith p (cs.dropWhile p) := by
  induction cs with
  | nil => exact id
  | cons c cs ih =>
    by_cases hc : p c = true
    · rwa [List.dropWhile_cons_of_pos hc]
    · rwa [List.dropWhile_cons_of_neg hc]

/-- The characters taken while a condition holds satisfy it. -/
theorem mem_takeWhile {p : Char → Bool} {cs : List Char} {c : Char} (h : c ∈ cs.takeWhile p) :
    p c = true :=
  List.all_eq_true.mp List.all_takeWhile c h

/-- Digits before something else than a digit are taken whole. -/
theorem digits_complete {ds next : List Char} (hd : ∀ c ∈ ds, c.isDigit = true)
    (hnext : ¬ StartsWith Char.isDigit next) :
    digits (ds ++ next) = ds ∧ afterDigits (ds ++ next) = next :=
  ⟨takeWhile_run hd hnext, dropWhile_run hd hnext⟩

/-- A text starts with a digit exactly if some digits are read from it. -/
theorem digits_ne_nil_iff (cs : List Char) : digits cs ≠ [] ↔ StartsWith Char.isDigit cs := by
  cases cs with
  | nil => simp [digits, StartsWith]
  | cons c cs => simp [digits, StartsWith, List.takeWhile_cons]

/-- The digits taken from a text that starts with one are one digit or more. -/
theorem isDigits_digits {cs : List Char} (h : StartsWith Char.isDigit cs) : IsDigits (digits cs) :=
  ⟨(digits_ne_nil_iff cs).mpr h, fun _ hc => mem_takeWhile hc⟩

/-- A text that begins with one digit or more starts with a digit. -/
theorem IsDigits.startsWith {ds : List Char} (h : IsDigits ds) (next : List Char) :
    StartsWith Char.isDigit (ds ++ next) := by
  obtain ⟨hne, hall⟩ := h
  cases ds with
  | nil => exact absurd rfl hne
  | cons d ds => exact hall d List.mem_cons_self

/-! ## Classes of characters -/

/-- The letters that start an exponent. -/
theorem isExponentLetter_iff (c : Char) : isExponentLetter c = true ↔ c = 'e' ∨ c = 'E' := by
  simp [isExponentLetter]

/-- The signs of an exponent. -/
theorem isSign_iff (c : Char) : isSign c = true ↔ c = '+' ∨ c = '-' := by
  simp [isSign]

/-- A digit is no exponent letter, no sign and no point. -/
theorem not_special_of_isDigit {c : Char} (h : c.isDigit = true) :
    isExponentLetter c = false ∧ isSign c = false ∧ c ≠ '.' := by
  refine ⟨?_, ?_, ?_⟩
  · rw [Bool.eq_false_iff, ne_eq, isExponentLetter_iff]
    rintro (rfl | rfl) <;> exact absurd h (by decide)
  · rw [Bool.eq_false_iff, ne_eq, isSign_iff]
    rintro (rfl | rfl) <;> exact absurd h (by decide)
  · rintro rfl
    exact absurd h (by decide)

/-- The digits and the fraction of a number hold no exponent letter. -/
theorem not_isExponentLetter_of_mem {whole part : List Char} (hw : IsDigits whole)
    (hp : IsFraction part) {c : Char} (hc : c ∈ whole ++ part) : isExponentLetter c = false := by
  rcases List.mem_append.mp hc with hc | hc
  · exact (not_special_of_isDigit (hw.2 c hc)).1
  · rcases hp with rfl | ⟨ds, hds, rfl⟩
    · simp at hc
    · rcases List.mem_cons.mp hc with rfl | hc
      · decide
      · exact (not_special_of_isDigit (hds.2 c hc)).1

/-! ## Fractions -/

/-- Without a point and a digit there is no fraction to take. -/
theorem fraction_eq_nil {cs : List Char} (h : ¬ StartsWithFraction cs) :
    fraction cs = ([], cs) := by
  unfold fraction
  split
  · rename_i d cs
    rw [if_neg fun hd => h ⟨d, cs, rfl, hd⟩]
  · rfl

/-- What is taken as a fraction is one or nothing, and could not be read on. -/
theorem fraction_sound (cs : List Char) :
    IsFraction (fraction cs).1 ∧
      ((fraction cs).1 = [] → ¬ StartsWithFraction (fraction cs).2) ∧
      ((fraction cs).1 ≠ [] → ¬ StartsWith Char.isDigit (fraction cs).2) := by
  by_cases h : StartsWithFraction cs
  · -- a point and a digit: the fraction is not empty and ends with its digits
    obtain ⟨d, cs, rfl, hd⟩ := h
    simp only [fraction, if_pos hd]
    refine ⟨.inr ⟨digits (d :: cs), isDigits_digits hd, rfl⟩, ?_, ?_⟩
    · simp
    · intro _
      exact not_startsWith_dropWhile _ _
  · rw [fraction_eq_nil h]
    exact ⟨.inl rfl, fun _ => h, fun hne => absurd rfl hne⟩

/-- A fraction, or none, before what could not read on is what is taken. -/
theorem fraction_complete {part next : List Char} (hp : IsFraction part)
    (hdigit : part ≠ [] → ¬ StartsWith Char.isDigit next)
    (hpoint : part = [] → ¬ StartsWithFraction next) :
    fraction (part ++ next) = (part, next) := by
  rcases hp with rfl | ⟨ds, hds, rfl⟩
  · exact fraction_eq_nil (hpoint rfl)
  · obtain ⟨taken, left⟩ := digits_complete hds.2 (hdigit (by simp))
    obtain ⟨d, ds, rfl⟩ := List.exists_cons_of_ne_nil hds.1
    have hd : d.isDigit = true := hds.2 d List.mem_cons_self
    simp only [List.cons_append] at taken left ⊢
    simp only [fraction, if_pos hd, taken, left]

/-! ## Exponents -/

/-- The letter and the sign of an exponent, split off a text that starts with such a letter. -/
theorem exponentMark_of_startsWith {cs : List Char} (h : StartsWith isExponentLetter cs) :
    ∃ e sign, isExponentLetter e = true ∧ IsOptionalSign sign ∧
      (exponentMark cs).1 = e :: sign := by
  match cs, h with
  | [e], h =>
    refine ⟨e, [], h, .inl rfl, ?_⟩
    simp only [StartsWith] at h
    simp [exponentMark, h]
  | e :: s :: cs, h =>
    simp only [StartsWith] at h
    by_cases hs : isSign s = true
    · exact ⟨e, [s], h, .inr ⟨s, hs, rfl⟩, by simp [exponentMark, h, hs]⟩
    · exact ⟨e, [], h, .inl rfl, by simp [exponentMark, h, hs]⟩

/-- Without an exponent letter there is no exponent mark to take. -/
theorem exponentMark_eq_nil {cs : List Char} (h : ¬ StartsWith isExponentLetter cs) :
    exponentMark cs = ([], cs) := by
  match cs, h with
  | [], _ => rfl
  | [e], h =>
    simp only [StartsWith] at h
    simp [exponentMark, h]
  | e :: s :: cs, h =>
    simp only [StartsWith] at h
    simp [exponentMark, h]

/-- The exponent mark before digits is the letter and its sign, if there is one. -/
theorem exponentMark_complete {e : Char} {sign ds : List Char}
    (he : isExponentLetter e = true) (hs : IsOptionalSign sign) (hd : IsDigits ds)
    (next : List Char) :
    exponentMark (e :: (sign ++ ds) ++ next) = (e :: sign, ds ++ next) := by
  rcases hs with rfl | ⟨s, hs, rfl⟩
  · obtain ⟨d, ds, rfl⟩ := List.exists_cons_of_ne_nil hd.1
    have hdigit := not_special_of_isDigit (hd.2 d List.mem_cons_self)
    simp [exponentMark, he, hdigit.2.1]
  · simp [exponentMark, he, hs]

/-! ## Numbers -/

/-- A number that is read has the form of a number, and cannot be read on. -/
theorem number_sound {cs : List Char} (hstart : StartsWith Char.isDigit cs) {kind : Kind}
    (hkind : (number cs).verdict = .ok kind) :
    IsLexeme kind (number cs).text ∧ MayPrecede kind (number cs).text (number cs).rest := by
  have hwhole := isDigits_digits hstart
  have hafter : ¬ StartsWith Char.isDigit (afterDigits cs) := not_startsWith_dropWhile _ cs
  obtain ⟨hpart, hpoint, hdigit⟩ := fraction_sound (afterDigits cs)
  -- with or without a fraction, no digit is left after it
  have hnext : ¬ StartsWith Char.isDigit (fraction (afterDigits cs)).2 := by
    by_cases hnil : (fraction (afterDigits cs)).1 = []
    · have whole := fraction_append (afterDigits cs)
      rw [hnil, List.nil_append] at whole
      rwa [whole]
    · exact hdigit hnil
  -- an exponent letter commits the reader: where no digits come after it, nothing is read
  by_cases hexp : StartsWith isExponentLetter (fraction (afterDigits cs)).2
  · obtain ⟨e, sign, he, hsign, hmark⟩ := exponentMark_of_startsWith hexp
    by_cases hdigits : digits (exponentMark (fraction (afterDigits cs)).2).2 = []
    · simp [number, hmark, hdigits] at hkind
    · have hpower := isDigits_digits ((digits_ne_nil_iff _).mp hdigits)
      simp only [number, hmark, List.cons_ne_nil, if_false, if_neg hdigits] at hkind ⊢
      obtain rfl := Except.ok.inj hkind
      constructor
      · have hform : IsExponent (e :: (sign ++ digits (exponentMark (fraction
            (afterDigits cs)).2).2)) := .inr ⟨e, sign, _, he, hsign, hpower, rfl⟩
        simpa using IsLexeme.number hwhole hpart hform
      · refine ⟨not_startsWith_dropWhile _ _, ?_⟩
        intro hnone
        exact absurd (hnone e (by simp)) (by simp [he])
  · have hmark := exponentMark_eq_nil hexp
    simp only [number, hmark, if_true] at hkind ⊢
    obtain rfl := Except.ok.inj hkind
    constructor
    · simpa using IsLexeme.number hwhole hpart (.inl rfl)
    · refine ⟨hnext, fun _ => ⟨hexp, ?_⟩⟩
      -- a number without a point has no fraction
      intro hfree
      apply hpoint
      rcases hpart with hnil | ⟨ds, -, hds⟩
      · exact hnil
      · exact absurd (by simp [hds]) hfree

/-- A number in front of a text that it may precede is read as it is. -/
theorem number_complete {whole part power next : List Char} (hwhole : IsDigits whole)
    (hpart : IsFraction part) (hpower : IsExponent power)
    (hnext : MayPrecede .number (whole ++ part ++ power) next) :
    number (whole ++ part ++ power ++ next) = ⟨.ok .number, whole ++ part ++ power, next⟩ := by
  obtain ⟨hdigit, hletter⟩ := hnext
  have hfree := fun c => not_isExponentLetter_of_mem hwhole hpart (c := c)
  -- neither a fraction nor an exponent starts with a digit, and an exponent with no point
  have hafterPart : ¬ StartsWith Char.isDigit (power ++ next) ∧
      (part = [] → ¬ StartsWithFraction (power ++ next)) := by
    rcases hpower with rfl | ⟨e, sign, ds, he, -, -, rfl⟩
    · refine ⟨hdigit, ?_⟩
      rintro rfl
      apply (hletter (by simpa using hfree)).2
      rw [List.append_nil, List.append_nil]
      intro hpoint
      exact absurd rfl (not_special_of_isDigit (hwhole.2 _ hpoint)).2.2
    · rcases (isExponentLetter_iff e).mp he with rfl | rfl
      · exact ⟨by simp [StartsWith], by simp [StartsWithFraction]⟩
      · exact ⟨by simp [StartsWith], by simp [StartsWithFraction]⟩
  have hafterWhole : ¬ StartsWith Char.isDigit (part ++ (power ++ next)) := by
    rcases hpart with rfl | ⟨ds, -, rfl⟩
    · exact hafterPart.1
    · simp [StartsWith]
  -- each part is read up to where the next one starts
  obtain ⟨taken, left⟩ := digits_complete hwhole.2 hafterWhole
  have hfraction := fraction_complete hpart (fun _ => hafterPart.1) hafterPart.2
  simp only [number, List.append_assoc, taken, left, hfraction]
  rcases hpower with rfl | ⟨e, sign, ds, he, hsign, hds, rfl⟩
  · have hnone := exponentMark_eq_nil (hletter (by simpa using hfree)).1
    simp [hnone]
  · obtain ⟨taken, left⟩ := digits_complete hds.2 hdigit
    have hmark := exponentMark_complete he hsign hds next
    simp only [hmark, taken, left, List.cons_ne_nil, if_false, if_neg hds.1]
    simp

end Quill.Lexical
