import Quill.Lexeme.Classify
import Quill.Proofs.Lexical.Gaps
import Quill.Proofs.Lexical.Numbers

/-!
# Reading lexemes

One lexeme is read exactly where the lexical grammar has one.

* `classify_sound`: what is read as a token is a lexeme of its kind, and may precede the text
  that is left.
* `classify_complete`: a lexeme that may precede a text is read in front of it.
* `IsLexeme.settled`: no gap starts where a lexeme stands.

The proofs follow the order in which the reader looks at the first character: string literals,
numbers, words, marks. The marks and keywords are finite tables, and what holds of all of their
entries is decided.
-/

set_option autoImplicit false

namespace Quill.Lexical

open Quill.Text Quill.Lexeme

/-! ## Tables -/

section Tables

variable {α β : Type} [BEq α] [LawfulBEq α]

/-- What is looked up in a table stands in it. -/
theorem mem_of_lookup {table : List (α × β)} {a : α} {b : β} (h : table.lookup a = some b) :
    (a, b) ∈ table := by
  obtain ⟨before, after, rfl, -⟩ := List.lookup_eq_some_iff.mp h
  simp

/-- In a table without repeated keys every entry is found under its key. -/
theorem lookup_of_mem {table : List (α × β)} (hkeys : (table.map Prod.fst).Nodup) {a : α} {b : β}
    (h : (a, b) ∈ table) : table.lookup a = some b := by
  obtain ⟨before, after, rfl⟩ := List.append_of_mem h
  refine List.lookup_eq_some_iff.mpr ⟨before, after, rfl, ?_⟩
  intro entry hentry
  rw [List.map_append, List.nodup_append] at hkeys
  have hne := hkeys.2.2 entry.1 (List.mem_map_of_mem hentry) a (by simp)
  simpa using Ne.symm hne

end Tables

/-- A word is looked up as a keyword just when the table has it with that kind. -/
theorem keyword?_eq_some_iff {word : String} {kind : Kind} :
    Kind.keyword? word = some kind ↔ (word, kind) ∈ Kind.keywords :=
  ⟨mem_of_lookup, lookup_of_mem (by decide)⟩

/-- A word is looked up as no keyword just when the table does not have it. -/
theorem keyword?_eq_none_iff {word : String} :
    Kind.keyword? word = none ↔ word ∉ Kind.keywords.map Prod.fst := by
  constructor
  · intro h hmem
    obtain ⟨⟨_, kind⟩, hentry, rfl⟩ := List.mem_map.mp hmem
    rw [keyword?_eq_some_iff.mpr hentry] at h
    simp at h
  · intro h
    cases hk : Kind.keyword? word with
    | none => rfl
    | some kind => exact absurd (List.mem_map_of_mem (keyword?_eq_some_iff.mp hk)) h

/-- Two characters are looked up as a mark just when the table has them with that kind. -/
theorem double?_eq_some_iff {first second : Char} {kind : Kind} :
    Kind.double? first second = some kind ↔ ((first, second), kind) ∈ Kind.doubleMarks :=
  ⟨mem_of_lookup, lookup_of_mem (by decide)⟩

/-- One character is looked up as a mark just when the table has it with that kind. -/
theorem single?_eq_some_iff {c : Char} {kind : Kind} :
    Kind.single? c = some kind ↔ (c, kind) ∈ Kind.singleMarks :=
  ⟨mem_of_lookup, lookup_of_mem (by decide)⟩

/-! ## Classes of characters -/

/-- An ASCII letter by its code point. -/
theorem isAlpha_code {c : Char} (h : c.isAlpha = true) :
    (65 ≤ c.toNat ∧ c.toNat ≤ 90) ∨ (97 ≤ c.toNat ∧ c.toNat ≤ 122) := by
  rcases Bool.or_eq_true_iff.mp h with hupper | hlower
  · exact .inl (of_decide_eq_true hupper)
  · obtain ⟨hlow, hhigh⟩ := Bool.and_eq_true_iff.mp hlower
    exact .inr ⟨of_decide_eq_true hlow, of_decide_eq_true hhigh⟩

/-- An ASCII digit by its code point. -/
theorem isDigit_code {c : Char} (h : c.isDigit = true) : 48 ≤ c.toNat ∧ c.toNat ≤ 57 := by
  obtain ⟨hlow, hhigh⟩ := Bool.and_eq_true_iff.mp h
  exact ⟨of_decide_eq_true hlow, of_decide_eq_true hhigh⟩

/-- White space and letters have no code point in common. -/
theorem isWhiteSpace_eq_false_of_isLetter {c : Char} (h : isLetter c = true) :
    isWhiteSpace c = false := by
  rw [Bool.eq_false_iff]
  intro hspace
  obtain ⟨blank, hblank, hb⟩ := (Ranges.contains_iff _ _).mp hspace
  unfold isLetter at h
  split at h
  · have apart : ∀ blank ∈ whiteSpaceRanges, blank.2 < 65 ∨ 122 < blank.1 := by decide
    have code := isAlpha_code h
    rcases apart blank hblank with hlt | hlt <;> omega
  · obtain ⟨range, hrange, hr⟩ := (Ranges.contains_iff _ _).mp h
    have apart : ∀ blank ∈ whiteSpaceRanges, ∀ range ∈ alphabeticRanges,
        blank.2 < range.1 ∨ range.2 < blank.1 := by decide +kernel
    rcases apart blank hblank range hrange with hlt | hlt <;> omega

/-- Digits and letters have no code point in common. -/
theorem isDigit_eq_false_of_isLetter {c : Char} (h : isLetter c = true) : c.isDigit = false := by
  rw [Bool.eq_false_iff]
  intro hd
  have digit := isDigit_code hd
  rw [isLetter, if_pos (by omega)] at h
  have letter := isAlpha_code h
  omega

/-- No digit is white space. -/
theorem isWhiteSpace_eq_false_of_isDigit {c : Char} (h : c.isDigit = true) :
    isWhiteSpace c = false := by
  rw [Bool.eq_false_iff]
  intro hspace
  obtain ⟨blank, hblank, hb⟩ := (Ranges.contains_iff _ _).mp hspace
  have apart : ∀ blank ∈ whiteSpaceRanges, blank.2 < 48 ∨ 57 < blank.1 := by decide
  have code := isDigit_code h
  rcases apart blank hblank with hlt | hlt <;> omega

/-- No white space goes on a name. -/
theorem isNamePart_eq_false_of_isWhiteSpace {c : Char} (h : isWhiteSpace c = true) :
    isNamePart c = false := by
  have hletter : isLetter c = false := by
    rw [Bool.eq_false_iff]
    intro hletter
    rw [isWhiteSpace_eq_false_of_isLetter hletter] at h
    simp at h
  have hnumeric : isNumeric c = false := by
    rw [Bool.eq_false_iff]
    intro hnumeric
    unfold isNumeric at hnumeric
    split at hnumeric
    · rw [isWhiteSpace_eq_false_of_isDigit hnumeric] at h
      simp at h
    · obtain ⟨blank, hblank, hb⟩ := (Ranges.contains_iff _ _).mp h
      obtain ⟨range, hrange, hr⟩ := (Ranges.contains_iff _ _).mp hnumeric
      -- no range of the one table meets a range of the other
      have apart : ∀ blank ∈ whiteSpaceRanges, ∀ range ∈ numericRanges,
          blank.2 < range.1 ∨ range.2 < blank.1 := by decide +kernel
      rcases apart blank hblank range hrange with hlt | hlt <;> omega
  have hunderscore : c ≠ '_' := by
    rintro rfl
    exact absurd h (by decide)
  simp [isNamePart, hletter, hnumeric, hunderscore]

/-- A letter differs from every character that is not one. -/
theorem ne_of_isLetter {c d : Char} (h : isLetter c = true) (hd : isLetter d = false) : c ≠ d := by
  rintro rfl
  rw [h] at hd
  simp at hd

/-! ## String literals -/

/-- The closing quote is found after the body of a string literal. -/
theorem closeQuote_complete {body : List Char} (hb : IsBody body) (passed rest : List Char) :
    closeQuote passed (body ++ '"' :: rest) = some (passed.reverse ++ body ++ ['"'], rest) := by
  induction hb generalizing passed with
  | nil =>
    rw [List.nil_append, closeQuote.eq_def]
    simp
  | plain hquote hback _ ih =>
    rw [List.cons_append, closeQuote.eq_def]
    simp [hquote, hback, ih]
  | escaped _ ih =>
    rw [List.cons_append, List.cons_append, closeQuote.eq_def]
    simp [ih]

/-- What is found up to a closing quote is the body of a string literal and the quote. -/
theorem closeQuote_sound {passed cs text rest : List Char}
    (h : closeQuote passed cs = some (text, rest)) :
    ∃ body, IsBody body ∧ text = passed.reverse ++ body ++ ['"'] := by
  fun_induction closeQuote passed cs with
  | case1 => simp at h
  | case2 passed =>
    simp only [Option.some.injEq, Prod.mk.injEq] at h
    exact ⟨[], .nil, by simp [← h.1]⟩
  | case3 => simp at h
  | case4 passed escaped cs _ ih =>
    obtain ⟨body, hb, rfl⟩ := ih h
    exact ⟨'\\' :: escaped :: body, .escaped hb, by simp⟩
  | case5 passed c cs hquote hback ih =>
    obtain ⟨body, hb, rfl⟩ := ih h
    exact ⟨c :: body, .plain hquote hback hb, by simp⟩

/-- What is read as a string literal without a fault is the lexeme of one. -/
theorem quoted_sound {cs : List Char} {kind : Kind} (h : (quoted cs).verdict = .ok kind) :
    IsLexeme kind (quoted cs).text ∧ MayPrecede kind (quoted cs).text (quoted cs).rest := by
  unfold quoted at h ⊢
  split at h
  · rename_i text rest hfound
    obtain rfl := Except.ok.inj h
    obtain ⟨body, hb, rfl⟩ := closeQuote_sound hfound
    exact ⟨.string hb, by simp [MayPrecede, Kind.keywords]⟩
  · simp at h

/-! ## Words -/

/-- A word: a letter and name characters after it. Keywords and names are words. -/
def IsWord (word : List Char) : Prop :=
  ∃ c cs, word = c :: cs ∧ isLetter c = true ∧ ∀ d ∈ word, isNamePart d = true

/-- Every keyword is a word. -/
theorem isWord_of_keyword {word : String} {kind : Kind} (h : (word, kind) ∈ Kind.keywords) :
    IsWord word.toList := by
  have all : ∀ entry ∈ Kind.keywords, entry.1.toList.head?.any isLetter = true ∧
      entry.1.toList.all isNamePart = true := by decide +kernel
  obtain ⟨hhead, htail⟩ := all _ h
  cases hw : word.toList with
  | nil => simp [hw] at hhead
  | cons c cs =>
    simp only [hw, List.head?_cons, Option.any_some, List.all_eq_true] at hhead htail
    exact ⟨c, cs, rfl, hhead, htail⟩

/-- A letter with name characters after it is a word. -/
theorem isWord_of_name {c : Char} {cs : List Char} (hc : isLetter c = true)
    (hcs : ∀ d ∈ cs, isNamePart d = true) : IsWord (c :: cs) := by
  refine ⟨c, cs, rfl, hc, ?_⟩
  intro d hd
  rcases List.mem_cons.mp hd with rfl | hd
  · exact isNamePart_of_isLetter hc
  · exact hcs d hd

/-- The kinds of words are those that a name character may not follow. -/
theorem mayPrecede_word_iff {kind : Kind} (h : kind = .ident ∨ kind ∈ Kind.keywords.map Prod.snd)
    (word next : List Char) : MayPrecede kind word next ↔ ¬ StartsWith isNamePart next := by
  cases kind <;> simp [Kind.keywords] at h <;> simp [MayPrecede, Kind.keywords]

/-- A word before something that is no name character is read whole, with the kind that the table
gives it. -/
theorem word_complete {w next : List Char} (hw : IsWord w) (hnext : ¬ StartsWith isNamePart next) :
    word (w ++ next) = ⟨.ok ((Kind.keyword? (String.ofList w)).getD .ident), w, next⟩ := by
  obtain ⟨c, cs, rfl, -, hall⟩ := hw
  simp only [word, takeWhile_run hall hnext, dropWhile_run hall hnext]

/-- What is read as a word is a lexeme, and may stand before the rest. -/
theorem word_sound {c : Char} {cs : List Char} (hc : isLetter c = true) {kind : Kind}
    (h : (word (c :: cs)).verdict = .ok kind) :
    IsLexeme kind (word (c :: cs)).text ∧
      MayPrecede kind (word (c :: cs)).text (word (c :: cs)).rest := by
  have hpart := isNamePart_of_isLetter hc
  -- the word is taken as far as it goes, so that no name character follows
  have hnext : ¬ StartsWith isNamePart ((c :: cs).dropWhile isNamePart) :=
    not_startsWith_dropWhile _ _
  have htake : (c :: cs).takeWhile isNamePart = c :: cs.takeWhile isNamePart :=
    List.takeWhile_cons_of_pos hpart
  simp only [word, htake] at h ⊢
  obtain rfl := Except.ok.inj h
  cases hk : Kind.keyword? (String.ofList (c :: cs.takeWhile isNamePart)) with
  | none =>
    rw [Option.getD_none]
    refine ⟨.name hc (fun d hd => mem_takeWhile hd) (keyword?_eq_none_iff.mp hk), ?_⟩
    exact (mayPrecede_word_iff (.inl rfl) _ _).mpr hnext
  | some kind =>
    have hmem := keyword?_eq_some_iff.mp hk
    rw [Option.getD_some]
    refine ⟨by simpa using IsLexeme.keyword hmem, ?_⟩
    exact (mayPrecede_word_iff (.inr (List.mem_map_of_mem hmem)) _ _).mpr hnext

/-! ## Marks -/

/-- No mark starts with a character that decides for another lexeme. -/
theorem single_facts {c : Char} {kind : Kind} (h : (c, kind) ∈ Kind.singleMarks) :
    isWhiteSpace c = false ∧ c ≠ '"' ∧ c.isDigit = false ∧ isLetter c = false ∧ c ≠ '&' ∧
      c ≠ '|' := by
  have all : ∀ entry ∈ Kind.singleMarks, isWhiteSpace entry.1 = false ∧ entry.1 ≠ '"' ∧
      entry.1.isDigit = false ∧ isLetter entry.1 = false ∧ entry.1 ≠ '&' ∧ entry.1 ≠ '|' := by
    decide
  exact all _ h

/-- The first character of a mark of two starts nothing else: no gap, string literal, number, word
or comment. -/
theorem double_facts {first second : Char} {kind : Kind}
    (h : ((first, second), kind) ∈ Kind.doubleMarks) :
    isWhiteSpace first = false ∧ first ≠ '"' ∧ first.isDigit = false ∧ isLetter first = false ∧
      first ≠ '/' := by
  have all : ∀ entry ∈ Kind.doubleMarks, isWhiteSpace entry.1.1 = false ∧ entry.1.1 ≠ '"' ∧
      entry.1.1.isDigit = false ∧ isLetter entry.1.1 = false ∧ entry.1.1 ≠ '/' := by
    decide
  exact all _ h

/-- Nothing is asked of the end of a text. -/
theorem mayPrecede_nil (kind : Kind) (word : List Char) : MayPrecede kind word [] := by
  cases kind <;> simp [MayPrecede, StartsWith, StartsWithFraction]

/-- Nothing is asked of what follows a mark of two characters. -/
theorem mayPrecede_double {first second : Char} {kind : Kind}
    (h : ((first, second), kind) ∈ Kind.doubleMarks) (word next : List Char) :
    MayPrecede kind word next := by
  cases kind <;> simp [Kind.doubleMarks] at h <;> simp [MayPrecede, Kind.keywords]

/-- A comment is opened by two slashes. -/
theorem opensComment_iff (c d : Char) (cs : List Char) :
    opensComment (c :: d :: cs) = true ↔ c = '/' ∧ d = '/' := by
  unfold opensComment
  split
  · rename_i h
    simp only [List.cons.injEq] at h
    simp [h]
  · rename_i hnot
    simp only [Bool.false_eq_true, false_iff]
    rintro ⟨rfl, rfl⟩
    exact hnot _ rfl

/-- What may follow a mark of one character is what makes no longer mark and no comment of it. -/
theorem mayPrecede_single_iff {c : Char} {kind : Kind} (h : (c, kind) ∈ Kind.singleMarks)
    (d : Char) (cs : List Char) :
    MayPrecede kind [c] (d :: cs) ↔
      Kind.double? c d = none ∧ opensComment (c :: d :: cs) = false := by
  rw [Bool.eq_false_iff, ne_eq, opensComment_iff, Kind.double?, List.lookup_eq_none_iff]
  -- one case for each mark of one character
  cases kind <;> simp [Kind.singleMarks] at h <;> subst h <;>
    simp [MayPrecede, StartsWith, Kind.doubleMarks, Kind.keywords]

/-- A mark of one character is read without a fault just when the table has it. -/
theorem singleMark_eq_ok_iff {c : Char} {kind : Kind} :
    singleMark c = .ok kind ↔ (c, kind) ∈ Kind.singleMarks := by
  unfold singleMark
  constructor
  · intro h
    split at h
    · simp at h
    · split at h
      · rename_i found hfound
        obtain rfl := Except.ok.inj h
        exact single?_eq_some_iff.mp hfound
      · simp at h
  · intro h
    obtain ⟨-, -, -, -, hand, hor⟩ := single_facts h
    rw [if_neg (by simp [hand, hor]), single?_eq_some_iff.mpr h]

/-- What is read as a mark without a fault is a lexeme, and may stand before the rest. -/
theorem mark_sound {c : Char} {cs : List Char} (hopen : opensComment (c :: cs) = false)
    {kind : Kind} (h : (mark c cs).verdict = .ok kind) :
    IsLexeme kind (mark c cs).text ∧ MayPrecede kind (mark c cs).text (mark c cs).rest := by
  unfold mark at h ⊢
  split at h
  · -- the last character of a text can only be a mark of one
    have hmem := singleMark_eq_ok_iff.mp h
    exact ⟨.single hmem, mayPrecede_nil _ _⟩
  · rename_i d ds
    cases hd : Kind.double? c d with
    | some found =>
      simp only [hd] at h ⊢
      obtain rfl := Except.ok.inj h
      have hmem := double?_eq_some_iff.mp hd
      exact ⟨.double hmem, mayPrecede_double hmem _ _⟩
    | none =>
      simp only [hd] at h ⊢
      have hmem := singleMark_eq_ok_iff.mp h
      exact ⟨.single hmem, (mayPrecede_single_iff hmem d ds).mpr ⟨hd, hopen⟩⟩

/-! ## Lexemes -/

/-- What is read as a token is a lexeme of its kind, and may precede the text that is left. -/
theorem classify_sound {c : Char} {cs : List Char} {kind : Kind}
    (h : (classify c cs).verdict = .ok kind) :
    IsLexeme kind (classify c cs).text ∧
      MayPrecede kind (classify c cs).text (classify c cs).rest := by
  -- the tests in their order: a comment that is not closed, a quote, a digit, a letter
  unfold classify at h ⊢
  split at h
  · simp at h
  · rename_i hopen
    rw [if_neg hopen]
    split at h
    · rename_i hquote
      rw [if_pos hquote]
      exact quoted_sound h
    · rename_i hquote
      rw [if_neg hquote]
      split at h
      · rename_i hdigit
        rw [if_pos hdigit]
        have hstart : StartsWith Char.isDigit (c :: cs) := hdigit
        exact number_sound hstart h
      · rename_i hdigit
        rw [if_neg hdigit]
        split at h
        · rename_i hletter
          rw [if_pos hletter]
          exact word_sound hletter h
        · rename_i hletter
          rw [if_neg hletter]
          exact mark_sound (by simpa using hopen) h

/-- One character opens no comment. -/
theorem opensComment_singleton (c : Char) : opensComment [c] = false := by
  simp [opensComment]

/-- A first character other than a slash opens no comment. -/
theorem opensComment_eq_false {c : Char} (h : c ≠ '/') (cs : List Char) :
    opensComment (c :: cs) = false := by
  cases cs with
  | nil => exact opensComment_singleton c
  | cons d ds =>
    rw [Bool.eq_false_iff, ne_eq, opensComment_iff]
    exact fun hc => h hc.1

/-- A word at the start of a text is what the text is classified as. -/
theorem classify_word {w next : List Char} (hw : IsWord w)
    (hnext : ¬ StartsWith isNamePart next) {c : Char} {cs : List Char} (hcs : w ++ next = c :: cs) :
    classify c cs = ⟨.ok ((Kind.keyword? (String.ofList w)).getD .ident), w, next⟩ := by
  have hread := word_complete hw hnext
  rw [hcs] at hread
  obtain ⟨d, ds, rfl, hd, -⟩ := hw
  obtain rfl : d = c := (List.cons.inj hcs).1
  have hslash : d ≠ '/' := ne_of_isLetter hd (by decide)
  have hquote : d ≠ '"' := ne_of_isLetter hd (by decide)
  rw [classify, opensComment_eq_false hslash, if_neg (by decide), if_neg hquote,
    if_neg (by simp [isDigit_eq_false_of_isLetter hd]), if_pos hd, hread]

/-- A lexeme in front of a text that it may precede is read as it is. -/
theorem classify_complete {kind : Kind} {w next : List Char} (hw : IsLexeme kind w)
    (hnext : MayPrecede kind w next) {c : Char} {cs : List Char} (hcs : w ++ next = c :: cs) :
    classify c cs = ⟨.ok kind, w, next⟩ := by
  cases hw with
  | @number whole part power hwhole hpart hpower =>
    have hread := number_complete hwhole hpart hpower hnext
    rw [hcs] at hread
    have hdigit : c.isDigit = true := by
      have hstart := hwhole.startsWith (part ++ (power ++ next))
      rw [← List.append_assoc, ← List.append_assoc, hcs] at hstart
      exact hstart
    have hslash : c ≠ '/' := by
      rintro rfl
      exact absurd hdigit (by decide)
    have hquote : c ≠ '"' := by
      rintro rfl
      exact absurd hdigit (by decide)
    rw [classify, opensComment_eq_false hslash, if_neg (by decide), if_neg hquote, if_pos hdigit,
      hread]
  | @string body hbody =>
    obtain ⟨rfl, rfl⟩ := List.cons.inj hcs
    have hclose := closeQuote_complete hbody ['"'] next
    rw [classify, opensComment_eq_false (by decide), if_neg (by decide), if_pos rfl, quoted]
    simp [hclose]
  | @name d ds hletter hpart hkey =>
    have hpre := (mayPrecede_word_iff (.inl rfl) _ _).mp hnext
    rw [classify_word (isWord_of_name hletter hpart) hpre hcs, keyword?_eq_none_iff.mpr hkey]
    rfl
  | @keyword word _ hmem =>
    have hpre := (mayPrecede_word_iff (.inr (List.mem_map_of_mem hmem)) _ _).mp hnext
    rw [classify_word (isWord_of_keyword hmem) hpre hcs, String.ofList_toList,
      keyword?_eq_some_iff.mpr hmem]
    rfl
  | @double first second _ hmem =>
    obtain ⟨rfl, rfl⟩ := List.cons.inj hcs
    obtain ⟨-, hquote, hdigit, hletter, hslash⟩ := double_facts hmem
    rw [classify, opensComment_eq_false hslash, if_neg (by decide), if_neg hquote,
      if_neg (by simp [hdigit]), if_neg (by simp [hletter])]
    show mark first (second :: next) = _
    simp [mark, double?_eq_some_iff.mpr hmem]
  | @single d _ hmem =>
    obtain ⟨rfl, rfl⟩ := List.cons.inj hcs
    obtain ⟨-, hquote, hdigit, hletter, -, -⟩ := single_facts hmem
    have hmark := singleMark_eq_ok_iff.mpr hmem
    cases next with
    | nil =>
      simp [classify, opensComment, hquote, hdigit, hletter, mark, hmark]
    | cons e es =>
      -- what may follow the mark is what lets the reader come to it
      obtain ⟨hdouble, hopen⟩ := (mayPrecede_single_iff hmem e es).mp hnext
      simp [classify, hopen, hquote, hdigit, hletter, mark, hdouble, hmark]

/-! ## Gaps and lexemes -/

/-- A text that starts with neither white space nor a comment starts with no gap. -/
theorem settled_cons {c : Char} {cs : List Char} (hspace : isWhiteSpace c = false)
    (hopen : opensComment (c :: cs) = false) : Settled (c :: cs) := by
  intro gap rest hg hsplit
  cases hg with
  | nil => rfl
  | space hd _ =>
    rw [← (List.cons.inj hsplit).1, hspace] at hd
    simp at hd
  | comment _ _ =>
    rw [hsplit] at hopen
    simp [opensComment] at hopen

/-- No gap starts where a lexeme stands. -/
theorem IsLexeme.settled {kind : Kind} {w next : List Char} (hw : IsLexeme kind w)
    (hnext : MayPrecede kind w next) : Settled (w ++ next) := by
  -- keywords and names alike start with a letter
  have hword : ∀ {v : List Char}, IsWord v → Settled (v ++ next) := by
    rintro _ ⟨c, cs, rfl, hc, -⟩
    exact settled_cons (isWhiteSpace_eq_false_of_isLetter hc)
      (opensComment_eq_false (ne_of_isLetter hc (by decide)) _)
  cases hw with
  | @number whole part power hwhole _ _ =>
    obtain ⟨d, ds, rfl⟩ := List.exists_cons_of_ne_nil hwhole.1
    have hdigit := hwhole.2 d List.mem_cons_self
    have hslash : d ≠ '/' := by
      rintro rfl
      exact absurd hdigit (by decide)
    exact settled_cons (isWhiteSpace_eq_false_of_isDigit hdigit) (opensComment_eq_false hslash _)
  | string _ => exact settled_cons (by decide) (opensComment_eq_false (by decide) _)
  | name hletter hpart _ => exact hword (isWord_of_name hletter hpart)
  | keyword hmem => exact hword (isWord_of_keyword hmem)
  | double hmem =>
    obtain ⟨hspace, -, -, -, hslash⟩ := double_facts hmem
    exact settled_cons hspace (opensComment_eq_false hslash _)
  | single hmem =>
    obtain ⟨hspace, -⟩ := single_facts hmem
    cases next with
    | nil => exact settled_cons hspace (opensComment_singleton _)
    | cons d ds => exact settled_cons hspace ((mayPrecede_single_iff hmem d ds).mp hnext).2

/-- No lexeme is empty. -/
theorem IsLexeme.ne_nil {kind : Kind} {w : List Char} (hw : IsLexeme kind w) : w ≠ [] := by
  cases hw with
  | number hwhole _ _ => simp [hwhole.1]
  | string _ => simp
  | name _ _ _ => simp
  | keyword hmem =>
    obtain ⟨c, cs, hw, -⟩ := isWord_of_keyword hmem
    simp [hw]
  | double _ => simp
  | single _ => simp

end Quill.Lexical
