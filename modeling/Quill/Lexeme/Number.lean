import Quill.Lexeme.Basic

/-!
# Numbers

A number is a run of digits, then perhaps a point with a run of digits, then perhaps an exponent
mark with a run of digits. Two choices need a look ahead.

* A point belongs to the number only if a digit follows it; otherwise it is a mark of its own,
  so that `1.x` is a member access.
* The letter `e` or `E` always belongs to the number, with a sign directly after it. Without a
  digit next, the number is at fault and covers everything up to there.

The digits are the ten ASCII digits.
-/

set_option autoImplicit false

namespace Quill.Lexeme

/-- The digits at the head of a text. -/
def digits (cs : List Char) : List Char := cs.takeWhile Char.isDigit

/-- The text after the digits at its head. -/
def afterDigits (cs : List Char) : List Char := cs.dropWhile Char.isDigit

/-- The fraction at the head of a text, empty if there is none, and the text after it. -/
def fraction : List Char → List Char × List Char
  | '.' :: d :: cs =>
    if d.isDigit then ('.' :: digits (d :: cs), afterDigits (d :: cs)) else ([], '.' :: d :: cs)
  | cs => ([], cs)

/-- The letters that open an exponent. -/
def isExponentLetter (c : Char) : Bool := c == 'e' || c == 'E'

/-- The signs that an exponent may have. -/
def isSign (c : Char) : Bool := c == '+' || c == '-'

/-- The exponent letter and sign at the head of a text, empty if there is no exponent, and the
text after them. -/
def exponentMark : List Char → List Char × List Char
  | e :: s :: cs =>
    if isExponentLetter e then
      if isSign s then ([e, s], cs) else ([e], s :: cs)
    else ([], e :: s :: cs)
  | [e] => if isExponentLetter e then ([e], []) else ([], [e])
  | [] => ([], [])

/-- The number at the head of a text that starts with a digit. -/
def number (cs : List Char) : Lexeme :=
  let whole := digits cs
  let (part, afterPart) := fraction (afterDigits cs)
  let (mark, afterMark) := exponentMark afterPart
  if mark = [] then
    ⟨.ok .number, whole ++ part, afterPart⟩
  else if digits afterMark = [] then
    let accepted := whole ++ part ++ mark
    ⟨.error (.bareExponent (String.ofList accepted)), accepted, afterMark⟩
  else
    ⟨.ok .number, whole ++ part ++ mark ++ digits afterMark, afterDigits afterMark⟩

theorem digits_append_afterDigits (cs : List Char) : digits cs ++ afterDigits cs = cs :=
  List.takeWhile_append_dropWhile

/-- Splitting off a fraction loses nothing. -/
theorem fraction_append (cs : List Char) : (fraction cs).1 ++ (fraction cs).2 = cs := by
  unfold fraction
  split
  · split
    · simp [digits_append_afterDigits]
    · rfl
  · rfl

/-- Splitting off an exponent mark loses nothing. -/
theorem exponentMark_append (cs : List Char) :
    (exponentMark cs).1 ++ (exponentMark cs).2 = cs := by
  unfold exponentMark
  split
  · split
    · split <;> rfl
    · rfl
  · split <;> rfl
  · rfl

/-- A number and the text after it make up the text read. -/
theorem number_text_append_rest (cs : List Char) : (number cs).text ++ (number cs).rest = cs := by
  have whole := digits_append_afterDigits cs
  have part := fraction_append (afterDigits cs)
  have mark := exponentMark_append (fraction (afterDigits cs)).2
  have power := digits_append_afterDigits (exponentMark (fraction (afterDigits cs)).2).2
  simp only [number]
  split
  · rw [List.append_assoc, part, whole]
  · split
    · rw [List.append_assoc, mark, List.append_assoc, part, whole]
    · rw [List.append_assoc, power, List.append_assoc, mark, List.append_assoc, part, whole]

/-- A text that starts with a digit gives a number that covers at least that digit. -/
theorem number_text_ne_nil {c : Char} {cs : List Char} (h : c.isDigit = true) :
    (number (c :: cs)).text ≠ [] := by
  have whole : digits (c :: cs) ≠ [] := by simp [digits, h]
  simp only [number]
  split
  · simp [whole]
  · split <;> simp [whole]

end Quill.Lexeme
