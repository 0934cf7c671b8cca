import Quill.Lexeme.Basic

/-!
# String literals

A string literal runs from one double quote to the next that is not protected. A backslash
protects the character after it, whatever that is, and stays in the text: nothing is decoded.
A line feed is an ordinary character. A literal that the text ends before closing is a fault
that covers all of the text.
-/

set_option autoImplicit false

namespace Quill.Lexeme

/-- Looks for the closing quote. The first argument holds the characters passed so far, last
one first; the result is the literal with its closing quote, and the text after it. -/
def closeQuote (passed : List Char) : List Char → Option (List Char × List Char)
  | [] => none
  | c :: cs =>
    if c = '"' then
      some ((c :: passed).reverse, cs)
    else if c = '\\' then
      match cs with
      | [] => none
      | escaped :: cs => closeQuote (escaped :: c :: passed) cs
    else
      closeQuote (c :: passed) cs

/-- The string literal at the head of a text, given the text after its opening quote. -/
def quoted (cs : List Char) : Lexeme :=
  match closeQuote ['"'] cs with
  | some (text, rest) => ⟨.ok .string, text, rest⟩
  | none => ⟨.error .openString, '"' :: cs, []⟩

/-- Looking for the closing quote loses nothing. -/
theorem closeQuote_append {passed cs text rest : List Char}
    (h : closeQuote passed cs = some (text, rest)) : text ++ rest = passed.reverse ++ cs := by
  fun_induction closeQuote passed cs with
  | case1 => simp at h
  | case2 =>
    simp only [Option.some.injEq, Prod.mk.injEq] at h
    obtain ⟨rfl, rfl⟩ := h
    simp
  | case3 => simp at h
  | case4 passed _ escaped cs ih => simpa using ih h
  | case5 passed c cs _ _ ih => simpa using ih h

/-- A string literal and the text after it make up the text read. -/
theorem quoted_text_append_rest (cs : List Char) :
    (quoted cs).text ++ (quoted cs).rest = '"' :: cs := by
  unfold quoted
  split
  · rename_i text rest h
    simpa using closeQuote_append h
  · simp

/-- What is found before the closing quote starts with what was passed before. -/
theorem closeQuote_text_ne_nil {passed cs text rest : List Char}
    (h : closeQuote passed cs = some (text, rest)) : text ≠ [] := by
  fun_induction closeQuote passed cs with
  | case1 => simp at h
  | case2 =>
    simp only [Option.some.injEq, Prod.mk.injEq] at h
    simp [← h.1]
  | case3 => simp at h
  | case4 passed _ escaped cs ih => exact ih h
  | case5 passed c cs _ _ ih => exact ih h

/-- A string literal covers at least its opening quote. -/
theorem quoted_text_ne_nil (cs : List Char) : (quoted cs).text ≠ [] := by
  unfold quoted
  split
  · rename_i h
    exact closeQuote_text_ne_nil h
  · simp

end Quill.Lexeme
