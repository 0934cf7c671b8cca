/-!
# Quoted text

A quoted text is the text between double quotes, with each character written as itself or as an
escape. What the escape of a character is, is for the report to say.

JSON escapes the quote, the backslash and the control characters below `U+0020`. The outline of
a tree escapes the quote, the backslash, four control characters by letter, and every character
that is not plain by its code point.
-/

set_option autoImplicit false

namespace Quill.Report

/-- A text between double quotes, character by character through an escape. -/
def quoted (escape : Char → String) (text : String) : String :=
  "\"" ++ String.join (text.toList.map escape) ++ "\""

/-- The hexadecimal digits of a number, in lower case and without leading zeros. -/
def hex (n : Nat) : String :=
  String.ofList (Nat.toDigits 16 n)

/-- A character in a JSON string. -/
def jsonEscape (c : Char) : String :=
  if c = '"' then "\\\""
  else if c = '\\' then "\\\\"
  else if c = '\n' then "\\n"
  else if c = '\r' then "\\r"
  else if c = '\t' then "\\t"
  else if c.toNat = 0x8 then "\\b"
  else if c.toNat = 0xC then "\\f"
  else if c.toNat < 0x10 then "\\u000" ++ hex c.toNat
  else if c.toNat < 0x20 then "\\u00" ++ hex c.toNat
  else c.toString

/-- A character in a string of an outline; plain characters stand for themselves. -/
def outlineEscape (plain : Char → Bool) (c : Char) : String :=
  if c = '"' then "\\\""
  else if c = '\\' then "\\\\"
  else if c = '\n' then "\\n"
  else if c = '\r' then "\\r"
  else if c = '\t' then "\\t"
  else if c.toNat = 0 then "\\0"
  else if plain c then c.toString
  else "\\u\x7b" ++ hex c.toNat ++ "\x7d"

end Quill.Report
