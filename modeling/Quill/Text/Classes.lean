import Quill.Text.Alphabetic
import Quill.Text.GraphemeExtend
import Quill.Text.Numeric
import Quill.Text.Unprintable

/-!
# Character classes

The four classes of characters on which the lexical grammar rests, and the class of those that a
report shows as they are.

* white space separates lexemes: the Unicode property `White_Space`;
* a letter starts a name: the Unicode property `Alphabetic`;
* a name goes on with letters, numeric characters and the underscore;
* the digits of a number are the ten ASCII digits only;
* a printable character can be seen, and apart from the character before it.

Below `U+0080` each class is decided by arithmetic, above it by a table.
-/

set_option autoImplicit false

namespace Quill.Text

/-- The Unicode property `White_Space`. -/
def whiteSpaceRanges : Ranges :=
  [(0x9, 0xD), (0x20, 0x20), (0x85, 0x85), (0xA0, 0xA0), (0x1680, 0x1680), (0x2000, 0x200A),
   (0x2028, 0x2029), (0x202F, 0x202F), (0x205F, 0x205F), (0x3000, 0x3000)]

/-- White space, which may stand between any two lexemes. -/
def isWhiteSpace (c : Char) : Bool :=
  whiteSpaceRanges.contains c.toNat

/-- A letter, which may start a name. -/
def isLetter (c : Char) : Bool :=
  if c.toNat < 0x80 then c.isAlpha else alphabeticRanges.contains c.toNat

/-- A numeric character: a digit of some script, a letter number such as a Roman numeral, or
another number such as a fraction. -/
def isNumeric (c : Char) : Bool :=
  if c.toNat < 0x80 then c.isDigit else numericRanges.contains c.toNat

/-- A character with which a name may go on. -/
def isNamePart (c : Char) : Bool :=
  isLetter c || isNumeric c || c == '_'

/-- The Unicode property `Default_Ignorable_Code_Point`: characters that a display may leave out,
among them the Hangul fillers, which are letters that nobody sees. -/
def defaultIgnorableRanges : Ranges :=
  [(0xAD, 0xAD), (0x34F, 0x34F), (0x61C, 0x61C), (0x115F, 0x1160), (0x17B4, 0x17B5),
   (0x180B, 0x180F), (0x200B, 0x200F), (0x202A, 0x202E), (0x2060, 0x206F), (0x3164, 0x3164),
   (0xFE00, 0xFE0F), (0xFEFF, 0xFEFF), (0xFFA0, 0xFFA0), (0xFFF0, 0xFFF8), (0x1BCA0, 0x1BCA3),
   (0x1D173, 0x1D17A), (0xE0000, 0xE0FFF)]

/-- The two half-width katakana sound marks. They extend the character before them, but as letters
with a width of their own, and do not merge with it. -/
def soundMarkRanges : Ranges := [(0xFF9E, 0xFF9F)]

/-- A character that merges with the one before it. -/
def isCombining (c : Char) : Bool :=
  graphemeExtendRanges.contains c.toNat && !soundMarkRanges.contains c.toNat

/-- A character that a report shows as it is: it has a printed shape, no display leaves it out,
and it does not merge with the character before it. -/
def isPrintable (c : Char) : Bool :=
  if c.toNat < 0x80 then 0x20 ≤ c.toNat && c.toNat < 0x7F
  else !isCombining c && !defaultIgnorableRanges.contains c.toNat
    && !unprintableRanges.contains c.toNat

/-- A letter may also stand inside a name. -/
theorem isNamePart_of_isLetter {c : Char} (h : isLetter c = true) : isNamePart c = true := by
  simp [isNamePart, h]

end Quill.Text
