import UntypedLambda.Text.Range

/-!
# Blank characters and trimming

Trimming removes the blanks at both ends of a text: spaces, tabs and line ends of every script,
and the four information separators. Blanks inside a text are kept.
-/

namespace UntypedLambda.Text

/-- The characters that trimming removes. -/
def blankRanges : Ranges :=
  [(0x9, 0xD), (0x1C, 0x20), (0x85, 0x85), (0xA0, 0xA0), (0x1680, 0x1680), (0x2000, 0x200A),
   (0x2028, 0x2029), (0x202F, 0x202F), (0x205F, 0x205F), (0x3000, 0x3000)]

/-- Whether trimming removes the character at the ends of a text. -/
def isBlank (c : Char) : Bool := blankRanges.contains c.toNat

/-- Removes the longest run of characters of a class at the end. -/
def dropEndWhile (p : Char → Bool) (text : List Char) : List Char :=
  (text.reverse.dropWhile p).reverse

/-- Removes the characters of a class at both ends. -/
def trimWhile (p : Char → Bool) (text : List Char) : List Char :=
  dropEndWhile p (text.dropWhile p)

/-- Removes the blanks at both ends. -/
def trim (text : List Char) : List Char := trimWhile isBlank text

/-- The text without the blanks at its ends. -/
def trimmed (text : String) : String := String.ofList (trim text.toList)

end UntypedLambda.Text
