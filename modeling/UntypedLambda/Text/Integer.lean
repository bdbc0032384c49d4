import UntypedLambda.Text.Blank
import UntypedLambda.Text.Digit

/-!
# Reading integers

An integer is an optional sign and groups of decimal digits of any script, joined by single
underscores. Blanks may stand around it, the information separators excepted. Longer than
`maxDigits` digits, leading zeros included, it is refused.
-/

namespace UntypedLambda.Text

/-- The most digits that are read. -/
def maxDigits : Nat := 4300

/-- Blanks that may surround an integer: all but the four information separators. -/
def isMargin (c : Char) : Bool := isBlank c && !(decide (0x1C ≤ c.toNat) && decide (c.toNat ≤ 0x1F))

/-- The number that digit groups joined by single underscores spell. -/
def readNatural? (text : List Char) : Option Nat :=
  let groups := text.splitOn '_'
  let digits := groups.flatten
  if groups.all (fun group => !group.isEmpty && group.all isDigit) && digits.length ≤ maxDigits
  then some (digitsValue digits) else none

/-- The integer that a text spells, margins and one sign included. -/
def readInteger? (text : List Char) : Option Int :=
  match trimWhile isMargin text with
  | '-' :: rest => (readNatural? rest).map fun n => -(n : Int)
  | '+' :: rest => (readNatural? rest).map fun n => (n : Int)
  | rest => (readNatural? rest).map fun n => (n : Int)

end UntypedLambda.Text
