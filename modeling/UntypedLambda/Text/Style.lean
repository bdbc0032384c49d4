/-!
# Styled text

A styled text stands between a code that switches each of its attributes on and one code that
switches all of them off again.
-/

namespace UntypedLambda.Text

/-- Colours of reports. -/
inductive Colour where
  /-- Errors. -/
  | red
  /-- Warnings. -/
  | magenta
  deriving DecidableEq

/-- The terminal code with the given number. -/
def controlCode (number : String) : String := "\x1b[" ++ number ++ "m"

/-- The number of a colour's code. -/
def Colour.number : Colour → String
  | .red => "31"
  | .magenta => "35"

/-- The text in bold. -/
def bold (text : String) : String := controlCode "1" ++ text ++ controlCode "0"

/-- The text in bold and in a colour. -/
def Colour.bold (colour : Colour) (text : String) : String :=
  controlCode "1" ++ controlCode colour.number ++ text ++ controlCode "0"

end UntypedLambda.Text
