/-!
# Slices with signed ends

A position below zero counts from the end of the text, and positions outside the text are moved
to its nearest end. A slice whose ends cross is empty.
-/

namespace UntypedLambda.Text

/-- The offset that a signed position denotes in a text of the given length. -/
def offsetOf (length : Nat) (position : Int) : Nat :=
  if position < 0 then (position + length).toNat else min position.toNat length

/-- The characters before a signed position. -/
def before (text : List Char) (stop : Int) : List Char :=
  text.take (offsetOf text.length stop)

/-- The characters from a signed position on. -/
def onward (text : List Char) (start : Int) : List Char :=
  text.drop (offsetOf text.length start)

/-- The characters between two signed positions. -/
def between (text : List Char) (start stop : Int) : List Char :=
  (text.take (offsetOf text.length stop)).drop (offsetOf text.length start)

section Parts

variable {first second third : List Char} {start stop : Nat}

end Parts

end UntypedLambda.Text
