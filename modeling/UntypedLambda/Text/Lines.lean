/-!
# Lines of a text

Input lines end at a line feed. The lines of a file end at a line feed, a carriage return, or a
carriage return followed by a line feed. The last line needs no end, and an empty rest after the
last line end is no line.
-/

namespace UntypedLambda.Text

/-- Lines that end at a line feed; `line` is what was read of the first one, backwards. -/
def linesFrom (line : List Char) : List Char → List (List Char)
  | [] => if line.isEmpty then [] else [line.reverse]
  | '\n' :: rest => line.reverse :: linesFrom [] rest
  | c :: rest => linesFrom (c :: line) rest

/-- Writes every line end as one line feed. -/
def unifyLineEnds : List Char → List Char
  | [] => []
  | '\r' :: '\n' :: rest => '\n' :: unifyLineEnds rest
  | '\r' :: rest => '\n' :: unifyLineEnds rest
  | c :: rest => c :: unifyLineEnds rest

/-- The lines of typed input. -/
def inputLines (text : String) : List String := (linesFrom [] text.toList).map String.ofList

/-- The lines of a file. -/
def fileLines (text : String) : List String :=
  (linesFrom [] (unifyLineEnds text.toList)).map String.ofList

end UntypedLambda.Text
