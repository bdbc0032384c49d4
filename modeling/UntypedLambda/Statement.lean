import UntypedLambda.Text.Blank
import UntypedLambda.Text.Split

/-!
# Statements of a file

A comment starts with two semicolons and reaches to the end of its line. A statement is a line
without its comment, or several lines joined by single spaces: a line that opens more parentheses
than it closes is continued on the lines after it. A statement has the number of the line that it
starts on.
-/

namespace UntypedLambda

/-- A statement and where it starts. -/
structure Statement where
  /-- The number of its first line. -/
  line : Nat
  /-- Its text. -/
  text : String
  deriving DecidableEq

namespace Statement

/-- A line without its comment and without blanks at its ends. -/
def clean (line : String) : String :=
  match Text.cut? ";;" line with
  | some (code, _) => Text.trimmed code
  | none => Text.trimmed line

/-- Whether a text opens more parentheses than it closes. -/
def isOpen (text : String) : Bool := Text.count ')' text < Text.count '(' text

/-- A statement with one more line. -/
def join (text line : String) : String := Text.trimmed (text ++ " " ++ line)

/-- Cuts lines into statements. The lines are numbered from `number` on, and `held` is the
statement that the first of them continues. -/
def segmentFrom (number : Nat) (held : Option Statement) : List String → List Statement
  | [] => held.toList
  | line :: lines =>
    let line := clean line
    match held with
    | none =>
      if line.isEmpty then segmentFrom (number + 1) none lines
      else if isOpen line then segmentFrom (number + 1) (some ⟨number, line⟩) lines
      else ⟨number, line⟩ :: segmentFrom (number + 1) none lines
    | some statement =>
      let text := join statement.text line
      if isOpen text then segmentFrom (number + 1) (some ⟨statement.line, text⟩) lines
      else ⟨statement.line, text⟩ :: segmentFrom (number + 1) none lines

/-- The statements of a file. -/
def segment (lines : List String) : List Statement := segmentFrom 1 none lines

end Statement

end UntypedLambda
