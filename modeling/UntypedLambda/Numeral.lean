import UntypedLambda.Fault
import UntypedLambda.Term.Rendering
import UntypedLambda.Text.Integer
import UntypedLambda.Text.Word

/-!
# Numerals

A natural number is written as a term with two parameters that applies the first so often to the
second. Any term that does so is read as the number, whatever its parameters are called, as long
as they differ. In a text, a number that stands alone is replaced by the text of its numeral.
-/

namespace UntypedLambda

namespace Term

/-- Applies a variable so often to a variable. -/
def iterate (function argument : String) : Nat → Term
  | 0 => var argument
  | n + 1 => app (var function) (iterate function argument n)

/-- The numeral of a number. -/
def numeral (n : Nat) : Term := abs "f" (abs "x" (iterate "f" "x" n))

/-- How often a term applies one variable to another. -/
def iterations? (function argument : String) : Term → Option Nat
  | var name => if name = argument then some 0 else none
  | abs _ _ => none
  | app left right =>
    if left = var function then (right.iterations? function argument).map (· + 1) else none

/-- The number that a term is a numeral of. -/
def number? : Term → Option Nat
  | abs function (abs argument body) =>
    if function = argument then none else body.iterations? function argument
  | _ => none

/-- The text of a term, with the number that it is a numeral of. -/
def display (t : Term) : String :=
  match t.number? with
  | none => t.render
  | some n => t.render ++ " = " ++ toString n

end Term

namespace Numeral

/-- Values that a numeral may be asked of. -/
inductive Source where
  /-- An integer. -/
  | integer (value : Int)
  /-- A truth value, which is no number. -/
  | truth (value : Bool)
  /-- A decimal fraction by its text, which is no natural number. -/
  | fraction (text : String)
  /-- A text that spells an integer, or does not. -/
  | text (text : String)
  deriving DecidableEq

/-- The fault of a value that is no natural number. -/
def notNatural (shown : String) : Fault :=
  Problem.fault (.general
    { template := "expected natural number, got '\x7b\x7d'", texts := [shown], internal := true })

/-- The numeral of an integer. -/
def ofInt (value : Int) : Except Fault Term :=
  if value < 0 then .error (notNatural (toString value)) else .ok (.numeral value.toNat)

/-- The numeral of a value. -/
def ofSource : Source → Except Fault Term
  | .integer value => ofInt value
  | .truth value => .error (notNatural (if value then "True" else "False"))
  | .fraction text => .error (notNatural text)
  | .text text =>
    match Text.readInteger? text.toList with
    | some value => ofInt value
    | none => .error (notNatural text)

/-- A word is a number if it holds digits only; it is replaced by its numeral in parentheses. A
run of other characters is kept. -/
def expandRun (run : List Char) : Except Fault (List Char) :=
  if run.all Text.isDigit then
    match ofSource (.text (String.ofList run)) with
    | .ok t => .ok ('(' :: t.render.toList ++ [')'])
    | .error fault => .error fault
  else .ok run

/-- Cuts a text where word characters and others meet. -/
def runs (text : List Char) : List (List Char) :=
  text.splitBy fun a b => Text.isWord a == Text.isWord b

/-- Replaces every number that stands alone in a text by its numeral. -/
def expandLiterals (text : String) : Except Fault String := do
  let parts ← (runs text.toList).mapM expandRun
  return String.ofList parts.flatten

end Numeral

end UntypedLambda
