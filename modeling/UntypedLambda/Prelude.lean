import UntypedLambda.Table
import UntypedLambda.Term.Basic

/-!
# The prelude

The definitions that every session starts with: truth values and their operations, combinators,
and the arithmetic of numerals.
-/

namespace UntypedLambda.Prelude

open Term

/-- The first of two arguments. -/
def first : Term := abs "x" (abs "y" (var "x"))

/-- The second of two arguments. -/
def second : Term := abs "x" (abs "y" (var "y"))

/-- The second truth value if the first is true, and else the first. -/
def conjunction : Term := abs "p" (abs "q" (app (app (var "p") (var "q")) (var "p")))

/-- The first truth value if it is true, and else the second. -/
def disjunction : Term := abs "p" (abs "q" (app (app (var "p") (var "p")) (var "q")))

/-- A truth value with its arguments exchanged. -/
def negation : Term := abs "p" (abs "a" (abs "b" (app (app (var "p") (var "b")) (var "a"))))

/-- The argument itself. -/
def identity : Term := abs "x" (var "x")

/-- Hands its third argument to both of the others. -/
def distribution : Term :=
  abs "x" (abs "y" (abs "z"
    (app (app (var "x") (var "z")) (app (var "y") (var "z")))))

/-- The fixed point of a function. -/
def fixedPoint : Term :=
  let half := abs "x" (app (var "f") (app (var "x") (var "x")))
  abs "f" (app half half)

/-- The number after a number. -/
def successor : Term :=
  abs "n" (abs "f" (abs "x"
    (app (var "f") (app (app (var "n") (var "f")) (var "x")))))

/-- The sum of two numbers. -/
def sum : Term :=
  abs "m" (abs "n" (abs "f" (abs "x"
    (app (app (var "m") (var "f")) (app (app (var "n") (var "f")) (var "x"))))))

/-- The product of two numbers. -/
def product : Term :=
  abs "m" (abs "n" (abs "f" (app (var "m") (app (var "n") (var "f")))))

/-- The names of the prelude and what they stand for. -/
def entries : List (String × Term) :=
  [("true", first), ("false", second), ("and", conjunction), ("or", disjunction),
   ("not", negation), ("I", identity), ("K", first), ("S", distribution), ("Y", fixedPoint),
   ("SUCC", successor), ("PLUS", sum), ("MULT", product)]

/-- The prelude. -/
def table : Table Term := .ofList entries

end UntypedLambda.Prelude
