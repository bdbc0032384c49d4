import UntypedLambda.Calculus
import UntypedLambda.Reporter

/-!
# Worked examples

A fixed row of terms of the pure calculus, each shown with every step of its evaluation. A term
that is not read, or has no normal form within the budget, is reported and passed over.
-/

namespace UntypedLambda.Examples

/-- The built-in terms. -/
def sources : List String :=
  ["\\x.x", "(\\x.x) y", "(\\x.x x) (\\y.y)", "\\x.\\y.x", "\\x.\\y.y", "\\f.\\x.f x",
   "\\f.\\x.f (f x)", "\\f.(\\x.f (x x)) (\\x.f (x x))"]

/-- Shows a term and its evaluation. -/
def present (calculus : Calculus) (source : String) : Action Reporter Unit := do
  Reporter.print ("\nInput: " ++ source)
  match calculus.trace source none with
  | .ok trace =>
    modify (Reporter.printLines
      ("Steps:" :: Trace.numbered trace.steps ++ ["Result: " ++ trace.result.render]))
  | .error (.report report) => Reporter.print ("Error: " ++ report.message)
  | .error fault => throw fault

/-- Shows terms one after the other. -/
def presentAll (calculus : Calculus) : List String → Action Reporter Unit
  | [] => return
  | source :: rest => do
    present calculus source
    presentAll calculus rest

end UntypedLambda.Examples
