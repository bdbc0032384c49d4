import UntypedLambda.Term.Evaluation
import UntypedLambda.Term.Reading

/-!
# The pure calculus

Reading and evaluating texts with a budget of one's own. A budget given with a text counts, zero
included; without one the calculus uses its own, which is `defaultBudget` unless it was given
another.
-/

namespace UntypedLambda

/-- An evaluator of texts. -/
structure Calculus where
  /-- The budget of an evaluation that is given none. Without one, nothing can be evaluated. -/
  budget : Option Int
  deriving DecidableEq

namespace Calculus

/-- The budget of a calculus that is given none. -/
def defaultBudget : Int := 1000

/-- The calculus with a budget, if there is one. -/
def ofBudget (budget : Option Int) : Calculus := ⟨some (budget.getD defaultBudget)⟩

instance : Inhabited Calculus := ⟨ofBudget none⟩

/-- The budget of an evaluation that may be given one. -/
def budgetOr (calculus : Calculus) (given : Option Int) : Except Fault Int :=
  match given, calculus.budget with
  | some budget, _ => .ok budget
  | none, some budget => .ok budget
  | none, none => .error (.defect (.noBudget "list"))

/-- The normal form of the term that a text spells. -/
def evaluate (calculus : Calculus) (text : String) (budget : Option Int) : Except Fault Term := do
  let t ← Term.parse text
  t.evaluate (← calculus.budgetOr budget)

/-- The normal form of the term that a text spells, with every step on the way. -/
def trace (calculus : Calculus) (text : String) (budget : Option Int) : Except Fault Trace := do
  let t ← Term.parse text
  t.trace (← calculus.budgetOr budget)

/-- The name of the strategy, with its budget. -/
def description (calculus : Calculus) : String :=
  "NormalOrderReducer(max_steps=" ++ ((calculus.budget.map toString).getD "[]") ++ ")"

end Calculus

end UntypedLambda
