import UntypedLambda.Fault
import UntypedLambda.Term.Rendering
import UntypedLambda.Term.Step

/-!
# Evaluation within a budget

Whether a term has a normal form is undecidable, so evaluation is given a budget: how often it may
ask for the next step. The question that finds a normal form counts too, so a term that takes some
steps to its normal form needs a budget that is larger than their number. A budget below zero is a
defect, and a budget that runs out is a problem. Applying a term that is no abstraction is a defect
too; evaluation never does.
-/

namespace UntypedLambda

/-- A normal form, and the texts of the terms on the way to it. -/
structure Trace where
  /-- The normal form. -/
  result : Term
  /-- The texts of the term before and after every step. -/
  steps : List String
  deriving DecidableEq

/-- Texts, each with its place in the row. -/
def Trace.numbered (steps : List String) : List String :=
  steps.mapIdx fun index text => "  " ++ toString index ++ ": " ++ text

namespace Term

/-- What a term does to an argument. Only an abstraction can be applied. -/
def function (t : Term) : Except Defect (Term → Term) :=
  match t.function? with
  | some function => .ok function
  | none => .error (.notApplicable t.kind)

/-- The normal form, if asking for the next step that often finds it. -/
def normalize? : Nat → Term → Option Term
  | 0, _ => none
  | budget + 1, t =>
    match t.step? with
    | none => some t
    | some next => normalize? budget next

/-- The normal form and the texts on the way, if asking that often finds it. -/
def trace? : Nat → Term → Option Trace
  | 0, _ => none
  | budget + 1, t =>
    match t.step? with
    | none => some ⟨t, [t.render]⟩
    | some next =>
      match trace? budget next with
      | none => none
      | some trace => some { trace with steps := t.render :: trace.steps }

/-- What a search within a budget comes to. -/
def withinBudget {α : Type} (search : Nat → Option α) (budget : Int) : Except Fault α :=
  if budget < 0 then .error (.defect (.negativeBudget budget))
  else
    match search budget.toNat with
    | some found => .ok found
    | none => .error (Problem.outOfSteps budget).fault

/-- The normal form of a term. -/
def evaluate (t : Term) (budget : Int) : Except Fault Term :=
  withinBudget (t.normalize? ·) budget

/-- The normal form of a term, with the texts of the term before and after every step. -/
def trace (t : Term) (budget : Int) : Except Fault Trace := withinBudget (t.trace? ·) budget

end Term

end UntypedLambda
