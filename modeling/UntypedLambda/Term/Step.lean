import UntypedLambda.Term.Path
import UntypedLambda.Term.Substitution

/-!
# Single steps

A step contracts one redex. Both nodes of an application are reduced before the application
itself, the left node first, and the body of an abstraction is reduced too; so the redex to
contract is the first one that a walk in post-order meets. The walk keeps an agenda of sub terms to
enter and to leave, each with the path that leads to it.
-/

namespace UntypedLambda.Term

/-- An entry on the agenda of the walk. The trail is the path to the term, innermost first. -/
inductive Visit where
  /-- The term has not been looked at. -/
  | enter (term : Term) (trail : Path)
  /-- The nodes of the term hold no redex. -/
  | leave (term : Term) (trail : Path)

/-- An upper bound on the entries that are met while an entry is worked off. -/
def Visit.weight : Visit → Nat
  | enter t _ => 2 * t.size
  | leave _ _ => 1

/-- Entries for the nodes of a term, from left to right. -/
def visitNodes (t : Term) (trail : Path) : List Visit :=
  t.nodes.mapIdx fun index sub => .enter sub ((index : Int) :: trail)

/-- Leaving a term and entering its nodes weighs less than entering the term. -/
theorem weight_visitNodes_lt (t : Term) (trail : Path) :
    Agenda.weight Visit.weight (visitNodes t trail) + 1 < (Visit.enter t trail).weight := by
  cases t <;> simp [visitNodes, nodes, Visit.weight, size] <;> omega

/-- The path to the first redex that the walk leaves, if there is one. -/
def findRedex : List Visit → Option Path
  | [] => none
  | .enter t trail :: agenda => findRedex (visitNodes t trail ++ .leave t trail :: agenda)
  | .leave t trail :: agenda => if t.isRedex then some trail.reverse else findRedex agenda
termination_by agenda => Agenda.weight Visit.weight agenda
decreasing_by
  · have := weight_visitNodes_lt t trail
    simp only [Agenda.weight_append, Agenda.weight_cons, Visit.weight] at this ⊢
    omega
  · simp only [Agenda.weight_cons, Visit.weight]
    omega

/-- The path to the redex that is contracted next; `none` for a normal form. -/
def redexPath (t : Term) : Option Path := findRedex [.enter t []]

/-- What an abstraction does to an argument: its body, with the argument in place of the parameter.
Other terms do nothing to an argument. -/
def function? : Term → Option (Term → Term)
  | abs param body => some fun argument => body.subst param argument
  | _ => none

/-- The result of contracting a redex; `none` for any other term. -/
def contract? : Term → Option Term
  | app left right => left.function?.map fun function => function right
  | _ => none

/-- The term after contracting the redex at a path; `none` if there is no redex at the path. -/
def contractAt? (t : Term) (path : Path) : Option Term := do
  let redex ← (t.get path).toOption
  let contractum ← redex.contract?
  (t.set path contractum).toOption

/-- The term after one step; `none` for a normal form. -/
def step? (t : Term) : Option Term := do
  let path ← t.redexPath
  t.contractAt? path

/-- At most so many steps, each with the path to its redex and the term after it, and whether a
normal form was met on looking for a next step. -/
def firstSteps : Nat → Term → List (Path × Term) × Bool
  | 0, _ => ([], false)
  | count + 1, t =>
    match t.redexPath, t.step? with
    | some path, some next =>
      let (steps, normal) := firstSteps count next
      ((path, next) :: steps, normal)
    | _, _ => ([], true)

end UntypedLambda.Term
