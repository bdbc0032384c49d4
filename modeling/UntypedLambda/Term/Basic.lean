import UntypedLambda.Agenda

/-!
# Terms

A term of the untyped λ-calculus is a variable, an abstraction or an application. Names are
arbitrary texts. The nodes of a term are its direct sub terms.
-/

namespace UntypedLambda

/-- A term of the untyped λ-calculus with named variables. -/
inductive Term where
  /-- A variable. -/
  | var (name : String)
  /-- An abstraction over a parameter. -/
  | abs (param : String) (body : Term)
  /-- An application of one term to another. -/
  | app (left right : Term)
  deriving DecidableEq, Inhabited

namespace Term

/-- The number of variables, abstractions and applications that make up a term. -/
def size : Term → Nat
  | var _ => 1
  | abs _ body => 1 + body.size
  | app left right => 1 + left.size + right.size

theorem size_pos (t : Term) : 0 < t.size := by
  cases t <;> simp only [size] <;> omega

/-- The direct sub terms, from left to right. -/
def nodes : Term → List Term
  | var _ => []
  | abs _ body => [body]
  | app left right => [left, right]

/-- Whether the term has sub terms. -/
def isCompound (t : Term) : Bool := !t.nodes.isEmpty

/-- Whether the term is a variable. -/
def isVar : Term → Bool
  | var _ => true
  | _ => false

/-- The word for the kind of a term. -/
def kind : Term → String
  | var _ => "Variable"
  | abs _ _ => "Abstraction"
  | app _ _ => "Application"

/-- Whether the term binds a name in its nodes. -/
def binds (name : String) : Term → Bool
  | abs param _ => param = name
  | _ => false

/-- Whether the term can be contracted as a whole: it applies an abstraction. -/
def isRedex : Term → Bool
  | app (abs _ _) _ => true
  | _ => false

/-- A term is one larger than its nodes together. -/
theorem size_eq_weight_nodes (t : Term) : t.size = Agenda.weight size t.nodes + 1 := by
  cases t <;> simp [size, nodes] <;> omega

end Term

end UntypedLambda
