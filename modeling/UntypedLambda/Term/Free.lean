import UntypedLambda.Term.Basic

/-!
# Free names

A name is free in a term if it occurs outside every abstraction over it. The test walks over an
agenda of sub terms that are still to be looked at, so it needs no more room for a deep term than
for a wide one. Fresh names are made by adding primes.
-/

namespace UntypedLambda.Term

/-- The names that occur free, from left to right and as often as they occur. -/
def freeNames : Term → List String
  | var name => [name]
  | abs param body => body.freeNames.filter (· ≠ param)
  | app left right => left.freeNames ++ right.freeNames

/-- Whether a name is free in one of the terms on the agenda. -/
def freeInAny (name : String) : List Term → Bool
  | [] => false
  | t :: agenda =>
    if t = var name then true
    else if t.binds name then freeInAny name agenda
    else freeInAny name (t.nodes.reverse ++ agenda)
termination_by agenda => Agenda.weight size agenda
decreasing_by
  · have := t.size_pos
    simp only [Agenda.weight_cons]
    omega
  · have := t.size_eq_weight_nodes
    simp only [Agenda.weight_append, Agenda.weight_reverse, Agenda.weight_cons]
    omega

/-- Whether a name occurs free. -/
def free (t : Term) (name : String) : Bool := freeInAny name [t]

/-- An agenda has a free name exactly when one of its terms has. -/
theorem freeInAny_eq (name : String) (agenda : List Term) :
    freeInAny name agenda = agenda.any fun t => decide (name ∈ t.freeNames) := by
  fun_induction freeInAny name agenda with
  | case1 => rfl
  | case2 agenda => simp [freeNames]
  | case3 t agenda _ binds ih =>
    cases t with
    | var _ => simp [Term.binds] at binds
    | abs param body =>
      simp only [Term.binds, decide_eq_true_eq] at binds
      simp [ih, freeNames, binds]
    | app _ _ => simp [Term.binds] at binds
  | case4 t agenda other binds ih =>
    rw [ih]
    cases t with
    | var x =>
      have : ¬ name = x := fun h => other (h ▸ rfl)
      simp [nodes, freeNames, this]
    | abs param body =>
      have : ¬ name = param := fun h => binds (by simp [Term.binds, h])
      simp [nodes, freeNames, this]
    | app left right =>
      simp only [nodes, List.any_append, List.any_reverse, List.any_cons, List.any_nil, freeNames,
        List.mem_append, Bool.or_false]
      simp

/-- The walk finds exactly the names that occur free. -/
theorem free_eq_true_iff {t : Term} {name : String} : t.free name = true ↔ name ∈ t.freeNames := by
  simp [free, freeInAny_eq]

/-- The walk fails exactly on the names that do not occur free. -/
theorem free_eq_false_iff {t : Term} {name : String} :
    t.free name = false ↔ name ∉ t.freeNames := by
  rw [← free_eq_true_iff, Bool.not_eq_true]

end UntypedLambda.Term
