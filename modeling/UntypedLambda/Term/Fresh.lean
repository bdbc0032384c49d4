import UntypedLambda.Term.Free

/-!
# Fresh names

A fresh name for a term is made from a base by adding primes, one at least, until the name does
not occur free in the term. Each attempt is longer than the last, so the free names that are long
enough to stand in the way become fewer.
-/

namespace UntypedLambda.Term

/-- How many free names are at least as long as a name. -/
def obstacles (t : Term) (name : String) : Nat :=
  (t.freeNames.filter fun other => name.length ≤ other.length).length

/-- A prime on a free name leaves fewer free names in the way. -/
theorem obstacles_prime_lt {t : Term} {name : String} (h : name ∈ t.freeNames) :
    t.obstacles (name ++ "'") < t.obstacles name := by
  unfold obstacles
  have longer : (name ++ "'").length = name.length + 1 := by
    rw [String.length_append]
    rfl
  rw [longer]
  generalize t.freeNames = names at h
  induction names with
  | nil => simp at h
  | cons first rest ih =>
    have le : ∀ names : List String,
        (names.filter fun other => name.length + 1 ≤ other.length).length ≤
          (names.filter fun other => name.length ≤ other.length).length := by
      intro names
      rw [← List.countP_eq_length_filter, ← List.countP_eq_length_filter]
      refine List.countP_mono_left fun other _ many => ?_
      simp only [decide_eq_true_eq] at many ⊢
      omega
    rcases List.mem_cons.mp h with same | present
    · subst same
      have := le rest
      simp only [List.filter_cons, Nat.le_refl, decide_true, if_true, List.length_cons,
        Nat.not_succ_le_self, decide_false, Bool.false_eq_true, if_false]
      omega
    · have := ih present
      simp only [List.filter_cons]
      by_cases strict : name.length + 1 ≤ first.length
      · have weak : name.length ≤ first.length := by omega
        simp only [strict, weak, decide_true, if_true, List.length_cons]
        omega
      · simp only [strict, decide_false, Bool.false_eq_true, if_false]
        split
        · simp only [List.length_cons]
          omega
        · omega

/-- The name with the fewest primes added that is not free in the term. -/
def unused (t : Term) (name : String) : String :=
  if t.free name then t.unused (name ++ "'") else name
termination_by t.obstacles name
decreasing_by
  next h => exact obstacles_prime_lt (free_eq_true_iff.mp h)

/-- The base with the fewest primes, one at least, that is not free in the term. -/
def fresh (base : String) (t : Term) : String := t.unused (base ++ "'")

end UntypedLambda.Term
