import UntypedLambda.Term.Fresh

/-!
# Capture-avoiding substitution

Substituting a term for a name replaces the free occurrences of the name. A parameter that is free
in the new term is renamed first, but only where the name occurs below it: the body is substituted
twice, once to rename the parameter and once for the name. Putting a variable in place of a name
keeps the size of a term, which is why the second substitution ends.
-/

namespace UntypedLambda.Term

/-- Substitutes, and shows that a variable put in keeps the size. -/
def substSized (t : Term) (name : String) (new : Term) :
    { u : Term // new.isVar = true → u.size = t.size } :=
  match t with
  | var x =>
    if x = name then ⟨new, fun h => by cases new <;> simp_all [isVar, size]⟩
    else ⟨var x, fun _ => rfl⟩
  | abs param body =>
    if param = name then ⟨abs param body, fun _ => rfl⟩
    else if new.free param && body.free name then
      let renamed := fresh param (app new body)
      match substSized body param (var renamed) with
      | ⟨moved, sameSize⟩ =>
        let inner := substSized moved name new
        ⟨abs renamed inner.1, fun h => by simp only [size, inner.2 h, sameSize rfl]⟩
    else
      let inner := substSized body name new
      ⟨abs param inner.1, fun h => by simp only [size, inner.2 h]⟩
  | app left right =>
    let newLeft := substSized left name new
    let newRight := substSized right name new
    ⟨app newLeft.1 newRight.1, fun h => by simp only [size, newLeft.2 h, newRight.2 h]⟩
termination_by t.size
decreasing_by
  all_goals simp only [size]
  · omega
  · have := sameSize rfl
    omega
  · omega
  · omega
  · omega

/-- Puts a term in place of every free occurrence of a name. -/
def subst (t : Term) (name : String) (new : Term) : Term := (substSized t name new).1

/-- A variable is replaced if it has the name. -/
theorem subst_var (x name : String) (new : Term) :
    (var x).subst name new = if x = name then new else var x := by
  unfold subst
  rw [substSized]
  split <;> rfl

/-- An abstraction over the name is kept; one that would capture is renamed. -/
theorem subst_abs (param : String) (body : Term) (name : String) (new : Term) :
    (abs param body).subst name new =
      if param = name then abs param body
      else if new.free param && body.free name then
        let renamed := fresh param (app new body)
        abs renamed ((body.subst param (var renamed)).subst name new)
      else abs param (body.subst name new) := by
  unfold subst
  rw [substSized]
  split
  · rfl
  · split <;> rfl

/-- Both sides of an application are substituted. -/
theorem subst_app (left right : Term) (name : String) (new : Term) :
    (app left right).subst name new = app (left.subst name new) (right.subst name new) := by
  unfold subst
  rw [substSized]

/-- Putting a variable in place of a name keeps the size. -/
theorem size_subst_var (t : Term) (name x : String) : (t.subst name (var x)).size = t.size :=
  (substSized t name (var x)).2 rfl

end UntypedLambda.Term
