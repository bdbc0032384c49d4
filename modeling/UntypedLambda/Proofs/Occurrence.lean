import UntypedLambda.Proofs.Contraction
import UntypedLambda.Proofs.Nameless.Translation

/-!
# Occurrences of bound names

An occurrence is a sub term at a path, with the parameters that are entered on the way to it. A
variable that one of these parameters binds is an index in the nameless form; filling in terms for
free names leaves it where it is. So a named term with the filled nameless form has a variable at
the same path, and it refers to the parameter of the same abstraction.
-/

namespace UntypedLambda.Term

/-- Whether a sub term stands at a path, with the parameters that the path enters, innermost
first. -/
inductive StandsAt (sub : Term) : Path → List String → Term → Prop where
  /-- The whole term. -/
  | here : StandsAt sub [] [] sub
  /-- In the body of an abstraction. -/
  | body {path : Path} {binders : List String} {body : Term} (param : String)
      (inner : StandsAt sub path binders body) :
      StandsAt sub (0 :: path) (binders ++ [param]) (abs param body)
  /-- In the left side of an application. -/
  | left {path : Path} {binders : List String} {left : Term} (right : Term)
      (inner : StandsAt sub path binders left) : StandsAt sub (0 :: path) binders (app left right)
  /-- In the right side of an application. -/
  | right {path : Path} {binders : List String} {right : Term} (left : Term)
      (inner : StandsAt sub path binders right) : StandsAt sub (1 :: path) binders (app left right)

/-- What stands at a path is found there. -/
theorem StandsAt.get {sub t : Term} {path : Path} {binders : List String}
    (h : StandsAt sub path binders t) : t.get path = .ok sub := by
  induction h with
  | here => rfl
  | body param _ ih => exact get_cons_eq_ok.mpr ⟨_, node_abs param _, ih⟩
  | left right _ ih => exact get_cons_eq_ok.mpr ⟨_, node_left _ right, ih⟩
  | right left _ ih => exact get_cons_eq_ok.mpr ⟨_, node_right left _, ih⟩

/-- A variable that is bound stays one of the same abstraction when terms are filled in for free
names, also below binders outside the term. -/
theorem StandsAt.of_fill_below {x : String} {path : Path} {binders : List String} {t : Term}
    (h : StandsAt (var x) path binders t) {outer outer' : List String} {u : Term}
    {τ : String → Nameless} (hfill : u.nameless outer' = (t.nameless outer).fill .bound τ)
    (hbound : x ∈ binders ++ outer) :
    ∃ y binders', StandsAt (var y) path binders' u ∧
      resolve (binders' ++ outer') y = resolve (binders ++ outer) x := by
  induction h generalizing outer outer' u τ with
  | here =>
    obtain ⟨index, hindex⟩ := exists_resolve_of_mem hbound
    rw [List.nil_append] at hindex
    rw [nameless, hindex, Nameless.fill] at hfill
    obtain ⟨y, rfl, hy⟩ := eq_var_of_nameless hfill
    exact ⟨y, [], .here, hy.trans hindex.symm⟩
  | body param _ ih =>
    rw [nameless, Nameless.fill, Nameless.lift_bound] at hfill
    obtain ⟨param', body', rfl, hbody⟩ := eq_abs_of_nameless hfill
    rw [List.append_assoc, List.singleton_append] at hbound
    obtain ⟨y, binders', hstands, hy⟩ := ih hbody hbound
    refine ⟨y, _, .body param' hstands, ?_⟩
    rw [List.append_assoc, List.append_assoc]
    exact hy
  | left right _ ih =>
    obtain ⟨left', right', rfl, hleft, -⟩ := eq_app_of_nameless hfill
    obtain ⟨y, binders', hstands, hy⟩ := ih hleft hbound
    exact ⟨y, binders', .left right' hstands, hy⟩
  | right left _ ih =>
    obtain ⟨left', right', rfl, -, hright⟩ := eq_app_of_nameless hfill
    obtain ⟨y, binders', hstands, hy⟩ := ih hright hbound
    exact ⟨y, binders', .right left' hstands, hy⟩

/-- A variable that is bound stays one of the same abstraction when terms are filled in for free
names. -/
theorem StandsAt.of_fill {x : String} {path : Path} {binders : List String} {t : Term}
    (h : StandsAt (var x) path binders t) {u : Term} {τ : String → Nameless}
    (hfill : u.nameless [] = (t.nameless []).fill .bound τ) (hbound : x ∈ binders) :
    ∃ y binders', StandsAt (var y) path binders' u ∧ resolve binders' y = resolve binders x := by
  obtain ⟨y, binders', hstands, hy⟩ := h.of_fill_below hfill (List.mem_append_left [] hbound)
  rw [List.append_nil, List.append_nil] at hy
  exact ⟨y, binders', hstands, hy⟩

end UntypedLambda.Term
