import UntypedLambda.Proofs.Nameless.Translation
import UntypedLambda.Term.Substitution

/-!
# Substitution does not capture

Substituting in a named term renames parameters on the way and substitutes twice where it does.
Interpreted, all of this is one change: the name that is substituted stands for the interpretation
of the new term. The main statement says so of nameless forms: substituting and then dropping the
names of parameters is dropping them and then substituting, where nothing can be captured.
-/

namespace UntypedLambda.Term

/-- Adding primes ends at a name that is not free. -/
theorem unused_notMem (t : Term) (name : String) : t.unused name ∉ t.freeNames := by
  fun_induction unused t name with
  | case1 name _ ih => exact ih
  | case2 name h => exact free_eq_false_iff.mp (by simpa using h)

/-- A fresh name is not free. -/
theorem fresh_notMem (base : String) (t : Term) : fresh base t ∉ t.freeNames :=
  unused_notMem t (base ++ "'")

/-- Induction along a substitution. A renaming substitution is met with any variable in place of
the parameter, and the substitution after it in any renamed body. -/
theorem subst_induction {motive : Term → String → Term → Prop}
    (var : ∀ x name new, motive (var x) name new)
    (shadowed : ∀ body name new, motive (abs name body) name new)
    (renamed : ∀ param body name new, param ≠ name → param ∈ new.freeNames →
      name ∈ body.freeNames → (∀ x, motive body param (.var x)) →
      (∀ x, motive (body.subst param (.var x)) name new) → motive (abs param body) name new)
    (kept : ∀ param body name new, param ≠ name →
      (param ∉ new.freeNames ∨ name ∉ body.freeNames) → motive body name new →
      motive (abs param body) name new)
    (app : ∀ left right name new, motive left name new → motive right name new →
      motive (app left right) name new)
    (t : Term) (name : String) (new : Term) : motive t name new := by
  -- Renaming keeps the size, so the size of the term decreases where its structure does not.
  induction hsize : t.size using Nat.strongRecOn generalizing t name new with
  | _ size ih =>
    subst hsize
    cases t with
    | var x => exact var x name new
    | abs param body =>
      have hbody : body.size < (abs param body).size := by simp only [Term.size]; omega
      by_cases hparam : param = name
      · exact hparam ▸ shadowed body param new
      by_cases hcapture : param ∈ new.freeNames ∧ name ∈ body.freeNames
      · refine renamed param body name new hparam hcapture.1 hcapture.2
          (fun x => ih body.size hbody body param (.var x) rfl) fun x => ?_
        exact ih _ ((size_subst_var body param x).symm ▸ hbody) _ name new rfl
      · exact kept param body name new hparam (not_and_or.mp hcapture)
          (ih body.size hbody body name new rfl)
    | app left right =>
      have hleft : left.size < (Term.app left right).size := by simp only [Term.size]; omega
      have hright : right.size < (Term.app left right).size := by simp only [Term.size]; omega
      exact app left right name new (ih _ hleft left name new rfl) (ih _ hright right name new rfl)

/-- An abstraction over the name is kept. -/
theorem subst_abs_self (name : String) (body new : Term) :
    (abs name body).subst name new = abs name body := by
  rw [subst_abs, if_pos rfl]

/-- The test for a capture looks for the parameter in the new term and for the name in the body. -/
theorem capture_test_iff {param name : String} {body new : Term} :
    (new.free param && body.free name) = true ↔
      param ∈ new.freeNames ∧ name ∈ body.freeNames := by
  rw [Bool.and_eq_true, free_eq_true_iff, free_eq_true_iff]

/-- The parameter is renamed where it is free in the new term and the name is free below it. -/
theorem subst_abs_renamed {param name : String} {body new : Term} (hparam : param ≠ name)
    (hnew : param ∈ new.freeNames) (hbody : name ∈ body.freeNames) :
    (abs param body).subst name new =
      abs (fresh param (app new body))
        ((body.subst param (var (fresh param (app new body)))).subst name new) := by
  rw [subst_abs, if_neg hparam, if_pos (capture_test_iff.mpr ⟨hnew, hbody⟩)]

/-- The parameter is kept where it is not free in the new term or the name is not free below. -/
theorem subst_abs_kept {param name : String} {body new : Term} (hparam : param ≠ name)
    (h : param ∉ new.freeNames ∨ name ∉ body.freeNames) :
    (abs param body).subst name new = abs param (body.subst name new) := by
  rw [subst_abs, if_neg hparam, if_neg (mt capture_test_iff.mp (not_and_or.mpr h))]

/-- No parameter is renamed for a term without free names. -/
theorem subst_abs_closed {param name : String} (body : Term) {new : Term} (hparam : param ≠ name)
    (hnew : new.freeNames = []) :
    (abs param body).subst name new = abs param (body.subst name new) :=
  subst_abs_kept hparam (.inl (hnew ▸ List.not_mem_nil))

/-- Nothing is put in place of a name that is not free. -/
theorem subst_of_notMem {t : Term} {name : String} (h : name ∉ t.freeNames) (new : Term) :
    t.subst name new = t := by
  induction t with
  | var x =>
    have hx : x ≠ name := fun hsame => h (List.mem_singleton.mpr hsame.symm)
    rw [subst_var, if_neg hx]
  | abs param body ih =>
    by_cases hparam : param = name
    · rw [hparam, subst_abs_self]
    · have hbody : name ∉ body.freeNames := fun hmem =>
        h (List.mem_filter.mpr ⟨hmem, by simpa using Ne.symm hparam⟩)
      rw [subst_abs_kept hparam (.inr hbody), ih hbody]
  | app left right ihl ihr =>
    obtain ⟨hleft, hright⟩ := not_or.mp (mt List.mem_append.mpr h)
    rw [subst_app, ihl hleft, ihr hright]

/-- Substituting changes the interpretation of the name, and of no other name. -/
theorem interpret_subst (t : Term) (name : String) (new : Term) (ρ : String → Nameless) :
    (t.subst name new).interpret ρ =
      t.interpret (Function.update ρ name (new.interpret ρ)) := by
  induction t, name, new using subst_induction generalizing ρ with
  | var x name new =>
    by_cases hx : x = name
    · rw [subst_var, if_pos hx, interpret, hx, Function.update_self]
    · rw [subst_var, if_neg hx, interpret, interpret, Function.update_of_ne hx]
  | shadowed body name new =>
    rw [subst_abs_self]
    refine interpret_congr fun x hx => ?_
    have hne : x ≠ name := by simpa [freeNames] using (List.mem_filter.mp hx).2
    rw [Function.update_of_ne hne]
  | renamed param body name new hparam hnew hbody ih₁ ih₂ =>
    rw [subst_abs_renamed hparam hnew hbody]
    have hfresh := fresh_notMem param (app new body)
    generalize fresh param (app new body) = z at hfresh ⊢
    rw [freeNames, List.mem_append, not_or] at hfresh
    have hz : z ≠ name := fun h => hfresh.2 (h ▸ hbody)
    rw [interpret, ih₂, ih₁, interpret_enter ρ hfresh.1, interpret, interpret]
    refine congrArg Nameless.abs (interpret_congr fun x hx => ?_)
    have hxz : x ≠ z := fun h => hfresh.2 (h ▸ hx)
    by_cases hxp : x = param
    · rw [hxp, Function.update_self, Function.update_of_ne hz, enter, if_pos rfl, enter,
        if_pos rfl]
    · rw [Function.update_of_ne hxp, enter, if_neg hxp]
      by_cases hxn : x = name
      · rw [hxn, Function.update_self, Function.update_self]
      · rw [Function.update_of_ne hxn, Function.update_of_ne hxn, enter, if_neg hxz]
  | kept param body name new hparam h ih =>
    rw [subst_abs_kept hparam h, interpret, ih, interpret]
    refine congrArg Nameless.abs (interpret_congr fun x hx => ?_)
    by_cases hxn : x = name
    · have hnew : param ∉ new.freeNames := h.resolve_right fun hn => hn (hxn ▸ hx)
      rw [hxn, Function.update_self, interpret_enter ρ hnew, enter, if_neg hparam.symm,
        Function.update_self]
    · rw [Function.update_of_ne hxn, enter, enter, Function.update_of_ne hxn]
  | app left right name new ihl ihr => rw [subst_app, interpret, interpret, ihl, ihr]

/-- The nameless form of a substituted term interprets the name by the new term. -/
theorem nameless_subst_eq_interpret (t : Term) (name : String) (new : Term)
    (binders : List String) :
    (t.subst name new).nameless binders =
      t.interpret (Function.update (resolve binders) name (new.nameless binders)) := by
  rw [nameless_eq_interpret, interpret_subst, nameless_eq_interpret new]

/-- Putting an argument in place of a parameter instantiates the nameless body. -/
theorem nameless_subst_param (param : String) (body new : Term) (binders : List String) :
    (body.subst param new).nameless binders =
      (body.nameless (param :: binders)).instantiate (new.nameless binders) := by
  rw [nameless_subst_eq_interpret, nameless_eq_interpret body, resolve_cons]
  unfold Nameless.instantiate
  rw [interpret_fill]
  refine interpret_congr fun x _ => ?_
  by_cases hx : x = param
  · rw [hx, Function.update_self, enter, if_pos rfl]
    rfl
  · rw [Function.update_of_ne hx, enter, if_neg hx]
    exact (Nameless.shift_instantiate _ _).symm

/-- Substituting for a name that nothing outside binds is substituting in the nameless form. -/
theorem nameless_subst_free (t : Term) (name : String) (new : Term) :
    (t.subst name new).nameless [] = (t.nameless []).subst name (new.nameless []) := by
  rw [nameless_subst_eq_interpret, Nameless.subst_eq_fill, nameless_eq_interpret t,
    interpret_fill, resolve_nil]
  rfl

/-- The free names of a term, in order, with those of the new term in place of the name. -/
theorem freeNames_subst (t : Term) (name : String) (new : Term) :
    (t.subst name new).freeNames =
      t.freeNames.flatMap fun x => if x = name then new.freeNames else [x] := by
  have hnames (u : Term) : (u.nameless []).names = u.freeNames := by
    simp [names_nameless]
  rw [← hnames, nameless_subst_free, Nameless.names_subst, hnames, hnames]

/-- The free names of a term are kept but for the name, and those of the new term come in where the
name is free. -/
theorem mem_freeNames_subst {t new : Term} {name x : String} :
    x ∈ (t.subst name new).freeNames ↔
      x ∈ t.freeNames ∧ x ≠ name ∨ name ∈ t.freeNames ∧ x ∈ new.freeNames := by
  rw [freeNames_subst, List.mem_flatMap]
  constructor
  · rintro ⟨y, hy, hx⟩
    by_cases hname : y = name
    · rw [if_pos hname] at hx
      exact .inr ⟨hname ▸ hy, hx⟩
    · rw [if_neg hname, List.mem_singleton] at hx
      exact .inl ⟨hx ▸ hy, hx ▸ hname⟩
  · rintro (⟨hx, hne⟩ | ⟨hname, hx⟩)
    · exact ⟨x, hx, by rw [if_neg hne]; exact List.mem_singleton_self x⟩
    · exact ⟨name, hname, by rwa [if_pos rfl]⟩

/-- Substitution avoids capture, whatever names the terms have. In nameless form it is the
substitution that has nothing to capture; so exactly the free occurrences of the name are replaced,
and the free names of the new term stay free. -/
theorem subst_avoids_capture (t : Term) (name : String) (new : Term) :
    (t.subst name new).nameless [] = (t.nameless []).subst name (new.nameless []) ∧
      (t.subst name new).freeNames =
        t.freeNames.flatMap fun x => if x = name then new.freeNames else [x] :=
  ⟨nameless_subst_free t name new, freeNames_subst t name new⟩

end UntypedLambda.Term
