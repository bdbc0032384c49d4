import Mathlib.Data.List.Forall2
import UntypedLambda.Proofs.Alpha
import UntypedLambda.Proofs.Evaluation

/-!
# Evaluation does not depend on the names of parameters

Substitution renames in one of two alpha-equivalent terms and not in the other, so their runs
differ from the first step on. What they have in common is the path to the next redex, and the
terms after a step are alpha-equivalent again; so the runs go on side by side to the same end.
-/

namespace UntypedLambda.Term

/-- Alpha-equivalent terms are redexes alike. -/
theorem AlphaBelow.isRedex_eq {pairs : List (String × String)} {t u : Term}
    (h : AlphaBelow pairs t u) : t.isRedex = u.isRedex := by
  cases h with
  | var _ => rfl
  | abs _ => rfl
  | app lefts _ => cases lefts <;> rfl

/-- The first redexes of alpha-equivalent terms are at the same path. -/
theorem AlphaBelow.firstRedex_eq {pairs : List (String × String)} {t u : Term}
    (h : AlphaBelow pairs t u) : t.firstRedex = u.firstRedex := by
  induction h with
  | var _ => rfl
  | abs _ ih => rw [firstRedex, firstRedex, ih]
  | app lefts rights ihl ihr =>
    have hredex := (AlphaBelow.app lefts rights).isRedex_eq
    rw [firstRedex, firstRedex, ihl, ihr, hredex]

/-- Putting equivalent arguments in place of parameters that are paired gives equivalent terms. -/
theorem AlphaBelow.subst {pairs : List (String × String)} {p q : String}
    {body body' argument argument' : Term} (hbody : AlphaBelow ((p, q) :: pairs) body body')
    (hargument : AlphaBelow pairs argument argument') :
    AlphaBelow pairs (body.subst p argument) (body'.subst q argument') := by
  have hbodies := alphaBelow_iff.mp hbody
  rw [List.map_cons, List.map_cons] at hbodies
  rw [alphaBelow_iff, nameless_subst_param, nameless_subst_param, hbodies,
    alphaBelow_iff.mp hargument]

/-- A contraction is followed by a contraction at the same path of an equivalent term. -/
theorem ContractsAt.alpha {path : Path} {pairs : List (String × String)} {t t' u : Term}
    (h : ContractsAt path t t') (hu : AlphaBelow pairs t u) :
    ∃ u', ContractsAt path u u' ∧ AlphaBelow pairs t' u' := by
  induction h generalizing pairs u with
  | root param body argument =>
    cases hu with
    | app lefts rights =>
      cases lefts with
      | abs bodies => exact ⟨_, .root _ _ _, bodies.subst rights⟩
  | abs param _ ih =>
    cases hu with
    | abs bodies =>
      obtain ⟨body', hcontract, hbody⟩ := ih bodies
      exact ⟨_, .abs _ hcontract, .abs hbody⟩
  | left right _ ih =>
    cases hu with
    | app lefts rights =>
      obtain ⟨left', hcontract, hleft⟩ := ih lefts
      exact ⟨_, .left _ hcontract, .app hleft rights⟩
  | right left _ ih =>
    cases hu with
    | app lefts rights =>
      obtain ⟨right', hcontract, hright⟩ := ih rights
      exact ⟨_, .right _ hcontract, .app lefts hright⟩

/-- A step is followed by a step of an equivalent term. -/
theorem Alpha.step {t t' u : Term} (h : Alpha t u) (hstep : t.step? = some t') :
    ∃ u', u.step? = some u' ∧ Alpha t' u' := by
  obtain ⟨path, hfirst, hcontract⟩ := step?_eq_some.mp hstep
  obtain ⟨u', hcontract', halpha⟩ := hcontract.alpha h
  rw [AlphaBelow.firstRedex_eq h] at hfirst
  exact ⟨u', step?_eq_some.mpr ⟨path, hfirst, hcontract'⟩, halpha⟩

/-- Equivalent terms take equivalent steps, or no step. -/
theorem Alpha.step_rel {t u : Term} (h : Alpha t u) : Option.Rel Alpha t.step? u.step? := by
  cases hstep : t.step? with
  | some t' =>
    obtain ⟨u', hstep', halpha⟩ := h.step hstep
    rw [hstep']
    exact .some halpha
  | none =>
    have hnormal : u.step? = none := by
      rw [step?_eq_none, ← firstRedex_eq_none_iff, ← AlphaBelow.firstRedex_eq h,
        firstRedex_eq_none_iff]
      exact step?_eq_none.mp hstep
    rw [hnormal]
    exact .none

/-- A run is followed by a run of an equivalent term, step by step. -/
theorem Run.alpha {t u result : Term} {earlier : List Term} (hrun : Run t earlier result)
    (h : Alpha t u) :
    ∃ earlier' result', Run u earlier' result' ∧ List.Forall₂ Alpha earlier earlier' ∧
      Alpha result result' := by
  induction hrun generalizing u with
  | @normal t done =>
    have hrel := h.step_rel
    rw [done] at hrel
    cases hstep : u.step? with
    | none => exact ⟨[], u, .normal hstep, .nil, h⟩
    | some _ =>
      rw [hstep] at hrel
      cases hrel
  | @step t next result earlier taken _ ih =>
    obtain ⟨next', taken', halpha⟩ := h.step taken
    obtain ⟨earlier', result', hrun', hearlier, hresult⟩ := ih halpha
    exact ⟨u :: earlier', result', .step taken' hrun', .cons h hearlier, hresult⟩

/-- Two evaluations of alpha-equivalent terms agree: the next redex is at the same path, the next
terms are equivalent or there is none, and within any budget either both return after runs that are
equivalent term by term, and trace these runs, or no run is short enough and both end with the same
fault of the budget. -/
theorem evaluate_alpha_invariant {t u : Term} (h : Alpha t u) :
    t.redexPath = u.redexPath ∧ Option.Rel Alpha t.step? u.step? ∧
      ∀ budget : Int,
        (∃ earlier earlier' result result', Run t earlier result ∧ Run u earlier' result' ∧
          List.Forall₂ Alpha earlier earlier' ∧ Alpha result result' ∧
          t.evaluate budget = .ok result ∧ u.evaluate budget = .ok result' ∧
          t.trace budget = .ok (traceOf earlier result) ∧
          u.trace budget = .ok (traceOf earlier' result')) ∨
        (∃ fault, ((budget < 0 ∧ fault = .defect (.negativeBudget budget)) ∨
            (0 ≤ budget ∧ fault.Reports (.outOfSteps budget))) ∧
          (∀ earlier result, Run t earlier result → budget ≤ earlier.length) ∧
          t.evaluate budget = .error fault ∧ u.evaluate budget = .error fault ∧
          t.trace budget = .error fault ∧ u.trace budget = .error fault) := by
  have hpath : t.redexPath = u.redexPath := by
    rw [redexPath_eq, redexPath_eq, AlphaBelow.firstRedex_eq h]
  refine ⟨hpath, h.step_rel, fun budget => ?_⟩
  by_cases hshort : ∃ earlier result, Run t earlier result ∧ earlier.length < budget
  · obtain ⟨earlier, result, hrun, hlength⟩ := hshort
    obtain ⟨earlier', result', hrun', hearlier, hresult⟩ := hrun.alpha h
    have hok := hrun.evaluate hlength
    have hok' := hrun'.evaluate (hearlier.length_eq ▸ hlength)
    exact .inl ⟨earlier, earlier', result, result', hrun, hrun', hearlier, hresult, hok.1, hok'.1,
      hok.2, hok'.2⟩
  · have hlong : ∀ earlier result, Run t earlier result → budget ≤ earlier.length := by
      intro earlier result hrun
      exact Int.not_lt.mp fun hlength => hshort ⟨earlier, result, hrun, hlength⟩
    have hlong' : ∀ earlier result, Run u earlier result → budget ≤ earlier.length := by
      intro earlier' result' hrun'
      obtain ⟨earlier, result, hrun, hearlier, -⟩ := hrun'.alpha (alpha_equivalence.symm h)
      exact hearlier.length_eq ▸ hlong earlier result hrun
    have hfault := evaluate_of_no_run hlong
    have hfault' := evaluate_of_no_run hlong'
    exact .inr ⟨budgetFault budget, budgetFault_cases budget, hlong, hfault.1, hfault'.1, hfault.2,
      hfault'.2⟩

/-- Two copies of one abstraction, applied to a variable that the parameter of the first copy would
capture: the first has to be renamed, and the second has not. -/
theorem evaluate_alpha_invariant_renamed :
    let t := app (abs "x" (abs "y" (app (var "x") (var "y")))) (var "y")
    let u := app (abs "x" (abs "z" (app (var "x") (var "z")))) (var "y")
    Alpha t u ∧ t.redexPath = u.redexPath ∧ Option.Rel Alpha t.step? u.step? ∧
      t.evaluate 3 = .ok (abs "y'" (app (var "y") (var "y'"))) ∧
      u.evaluate 3 = .ok (abs "z" (app (var "y") (var "z"))) := by
  intro t u
  have halpha : Alpha t u := by decide
  have hinvariant := evaluate_alpha_invariant halpha
  have hrun : Run t [t] (abs "y'" (app (var "y") (var "y'"))) :=
    .step (by decide +kernel) (.normal (by decide +kernel))
  have hrun' : Run u [u] (abs "z" (app (var "y") (var "z"))) :=
    .step (by decide +kernel) (.normal (by decide +kernel))
  exact ⟨halpha, hinvariant.1, hinvariant.2.1, (hrun.evaluate (by decide)).1,
    (hrun'.evaluate (by decide)).1⟩

end UntypedLambda.Term
