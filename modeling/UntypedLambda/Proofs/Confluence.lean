import UntypedLambda.Proofs.Alpha
import UntypedLambda.Proofs.Evaluation
import UntypedLambda.Proofs.Nameless.Reduction

/-!
# Normal forms do not depend on the order of contraction

Contractions of a named term are contractions of its nameless form, and every contraction of the
nameless form is one of the named term. So runs of contractions can be joined up to the names of
parameters, and whatever evaluation returns is the only normal form, in whatever order redexes are
contracted.
-/

namespace UntypedLambda.Term

open Relation (ReflTransGen)

/-- A contraction contracts the nameless form. -/
theorem ContractsAt.nameless {path : Path} {t u : Term} (h : ContractsAt path t u)
    (binders : List String) : Nameless.Beta (t.nameless binders) (u.nameless binders) := by
  induction h generalizing binders with
  | root param body argument =>
    rw [nameless_subst_param]
    exact .contract _ _
  | abs param _ ih => exact .abs (ih (param :: binders))
  | left right _ ih => exact .left _ (ih binders)
  | right left _ ih => exact .right _ (ih binders)

/-- A contraction of the nameless form contracts the term. -/
theorem exists_contractsAt_of_beta {t : Term} {binders : List String} {m : Nameless}
    (h : Nameless.Beta (t.nameless binders) m) :
    ∃ path u, ContractsAt path t u ∧ u.nameless binders = m := by
  induction t generalizing binders m with
  | var name =>
    rcases nameless_var_cases binders name with ⟨index, hvar⟩ | hvar <;>
      rw [hvar] at h <;> cases h
  | abs param body ih =>
    rw [nameless] at h
    cases h with
    | abs step =>
      obtain ⟨path, body', hbody, rfl⟩ := ih step
      exact ⟨0 :: path, abs param body', .abs param hbody, rfl⟩
  | app left right ihl ihr =>
    rw [nameless] at h
    generalize hleft : left.nameless binders = nleft at h
    cases h with
    | contract nbody _ =>
      obtain ⟨param, body, rfl, rfl⟩ := eq_abs_of_nameless hleft
      exact ⟨[], _, .root param body right, nameless_subst_param param body right binders⟩
    | left _ step =>
      obtain ⟨path, left', hcontract, rfl⟩ := ihl (hleft ▸ step)
      exact ⟨0 :: path, app left' right, .left right hcontract, rfl⟩
    | right _ step =>
      obtain ⟨path, right', hcontract, rfl⟩ := ihr step
      exact ⟨1 :: path, app left right', .right left hcontract, by rw [nameless, hleft]⟩

/-- A run of contractions contracts the nameless form. -/
theorem betas_of_contracts {t u : Term} (h : ReflTransGen Contracts t u) :
    ReflTransGen Nameless.Beta (t.nameless []) (u.nameless []) := by
  refine h.lift (Term.nameless []) fun a b hcontract => ?_
  obtain ⟨path, hpath⟩ := contracts_iff.mp hcontract
  exact hpath.nameless []

/-- A run of contractions of the nameless form contracts the term. -/
theorem exists_contracts_of_betas {t : Term} {m : Nameless}
    (h : ReflTransGen Nameless.Beta (t.nameless []) m) :
    ∃ u, ReflTransGen Contracts t u ∧ u.nameless [] = m := by
  induction h with
  | refl => exact ⟨t, .refl, rfl⟩
  | tail _ step ih =>
    obtain ⟨u, hu, rfl⟩ := ih
    obtain ⟨path, v, hcontract, rfl⟩ := exists_contractsAt_of_beta step
    exact ⟨v, hu.tail (contracts_iff.mpr ⟨path, hcontract⟩), rfl⟩

/-- Runs of contractions from one term can be continued to alpha-equivalent terms. -/
theorem contracts_confluent {t u v : Term} (hu : ReflTransGen Contracts t u)
    (hv : ReflTransGen Contracts t v) :
    ∃ u' v', ReflTransGen Contracts u u' ∧ ReflTransGen Contracts v v' ∧ Alpha u' v' := by
  obtain ⟨m, hum, hvm⟩ := Nameless.confluent (betas_of_contracts hu) (betas_of_contracts hv)
  obtain ⟨u', hu', rfl⟩ := exists_contracts_of_betas hum
  obtain ⟨v', hv', hsame⟩ := exists_contracts_of_betas hvm
  exact ⟨u', v', hu', hv', alpha_iff.mpr hsame.symm⟩

/-- Nothing else can be reached from a term without redexes. -/
theorem Normal.eq_of_contracts {t u : Term} (h : Normal t) (hu : ReflTransGen Contracts t u) :
    u = t := by
  rcases hu.cases_head with rfl | ⟨v, hstep, -⟩
  · rfl
  · exact absurd hstep h.not_contracts

/-- A run to a normal form is a run of contractions. -/
theorem Run.contracts {t result : Term} {earlier : List Term} (h : Run t earlier result) :
    ReflTransGen Contracts t result := by
  induction h with
  | normal _ => exact .refl
  | step taken _ ih =>
    obtain ⟨path, -, hcontract⟩ := step?_eq_some.mp taken
    exact .head (contracts_iff.mpr ⟨path, hcontract⟩) ih

/-- Terms without redexes that one term contracts to are alpha-equivalent. -/
theorem Normal.alpha_of_contracts {t u v : Term} (hu : Normal u) (hv : Normal v)
    (htu : ReflTransGen Contracts t u) (htv : ReflTransGen Contracts t v) : Alpha u v := by
  obtain ⟨u', v', hu', hv', halpha⟩ := contracts_confluent htu htv
  obtain rfl := hu.eq_of_contracts hu'
  obtain rfl := hv.eq_of_contracts hv'
  exact halpha

/-- Two runs of contractions, of any redexes in any order, can be continued to alpha-equivalent
terms; and if the first of them ends in a term without redexes, that term is alpha-equivalent to
whatever evaluation returns within any budget. -/
theorem normal_form_unique {t u v : Term} (hu : ReflTransGen Contracts t u)
    (hv : ReflTransGen Contracts t v) :
    (∃ u' v', ReflTransGen Contracts u u' ∧ ReflTransGen Contracts v v' ∧ Alpha u' v') ∧
      ∀ budget result, t.evaluate budget = .ok result → Normal u → Alpha u result := by
  refine ⟨contracts_confluent hu hv, fun budget result hresult hnormal => ?_⟩
  obtain ⟨earlier, -, hrun⟩ := run_of_evaluate hresult
  exact hnormal.alpha_of_contracts hrun.normal_result hu hrun.contracts

/-- The parameter is renamed if the outer redex is contracted first, and it is kept if the argument
is contracted first, as evaluation does. -/
theorem normal_form_unique_renamed :
    let inner := abs "y" (app (var "x") (var "y"))
    let t := app (abs "x" inner) (app (abs "w" (var "z")) (var "y"))
    let u := abs "y'" (app (var "z") (var "y'"))
    let v := app (abs "x" inner) (var "z")
    (∃ u' v', ReflTransGen Contracts u u' ∧ ReflTransGen Contracts v v' ∧ Alpha u' v') ∧
      t.evaluate 3 = .ok (abs "y" (app (var "z") (var "y"))) ∧
      Alpha u (abs "y" (app (var "z") (var "y"))) := by
  intro inner t u v
  let between := abs "y'" (app (app (abs "w" (var "z")) (var "y")) (var "y'"))
  have houter : Contracts t between := ⟨[], by decide +kernel⟩
  have hinner : Contracts between u := ⟨[0, 0], by decide +kernel⟩
  have hargument : Contracts t v := ⟨[1], by decide +kernel⟩
  have hrun : Run t [t, v] (abs "y" (app (var "z") (var "y"))) :=
    .step (by decide +kernel) (.step (by decide +kernel) (.normal (by decide +kernel)))
  have hresult := (hrun.evaluate (show ([t, v].length : Int) < 3 by decide)).1
  have hunique := normal_form_unique (.tail (.single houter) hinner) (.single hargument)
  exact ⟨hunique.1, hresult, hunique.2 3 _ hresult (normal_of_firstRedex rfl)⟩

end UntypedLambda.Term
