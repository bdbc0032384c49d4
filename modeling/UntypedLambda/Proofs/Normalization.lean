import UntypedLambda.Proofs.Confluence
import UntypedLambda.Proofs.Nameless.Perpetuity
import UntypedLambda.Proofs.Occurrence
import UntypedLambda.Proofs.RecursiveStep

/-!
# What evaluation finds the normal form of

Evaluation reduces both nodes of an application before the application itself, so it contracts
innermost redexes only, and an argument that is going to be discarded is reduced before. Innermost
redexes do not meet, hence all runs that contract nothing else have the same length, and evaluation
returns exactly if one of them ends. If contractions of any redexes lead to a normal form,
evaluation need not return; it does if they are sparing, which means that no argument is discarded
unless all its runs of contractions end and nothing around it binds a name in it. Then no run of
contractions of any kind goes on for ever.
-/

namespace UntypedLambda.Term

open Relation (ReflTransGen)

/-- A contraction of a redex that has no redex in its nodes. -/
def Innermost (t u : Term) : Prop :=
  ∃ path left right, t.get path = .ok (app left right) ∧ Normal left ∧ Normal right ∧
    t.contractAt? path = some u

/-- A contraction that puts the argument into the body; or discards one whose runs of contractions
all end, and none of whose names is bound by an abstraction around the redex. -/
def Sparing (t u : Term) : Prop :=
  ∃ path binders param body argument,
    StandsAt (app (abs param body) argument) path binders t ∧ t.contractAt? path = some u ∧
      (param ∈ body.freeNames ∨
        (∀ name ∈ argument.freeNames, name ∉ binders) ∧
          ∃ bound, EndsWithin Contracts bound argument)

/-- The rules of contracting an innermost redex. -/
inductive ContractsInner : Term → Term → Prop where
  /-- The redex is the whole term. -/
  | root {param : String} {body argument : Term} (hleft : Normal (abs param body))
      (hright : Normal argument) :
      ContractsInner (app (abs param body) argument) (body.subst param argument)
  /-- The redex is in the body. -/
  | abs {body body' : Term} (param : String) (step : ContractsInner body body') :
      ContractsInner (abs param body) (abs param body')
  /-- The redex is in the left side. -/
  | left {left left' : Term} (right : Term) (step : ContractsInner left left') :
      ContractsInner (app left right) (app left' right)
  /-- The redex is in the right side. -/
  | right {right right' : Term} (left : Term) (step : ContractsInner right right') :
      ContractsInner (app left right) (app left right')

variable {t u v : Term} {bound : Nat}

/-- A contraction by these rules is one at a path to an innermost redex. -/
theorem ContractsInner.exists_path (h : ContractsInner t u) :
    ∃ path left right, t.get path = .ok (Term.app left right) ∧ Normal left ∧ Normal right ∧
      ContractsAt path t u := by
  induction h with
  | root hleft hright => exact ⟨[], _, _, rfl, hleft, hright, .root _ _ _⟩
  | abs param _ ih =>
    obtain ⟨path, left, right, hget, hleft, hright, hstep⟩ := ih
    exact ⟨0 :: path, left, right, get_cons_eq_ok.mpr ⟨_, node_abs _ _, hget⟩, hleft, hright,
      .abs param hstep⟩
  | left side _ ih =>
    obtain ⟨path, left, right, hget, hleft, hright, hstep⟩ := ih
    exact ⟨0 :: path, left, right, get_cons_eq_ok.mpr ⟨_, node_left _ _, hget⟩, hleft, hright,
      .left side hstep⟩
  | right side _ ih =>
    obtain ⟨path, left, right, hget, hleft, hright, hstep⟩ := ih
    exact ⟨1 :: path, left, right, get_cons_eq_ok.mpr ⟨_, node_right _ _, hget⟩, hleft, hright,
      .right side hstep⟩

/-- A contraction at a path to an innermost redex follows the rules. -/
theorem ContractsAt.inner {path : Path} {left right : Term} (h : ContractsAt path t u)
    (hget : t.get path = .ok (Term.app left right)) (hleft : Normal left) (hright : Normal right) :
    ContractsInner t u := by
  induction h with
  | root param body argument =>
    obtain ⟨rfl, rfl⟩ := Term.app.inj (Except.ok.inj hget)
    exact .root hleft hright
  | abs param _ ih =>
    obtain ⟨sub, hnode, hsub⟩ := get_cons_eq_ok.mp hget
    obtain rfl := Except.ok.inj ((node_abs param _).symm.trans hnode)
    exact .abs param (ih hsub)
  | left side _ ih =>
    obtain ⟨sub, hnode, hsub⟩ := get_cons_eq_ok.mp hget
    obtain rfl := Except.ok.inj ((node_left _ side).symm.trans hnode)
    exact .left side (ih hsub)
  | right side _ ih =>
    obtain ⟨sub, hnode, hsub⟩ := get_cons_eq_ok.mp hget
    obtain rfl := Except.ok.inj ((node_right side _).symm.trans hnode)
    exact .right side (ih hsub)

/-- The rules say what a contraction of an innermost redex does. -/
theorem innermost_iff : Innermost t u ↔ ContractsInner t u := by
  constructor
  · rintro ⟨path, left, right, hget, hleft, hright, hcontract⟩
    exact (contractAt?_iff.mp hcontract).inner hget hleft hright
  · intro h
    obtain ⟨path, left, right, hget, hleft, hright, hstep⟩ := h.exists_path
    exact ⟨path, left, right, hget, hleft, hright, contractAt?_iff.mpr hstep⟩

/-- A term without redexes has no innermost ones. -/
theorem Normal.not_contractsInner (h : Normal t) : ¬ContractsInner t u := by
  intro hstep
  obtain ⟨path, -, -, -, -, -, hcontract⟩ := hstep.exists_path
  exact h.not_contracts (contracts_iff.mpr ⟨path, hcontract⟩)

/-- Different innermost redexes can be contracted one after the other, in both orders. -/
theorem ContractsInner.diamond (hu : ContractsInner t u) (hv : ContractsInner t v) :
    u = v ∨ ∃ w, ContractsInner u w ∧ ContractsInner v w := by
  induction hu generalizing v with
  | root hleft hright =>
    cases hv with
    | root _ _ => exact .inl rfl
    | left _ step => exact absurd step hleft.not_contractsInner
    | right _ step => exact absurd step hright.not_contractsInner
  | abs param _ ih =>
    cases hv with
    | abs _ step =>
      rcases ih step with rfl | ⟨w, huw, hvw⟩
      · exact .inl rfl
      · exact .inr ⟨_, .abs param huw, .abs param hvw⟩
  | left right hstep ih =>
    cases hv with
    | root hleft _ => exact absurd hstep hleft.not_contractsInner
    | left _ step =>
      rcases ih step with rfl | ⟨w, huw, hvw⟩
      · exact .inl rfl
      · exact .inr ⟨_, .left right huw, .left right hvw⟩
    | right _ step => exact .inr ⟨_, .right _ step, .left _ hstep⟩
  | right left hstep ih =>
    cases hv with
    | root _ hright => exact absurd hstep hright.not_contractsInner
    | left _ step => exact .inr ⟨_, .left _ step, .right _ hstep⟩
    | right _ step =>
      rcases ih step with rfl | ⟨w, huw, hvw⟩
      · exact .inl rfl
      · exact .inr ⟨_, .right left huw, .right left hvw⟩

/-- A step contracts an innermost redex. -/
theorem innermost_of_step? (h : t.step? = some u) : Innermost t u := by
  obtain ⟨path, hfirst, hcontract⟩ := step?_eq_some.mp h
  have hsome := contractAt?_iff.mpr hcontract
  obtain ⟨redex, contractum, hget, hredex, -⟩ := contractAt?_eq_some.mp hsome
  obtain ⟨param, body, argument, rfl, rfl⟩ := contract?_eq_some.mp hredex
  have hnormal := normal_nodes_of_firstRedex hfirst hget
  exact ⟨path, _, _, hget, hnormal _ List.mem_cons_self, hnormal _ (by simp [nodes]), hsome⟩

/-- A step is a contraction. -/
theorem contracts_of_step? (h : t.step? = some u) : Contracts t u := by
  obtain ⟨path, -, -, -, -, -, hcontract⟩ := innermost_of_step? h
  exact ⟨path, hcontract⟩

/-- Evaluation returns if steps are of a kind whose runs end. -/
theorem exists_evaluate_of_endsWithin {step : Term → Term → Prop}
    (hstep : ∀ {t u : Term}, t.step? = some u → step t u) (h : EndsWithin step bound t) :
    ∃ (budget : Int) (result : Term), t.evaluate budget = .ok result := by
  have hrun : ∃ earlier result, Run t earlier result := by
    induction bound generalizing t with
    | zero =>
      cases hnext : t.step? with
      | none => exact ⟨[], t, .normal hnext⟩
      | some u => exact absurd (hstep hnext) (h u)
    | succ bound ih =>
      cases hnext : t.step? with
      | none => exact ⟨[], t, .normal hnext⟩
      | some u =>
        obtain ⟨earlier, result, hrest⟩ := ih (h u (hstep hnext))
        exact ⟨t :: earlier, result, .step hnext hrest⟩
  obtain ⟨earlier, result, hearlier⟩ := hrun
  exact ⟨earlier.length + 1, result, (hearlier.evaluate (Int.lt_succ _)).1⟩

/-- If contractions of innermost redexes lead to a normal form, there are only so many of them. -/
theorem exists_endsWithin_of_innermost (h : ReflTransGen Innermost t u) (hu : Normal u) :
    ∃ bound, EndsWithin Innermost bound t := by
  have hdiamond (t u v : Term) (htu : Innermost t u) (htv : Innermost t v) :
      u = v ∨ ∃ w, Innermost u w ∧ Innermost v w := by
    simp only [innermost_iff] at htu htv ⊢
    exact htu.diamond htv
  induction h using ReflTransGen.head_induction_on with
  | refl => exact ⟨0, fun v hstep => hu.not_contractsInner (innermost_iff.mp hstep)⟩
  | head hstep _ ih =>
    obtain ⟨bound, hends⟩ := ih
    exact ⟨bound + 1, .of_diamond hdiamond hstep hends⟩

/-- A run contracts innermost redexes. -/
theorem Run.innermost {result : Term} {earlier : List Term} (h : Run t earlier result) :
    ReflTransGen Innermost t result := by
  induction h with
  | normal _ => exact .refl
  | step taken _ ih => exact .head (innermost_of_step? taken) ih

/-- A term and its nameless form have runs of the same lengths. -/
theorem endsWithin_nameless_iff {binders : List String} :
    EndsWithin Nameless.Beta bound (t.nameless binders) ↔ EndsWithin Contracts bound t := by
  constructor
  · refine .of_follows (R := fun t m => m = t.nameless binders) ?_ rfl
    rintro t _ u rfl hstep
    obtain ⟨path, hcontract⟩ := contracts_iff.mp hstep
    exact ⟨_, hcontract.nameless binders, rfl⟩
  · refine .of_follows (R := fun m t => m = t.nameless binders) ?_ rfl
    rintro _ t _ rfl hstep
    obtain ⟨path, u, hcontract, rfl⟩ := exists_contractsAt_of_beta hstep
    exact ⟨u, contracts_iff.mpr ⟨path, hcontract⟩, rfl⟩

/-- The indices that occur in a nameless form are those that free names stand for. -/
theorem occurs_nameless_iff {binders : List String} {index : Nat} :
    (t.nameless binders).Occurs index ↔
      ∃ name ∈ t.freeNames, resolve binders name = .bound index := by
  induction t generalizing binders index with
  | var name =>
    have hvar : (resolve binders name).Occurs index ↔ resolve binders name = .bound index := by
      rcases nameless_var_cases binders name with ⟨other, hbound⟩ | hfree
      · rw [nameless] at hbound
        rw [hbound, Nameless.Occurs, Nameless.bound.injEq]
      · rw [nameless] at hfree
        rw [hfree, Nameless.Occurs]
        exact ⟨False.elim, Nameless.noConfusion⟩
    rw [nameless, hvar, freeNames]
    constructor
    · exact fun h => ⟨name, List.mem_singleton_self name, h⟩
    · rintro ⟨other, hother, h⟩
      obtain rfl := List.mem_singleton.mp hother
      exact h
  | abs param body ih =>
    have hbody : ((abs param body).nameless binders).Occurs index ↔
        ∃ name ∈ body.freeNames, enter param (resolve binders) name = .bound (index + 1) := by
      rw [← resolve_cons]
      exact ih
    rw [hbody]
    constructor
    · rintro ⟨name, hname, hentered⟩
      by_cases hparam : name = param
      · rw [enter, if_pos hparam] at hentered
        cases hentered
      · rw [enter, if_neg hparam] at hentered
        exact ⟨name, List.mem_filter.mpr ⟨hname, decide_eq_true hparam⟩,
          shift_injective hentered⟩
    · rintro ⟨name, hname, hresolve⟩
      obtain ⟨hbodyName, hparam⟩ := List.mem_filter.mp hname
      refine ⟨name, hbodyName, ?_⟩
      rw [enter, if_neg (of_decide_eq_true hparam), hresolve]
      rfl
  | app left right ihl ihr =>
    have hsides : ((app left right).nameless binders).Occurs index ↔
        (left.nameless binders).Occurs index ∨ (right.nameless binders).Occurs index := Iff.rfl
    rw [hsides, ihl, ihr, freeNames]
    simp only [List.mem_append, or_and_right, exists_or]

/-- No index occurs in the nameless form of a term if nothing outside binds one of its names. -/
theorem not_occurs_nameless {binders : List String} (h : ∀ name ∈ t.freeNames, name ∉ binders)
    (index : Nat) : ¬(t.nameless binders).Occurs index := by
  intro hoccurs
  obtain ⟨name, hname, hresolve⟩ := occurs_nameless_iff.mp hoccurs
  rw [resolve, List.idxOf?_eq_none_iff.mpr (h name hname)] at hresolve
  cases hresolve

/-- A sparing contraction is one of the nameless form, also below binders outside the term. -/
theorem StandsAt.spares {path : Path} {binders outer : List String} {param : String}
    {body argument : Term} (h : StandsAt (app (abs param body) argument) path binders t)
    (hstep : ContractsAt path t u)
    (hspared : param ∈ body.freeNames ∨
      (∀ name ∈ argument.freeNames, name ∉ binders ++ outer) ∧
        ∃ bound, EndsWithin Contracts bound argument) :
    Nameless.Spares (t.nameless outer) (u.nameless outer) := by
  induction h generalizing u outer with
  | here =>
    cases hstep with
    | root _ _ _ =>
      rw [nameless_subst_param]
      refine .contract ?_
      rcases hspared with hparam | ⟨hnames, bound, hends⟩
      · refine .inl (occurs_nameless_iff.mpr ⟨param, hparam, ?_⟩)
        rw [resolve_cons, enter, if_pos rfl]
      · exact .inr ⟨not_occurs_nameless hnames, bound, endsWithin_nameless_iff.mpr hends⟩
  | body param' _ ih =>
    cases hstep with
    | abs _ step =>
      rw [List.append_assoc, List.singleton_append] at hspared
      exact .abs (ih step hspared)
  | left right _ ih =>
    cases hstep with
    | left _ step => exact .left _ (ih step hspared)
  | right left _ ih =>
    cases hstep with
    | right _ step => exact .right _ (ih step hspared)

/-- A sparing contraction is one of the nameless form. -/
theorem Sparing.nameless (h : Sparing t u) : Nameless.Spares (t.nameless []) (u.nameless []) := by
  obtain ⟨path, binders, param, body, argument, hstands, hcontract, hspared⟩ := h
  refine hstands.spares (contractAt?_iff.mp hcontract) ?_
  rwa [List.append_nil]

/-- If sparing contractions lead to a normal form, no run of contractions goes on for ever. -/
theorem exists_endsWithin_of_sparing (h : ReflTransGen Sparing t u) (hu : Normal u) :
    ∃ bound, EndsWithin Contracts bound t := by
  have hnormal : EndsWithin Contracts 0 u := fun v hstep => hu.not_contracts hstep
  have hspares : ReflTransGen Nameless.Spares (t.nameless []) (u.nameless []) :=
    h.lift (Term.nameless []) fun _ _ => Sparing.nameless
  obtain ⟨bound, hends⟩ :=
    Nameless.ends_of_spares hspares ⟨0, endsWithin_nameless_iff.mpr hnormal⟩
  exact ⟨bound, endsWithin_nameless_iff.mp hends⟩

/-- Evaluation returns within some budget exactly if contractions of innermost redexes lead to a
normal form. If sparing contractions lead to one, in whatever order, it returns as well, and all
runs of contractions end. -/
theorem evaluate_normalizes (t : Term) :
    ((∃ (budget : Int) (result : Term), t.evaluate budget = .ok result) ↔
      ∃ u, ReflTransGen Innermost t u ∧ Normal u) ∧
    ∀ u, ReflTransGen Sparing t u → Normal u →
      (∃ bound, EndsWithin Contracts bound t) ∧
        ∃ (budget : Int) (result : Term), t.evaluate budget = .ok result := by
  refine ⟨⟨?_, ?_⟩, fun u hsparing hnormal => ?_⟩
  · rintro ⟨budget, result, hresult⟩
    obtain ⟨earlier, -, hrun⟩ := run_of_evaluate hresult
    exact ⟨result, hrun.innermost, hrun.normal_result⟩
  · rintro ⟨u, hinnermost, hnormal⟩
    obtain ⟨bound, hends⟩ := exists_endsWithin_of_innermost hinnermost hnormal
    exact exists_evaluate_of_endsWithin innermost_of_step? hends
  · obtain ⟨bound, hends⟩ := exists_endsWithin_of_sparing hsparing hnormal
    exact ⟨⟨bound, hends⟩, exists_evaluate_of_endsWithin contracts_of_step? hends⟩

/-- Contractions of outer redexes first, which are sparing: the argument that is discarded in the
end is a name, and all others are put into a body. -/
theorem evaluate_normalizes_outer_first :
    let first := abs "x" (abs "y" (var "x"))
    let t := app (abs "p" (app (app (var "p") (var "a")) (var "b"))) first
    ReflTransGen Sparing t (var "a") ∧ (∃ bound, EndsWithin Contracts bound t) ∧
      ∃ (budget : Int) (result : Term), t.evaluate budget = .ok result := by
  intro first t
  have hnormal : Normal (var "a") := normal_of_firstRedex rfl
  have hb : EndsWithin Contracts 0 (var "b") := fun u hstep =>
    (normal_of_firstRedex rfl).not_contracts hstep
  have hpair : Sparing t (app (app first (var "a")) (var "b")) :=
    ⟨[], [], "p", _, _, .here, by decide +kernel, .inl (by decide)⟩
  have hfirst : Sparing (app (app first (var "a")) (var "b"))
      (app (abs "y" (var "a")) (var "b")) :=
    ⟨[0], [], "x", _, _, .left _ .here, by decide +kernel, .inl (by decide)⟩
  have hsecond : Sparing (app (abs "y" (var "a")) (var "b")) (var "a") :=
    ⟨[], [], "y", _, _, .here, by decide +kernel, .inr ⟨fun _ _ => List.not_mem_nil, 0, hb⟩⟩
  have hsparing : ReflTransGen Sparing t (var "a") :=
    .head hpair (.head hfirst (.single hsecond))
  exact ⟨hsparing, (evaluate_normalizes t).2 _ hsparing hnormal⟩

/-- A term that steps to itself is not evaluated within any budget. -/
theorem not_run_of_step?_self (h : t.step? = some t) {earlier : List Term} {result : Term} :
    ¬Run t earlier result := by
  intro hrun
  induction earlier with
  | nil =>
    cases hrun with
    | normal done => nomatch h.symm.trans done
  | cons first earlier ih =>
    cases hrun with
    | step taken rest =>
      obtain rfl := Option.some.inj (h.symm.trans taken)
      exact ih rest

/-- Evaluation does not find all normal forms: an argument that goes on for ever is not discarded.
Neither does it find those that are reached when all arguments that are discarded are normal forms;
here the first contraction is sparing, and the others are of innermost redexes. -/
theorem evaluate_misses_normal_forms :
    let double := abs "x" (app (var "x") (var "x"))
    let t := app (abs "x" (var "y")) (app double double)
    let constant := abs "k" (var "z")
    let square := app (var "y") (var "y")
    let inner := app (abs "y" (app (var "x") square)) double
    let u := app (abs "x" inner) constant
    (t.contractAt? [] = some (var "y") ∧ Normal (var "y") ∧
      ∀ budget result, t.evaluate budget ≠ .ok result) ∧
    u.contractAt? [] = some (app (abs "y" (app constant square)) double) ∧
      (app (abs "y" (app constant square)) double).contractAt? [0, 0] =
        some (app (abs "y" (var "z")) double) ∧
      (app (abs "y" (var "z")) double).contractAt? [] = some (var "z") ∧
      Normal square ∧ Normal double ∧ Normal (var "z") ∧
      ∀ budget result, u.evaluate budget ≠ .ok result := by
  intro double t constant square inner u
  have ht : t.step? = some t := by decide +kernel
  let w := app (abs "x" (app (var "x") (app double double))) constant
  have hu : u.step? = some w := by decide +kernel
  have hw : w.step? = some w := by decide +kernel
  refine ⟨⟨by decide +kernel, normal_of_firstRedex rfl, fun budget result hresult => ?_⟩,
    by decide +kernel, by decide +kernel, by decide +kernel, normal_of_firstRedex rfl,
    normal_of_firstRedex rfl, normal_of_firstRedex rfl, fun budget result hresult => ?_⟩
  · obtain ⟨earlier, -, hrun⟩ := run_of_evaluate hresult
    exact not_run_of_step?_self ht hrun
  · obtain ⟨earlier, -, hrun⟩ := run_of_evaluate hresult
    cases hrun with
    | normal done => nomatch hu.symm.trans done
    | step taken rest =>
      obtain rfl := Option.some.inj (hu.symm.trans taken)
      exact not_run_of_step?_self hw rest

end UntypedLambda.Term
