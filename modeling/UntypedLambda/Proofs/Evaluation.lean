import UntypedLambda.Proofs.Redex
import UntypedLambda.Proofs.Report
import UntypedLambda.Term.Evaluation

/-!
# Runs to a normal form

A run leads from a term to its normal form and knows the terms on the way. A budget finds the
normal form exactly if the run has fewer steps than the budget; evaluation and traces within a
budget are read off the run.
-/

namespace UntypedLambda.Term

/-- A run to a normal form. The terms that take a step on the way are listed in order. -/
inductive Run : Term → List Term → Term → Prop where
  /-- A term that takes no step is its own normal form. -/
  | normal {t : Term} (done : t.step? = none) : Run t [] t
  /-- A term that takes a step has the normal form of the next one. -/
  | step {t next result : Term} {earlier : List Term} (taken : t.step? = some next)
      (rest : Run next earlier result) : Run t (t :: earlier) result

/-- The trace of a run: its terms and the normal form, as texts. -/
def traceOf (earlier : List Term) (result : Term) : Trace :=
  ⟨result, (earlier ++ [result]).map render⟩

/-- A run ends in a term without redexes. -/
theorem Run.normal_result {t result : Term} {earlier : List Term} (h : Run t earlier result) :
    Normal result := by
  induction h with
  | normal done => exact step?_eq_none.mp done
  | step _ _ ih => exact ih

/-- A search finds what the run comes to if the budget is larger than the number of steps. -/
theorem Run.search {t result : Term} {earlier : List Term} (h : Run t earlier result) {budget : Nat}
    (hbudget : earlier.length < budget) :
    t.normalize? budget = some result ∧ t.trace? budget = some (traceOf earlier result) := by
  induction h generalizing budget with
  | @normal t done =>
    obtain ⟨budget, rfl⟩ := Nat.exists_eq_succ_of_ne_zero (Nat.ne_zero_of_lt hbudget)
    rw [normalize?, trace?, done]
    exact ⟨rfl, rfl⟩
  | @step t next result earlier taken _ ih =>
    obtain ⟨budget, rfl⟩ := Nat.exists_eq_succ_of_ne_zero (Nat.ne_zero_of_lt hbudget)
    have hless : earlier.length < budget := by simpa using hbudget
    have hrest := ih hless
    rw [normalize?, trace?, taken]
    dsimp only
    rw [hrest.1, hrest.2]
    exact ⟨rfl, rfl⟩

/-- A search that finds something finds what a run comes to that is short enough. -/
theorem run_of_normalize? {t result : Term} {budget : Nat}
    (h : t.normalize? budget = some result) :
    ∃ earlier, earlier.length < budget ∧ Run t earlier result := by
  induction budget generalizing t with
  | zero => cases h
  | succ budget ih =>
    rw [normalize?] at h
    cases hstep : t.step? with
    | none =>
      rw [hstep] at h
      obtain rfl := Option.some.inj h
      exact ⟨[], Nat.succ_pos budget, .normal hstep⟩
    | some next =>
      rw [hstep] at h
      obtain ⟨earlier, hlength, hrun⟩ := ih h
      exact ⟨t :: earlier, Nat.succ_lt_succ hlength, .step hstep hrun⟩

/-- A search for a trace succeeds exactly if the search for a normal form does. -/
theorem trace?_eq_none {t : Term} {budget : Nat} :
    t.trace? budget = none ↔ t.normalize? budget = none := by
  induction budget generalizing t with
  | zero => rw [trace?, normalize?]; simp
  | succ budget ih =>
    rw [normalize?, trace?]
    cases t.step? with
    | none => simp
    | some next =>
      dsimp only
      rw [← ih]
      cases next.trace? budget <;> simp

/-- Within a budget below zero, nothing is looked for. -/
theorem withinBudget_neg {α : Type} (search : Nat → Option α) {budget : Int} (h : budget < 0) :
    withinBudget search budget = .error (.defect (.negativeBudget budget)) := by
  rw [withinBudget, if_pos h]

/-- Within a budget, the search has that many tries. -/
theorem withinBudget_of_nonneg {α : Type} (search : Nat → Option α) {budget : Int}
    (h : 0 ≤ budget) :
    withinBudget search budget =
      match search budget.toNat with
      | some found => .ok found
      | none => .error (Problem.outOfSteps budget).fault := by
  cases hsearch : search budget.toNat <;>
    rw [withinBudget, if_neg (Int.not_lt.mpr h), hsearch]

/-- The fault that a budget leads to if no run is short enough. -/
def budgetFault (budget : Int) : Fault :=
  if budget < 0 then .defect (.negativeBudget budget) else (Problem.outOfSteps budget).fault

/-- The fault of a budget is the defect of a negative budget, or the report of running out. -/
theorem budgetFault_cases (budget : Int) :
    (budget < 0 ∧ budgetFault budget = .defect (.negativeBudget budget)) ∨
      (0 ≤ budget ∧ (budgetFault budget).Reports (.outOfSteps budget)) := by
  unfold budgetFault
  rcases Int.lt_or_le budget 0 with hneg | hnonneg
  · rw [if_pos hneg]
    exact .inl ⟨hneg, rfl⟩
  · rw [if_neg (Int.not_lt.mpr hnonneg)]
    exact .inr ⟨hnonneg, Problem.outOfSteps_reports budget⟩

/-- A run that is short enough is found and traced. -/
theorem Run.evaluate {t result : Term} {earlier : List Term} (h : Run t earlier result)
    {budget : Int} (hbudget : earlier.length < budget) :
    t.evaluate budget = .ok result ∧ t.trace budget = .ok (traceOf earlier result) := by
  have hnonneg : 0 ≤ budget := by omega
  have hless : earlier.length < budget.toNat := by omega
  have hsearch := h.search hless
  unfold Term.evaluate Term.trace
  rw [withinBudget_of_nonneg _ hnonneg, withinBudget_of_nonneg _ hnonneg, hsearch.1, hsearch.2]
  exact ⟨rfl, rfl⟩

/-- Evaluation ends with the fault of the budget if no run is short enough. -/
theorem evaluate_of_no_run {t : Term} {budget : Int}
    (h : ∀ earlier result, Run t earlier result → budget ≤ earlier.length) :
    t.evaluate budget = .error (budgetFault budget) ∧
      t.trace budget = .error (budgetFault budget) := by
  unfold evaluate trace budgetFault
  rcases Int.lt_or_le budget 0 with hneg | hnonneg
  · rw [if_pos hneg, withinBudget_neg _ hneg, withinBudget_neg _ hneg]
    exact ⟨rfl, rfl⟩
  · have hsearch : t.normalize? budget.toNat = none := by
      cases hfound : t.normalize? budget.toNat with
      | none => rfl
      | some result =>
        obtain ⟨earlier, hlength, hrun⟩ := run_of_normalize? hfound
        have hlong := h earlier result hrun
        omega
    rw [if_neg (Int.not_lt.mpr hnonneg), withinBudget_of_nonneg _ hnonneg,
      withinBudget_of_nonneg _ hnonneg, hsearch, trace?_eq_none.mpr hsearch]
    exact ⟨rfl, rfl⟩

/-- What evaluation returns is what a run comes to that is short enough. -/
theorem run_of_evaluate {t result : Term} {budget : Int} (h : t.evaluate budget = .ok result) :
    ∃ earlier, earlier.length < budget ∧ Run t earlier result := by
  by_contra hno
  have hlong : ∀ earlier found, Run t earlier found → budget ≤ earlier.length := by
    intro earlier found hrun
    by_contra hshort
    have hok := (hrun.evaluate (Int.not_le.mp hshort)).1
    rw [h] at hok
    obtain rfl := Except.ok.inj hok
    exact hno ⟨earlier, Int.not_le.mp hshort, hrun⟩
  rw [(evaluate_of_no_run hlong).1] at h
  cases h

end UntypedLambda.Term
