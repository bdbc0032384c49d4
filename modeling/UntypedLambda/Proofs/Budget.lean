import UntypedLambda.Calculus
import UntypedLambda.Proofs.Evaluation

/-!
# What a budget is enough for

Evaluation returns a term exactly if fewer steps than the budget lead to it and it takes no step
itself. A trace is returned exactly when the term is, and lists the texts of the terms on the way.
Hence a larger budget changes no result, and a result is its own. A text is evaluated as the term
that it spells, within the budget that is given for it, or else that of the calculus.
-/

namespace UntypedLambda

namespace Term

/-- The term after so many steps, if so many can be taken. -/
def after? : Nat → Term → Option Term
  | 0, t => some t
  | count + 1, t => t.step?.bind (after? count)

/-- Whether so many steps lead to a term that takes no step. -/
def FinishesIn (t : Term) (count : Nat) (result : Term) : Prop :=
  t.after? count = some result ∧ result.step? = none

/-- A run has as many steps as it lists terms before its result. -/
theorem Run.finishesIn {t result : Term} {earlier : List Term} (h : Run t earlier result) :
    t.FinishesIn earlier.length result := by
  induction h with
  | normal done => exact ⟨rfl, done⟩
  | @step t next result earlier taken _ ih =>
    refine ⟨?_, ih.2⟩
    rw [List.length_cons, after?, taken]
    exact ih.1

/-- Steps to a term that takes no step are a run. -/
theorem FinishesIn.exists_run {t result : Term} {count : Nat} (h : t.FinishesIn count result) :
    ∃ earlier, earlier.length = count ∧ Run t earlier result := by
  obtain ⟨hsteps, done⟩ := h
  induction count generalizing t with
  | zero =>
    obtain rfl := Option.some.inj hsteps
    exact ⟨[], rfl, .normal done⟩
  | succ count ih =>
    obtain ⟨next, taken, hrest⟩ := Option.bind_eq_some_iff.mp hsteps
    obtain ⟨earlier, hlength, hrun⟩ := ih hrest
    exact ⟨t :: earlier, congrArg Nat.succ hlength, .step taken hrun⟩

/-- A run lists the term after each number of steps. -/
theorem Run.getElem?_terms {t result : Term} {earlier : List Term} (h : Run t earlier result)
    {index : Nat} (hindex : index ≤ earlier.length) :
    ∃ u, t.after? index = some u ∧ (earlier ++ [result])[index]? = some u := by
  induction h generalizing index with
  | @normal t done =>
    obtain rfl := Nat.le_zero.mp hindex
    exact ⟨t, rfl, rfl⟩
  | @step t next result earlier taken _ ih =>
    cases index with
    | zero => exact ⟨t, rfl, rfl⟩
    | succ index =>
      obtain ⟨u, hafter, hlisted⟩ := ih (Nat.le_of_succ_le_succ hindex)
      refine ⟨u, ?_, hlisted⟩
      rw [after?, taken]
      exact hafter

/-- Evaluation returns what fewer steps than the budget lead to. -/
theorem evaluate_eq_ok_iff {t result : Term} {budget : Int} :
    t.evaluate budget = .ok result ↔
      ∃ count : Nat, count < budget ∧ t.FinishesIn count result := by
  constructor
  · intro h
    obtain ⟨earlier, hlength, hrun⟩ := run_of_evaluate h
    exact ⟨earlier.length, hlength, hrun.finishesIn⟩
  · rintro ⟨count, hcount, hfinishes⟩
    obtain ⟨earlier, rfl, hrun⟩ := hfinishes.exists_run
    exact (hrun.evaluate hcount).1

/-- Without such steps, evaluation and trace end with the fault of the budget. -/
theorem evaluate_eq_error {t : Term} {budget : Int}
    (h : ¬∃ (count : Nat) (result : Term), count < budget ∧ t.FinishesIn count result) :
    t.evaluate budget = .error (budgetFault budget) ∧
      t.trace budget = .error (budgetFault budget) := by
  refine evaluate_of_no_run fun earlier result hrun => ?_
  by_contra hshort
  exact h ⟨earlier.length, result, Int.not_le.mp hshort, hrun.finishesIn⟩

/-- Evaluation ends with no other fault than that of the budget. -/
theorem eq_budgetFault {t : Term} {budget : Int} {fault : Fault}
    (h : t.evaluate budget = .error fault) : fault = budgetFault budget := by
  by_cases hfinishes : ∃ (count : Nat) (result : Term),
      count < budget ∧ t.FinishesIn count result
  · obtain ⟨count, result, hcount, hresult⟩ := hfinishes
    nomatch (evaluate_eq_ok_iff.mpr ⟨count, hcount, hresult⟩).symm.trans h
  · exact Except.error.inj (h.symm.trans (evaluate_eq_error hfinishes).1)

/-- A budget below zero is a defect. -/
theorem evaluate_of_neg (t : Term) {budget : Int} (h : budget < 0) :
    t.evaluate budget = .error (.defect (.negativeBudget budget)) :=
  withinBudget_neg _ h

/-- A budget that is not enough is reported. -/
theorem evaluate_ranOut {t : Term} {budget : Int} (hnonneg : 0 ≤ budget)
    (h : ¬∃ (count : Nat) (result : Term), count < budget ∧ t.FinishesIn count result) :
    ∃ fault, fault.Reports (.outOfSteps budget) ∧ t.evaluate budget = .error fault := by
  refine ⟨_, ?_, (evaluate_eq_error h).1⟩
  rcases budgetFault_cases budget with ⟨hneg, -⟩ | ⟨-, hreports⟩
  · omega
  · exact hreports

/-- With a result, the trace has it and lists the texts of the terms up to it. -/
theorem FinishesIn.trace {t result : Term} {count : Nat} {budget : Int}
    (h : t.FinishesIn count result) (hcount : count < budget) :
    ∃ steps, t.trace budget = .ok ⟨result, steps⟩ ∧ steps.length = count + 1 ∧
      ∀ index ≤ count, ∃ u, t.after? index = some u ∧ steps[index]? = some u.render := by
  obtain ⟨earlier, rfl, hrun⟩ := h.exists_run
  refine ⟨_, (hrun.evaluate hcount).2, ?_, fun index hindex => ?_⟩
  · rw [List.length_map, List.length_append, List.length_singleton]
  · obtain ⟨u, hafter, hlisted⟩ := hrun.getElem?_terms hindex
    refine ⟨u, hafter, ?_⟩
    rw [List.getElem?_map, hlisted]
    rfl

/-- Evaluation and trace return the same term or end with the same fault. -/
theorem trace_cases (t : Term) (budget : Int) :
    (∃ trace, t.trace budget = .ok trace ∧ t.evaluate budget = .ok trace.result) ∨
      ∃ fault, t.trace budget = .error fault ∧ t.evaluate budget = .error fault := by
  by_cases h : ∃ (count : Nat) (result : Term), count < budget ∧ t.FinishesIn count result
  · obtain ⟨count, result, hcount, hfinishes⟩ := h
    obtain ⟨steps, htrace, -⟩ := hfinishes.trace hcount
    exact .inl ⟨_, htrace, evaluate_eq_ok_iff.mpr ⟨count, hcount, hfinishes⟩⟩
  · obtain ⟨hevaluate, htrace⟩ := evaluate_eq_error h
    exact .inr ⟨_, htrace, hevaluate⟩

/-- A trace ends with the text of its result. -/
theorem getLast?_steps {t : Term} {budget : Int} {trace : Trace} (h : t.trace budget = .ok trace) :
    trace.steps.getLast? = some trace.result.render := by
  rcases t.trace_cases budget with ⟨found, hfound, hevaluate⟩ | ⟨fault, hfault, -⟩
  · obtain rfl := Except.ok.inj (hfound.symm.trans h)
    obtain ⟨earlier, hlength, hrun⟩ := run_of_evaluate hevaluate
    have hsame := Except.ok.inj (hfound.symm.trans (hrun.evaluate hlength).2)
    rw [hsame, traceOf, List.map_append]
    exact List.getLast?_concat
  · nomatch hfault.symm.trans h

/-- A larger budget gives the same result and the same trace. -/
theorem evaluate_larger {t result : Term} {budget more : Int} (h : t.evaluate budget = .ok result)
    (hmore : budget ≤ more) :
    t.evaluate more = .ok result ∧ t.trace more = t.trace budget := by
  obtain ⟨earlier, hlength, hrun⟩ := run_of_evaluate h
  have hlarger := hrun.evaluate (Int.lt_of_lt_of_le hlength hmore)
  exact ⟨hlarger.1, hlarger.2.trans (hrun.evaluate hlength).2.symm⟩

/-- A result is its own result, within any budget but zero. -/
theorem evaluate_again {t result : Term} {budget other : Int} (h : t.evaluate budget = .ok result)
    (hother : 1 ≤ other) : result.evaluate other = .ok result := by
  obtain ⟨count, -, -, done⟩ := evaluate_eq_ok_iff.mp h
  exact evaluate_eq_ok_iff.mpr ⟨0, by omega, rfl, done⟩

/-- Evaluation and trace within a budget, told by the steps that a term takes. -/
structure ExactWithin (t : Term) (budget : Int) : Prop where
  /-- A budget below zero is a defect. -/
  negative : budget < 0 → t.evaluate budget = .error (.defect (.negativeBudget budget))
  /-- What is returned is what fewer steps than the budget lead to. -/
  returned : ∀ result, t.evaluate budget = .ok result ↔
    ∃ count : Nat, count < budget ∧ t.FinishesIn count result
  /-- If fewer steps than the budget lead to nothing, the budget has run out. -/
  ranOut : 0 ≤ budget →
    (¬∃ (count : Nat) (result : Term), count < budget ∧ t.FinishesIn count result) →
      ∃ fault, fault.Reports (.outOfSteps budget) ∧ t.evaluate budget = .error fault
  /-- A trace has the result of the evaluation, or fails as the evaluation does. -/
  traced : (∃ trace, t.trace budget = .ok trace ∧ t.evaluate budget = .ok trace.result) ∨
    ∃ fault, t.trace budget = .error fault ∧ t.evaluate budget = .error fault
  /-- A trace lists the texts of the term before and after every step. -/
  steps : ∀ (count : Nat) (result : Term), count < budget → t.FinishesIn count result →
    ∃ steps, t.trace budget = .ok ⟨result, steps⟩ ∧ steps.length = count + 1 ∧
      ∀ index ≤ count, ∃ u, t.after? index = some u ∧ steps[index]? = some u.render
  /-- A larger budget gives the same result and the same trace. -/
  larger : ∀ result, t.evaluate budget = .ok result → ∀ more, budget ≤ more →
    t.evaluate more = .ok result ∧ t.trace more = t.trace budget
  /-- A result is its own result, within any budget but zero. -/
  again : ∀ result, t.evaluate budget = .ok result → ∀ other, 1 ≤ other →
    result.evaluate other = .ok result

end Term

namespace Calculus

/-- A text that spells a term is evaluated as the term, within the budget that is given with it,
else the calculus's own, else the default one. -/
theorem evaluate_of_parse {text : String} {t : Term} (h : Term.parse text = .ok t)
    (own given : Option Int) :
    (ofBudget own).evaluate text given = t.evaluate (given.getD (own.getD 1000)) ∧
      (ofBudget own).trace text given = t.trace (given.getD (own.getD 1000)) := by
  unfold evaluate trace
  rw [h]
  cases given <;> exact ⟨rfl, rfl⟩

/-- A text that spells no term fails before the budget counts. -/
theorem evaluate_of_parse_error {text : String} {fault : Fault} (h : Term.parse text = .error fault)
    (own given : Option Int) :
    (ofBudget own).evaluate text given = .error fault ∧
      (ofBudget own).trace text given = .error fault := by
  unfold evaluate trace
  rw [h]
  exact ⟨rfl, rfl⟩

/-- Evaluation and trace of a term are told by the steps that it takes, whatever the budget; and
those of a text are those of the term that it spells. -/
theorem evaluate_exact :
    (∀ (t : Term) (budget : Int), t.ExactWithin budget) ∧
    ∀ (text : String) (own given : Option Int),
      (∀ t, Term.parse text = .ok t →
        (ofBudget own).evaluate text given = t.evaluate (given.getD (own.getD 1000)) ∧
          (ofBudget own).trace text given = t.trace (given.getD (own.getD 1000))) ∧
      ∀ fault, Term.parse text = .error fault →
        (ofBudget own).evaluate text given = .error fault ∧
          (ofBudget own).trace text given = .error fault := by
  refine ⟨fun t budget => ?_, fun text own given =>
    ⟨fun t h => evaluate_of_parse h own given, fun fault h => evaluate_of_parse_error h own given⟩⟩
  exact {
    negative := t.evaluate_of_neg
    returned := fun result => Term.evaluate_eq_ok_iff
    ranOut := Term.evaluate_ranOut
    traced := t.trace_cases budget
    steps := fun count result hcount hfinishes => hfinishes.trace hcount
    larger := fun result h more => Term.evaluate_larger h
    again := fun result h other => Term.evaluate_again h }

/-- A text that spells a term with two steps to its normal form: a budget of three that is given
with it is enough, and the calculus's own budget of two is not. -/
theorem evaluate_exact_two_steps :
    let text := "(\\x.x) ((\\y.y) z)"
    let t := Term.app (.abs "x" (.var "x")) (.app (.abs "y" (.var "y")) (.var "z"))
    Term.parse text = .ok t ∧ t.FinishesIn 2 (.var "z") ∧
      (ofBudget (some 2)).evaluate text (some 3) = .ok (.var "z") ∧
      (∃ steps, (ofBudget (some 2)).trace text (some 3) = .ok ⟨.var "z", steps⟩ ∧
        steps.length = 3) ∧
      ∃ fault, fault.Reports (.outOfSteps 2) ∧
        (ofBudget (some 2)).evaluate text none = .error fault := by
  intro text t
  have hsome : (Term.parse text).toOption = some t := by decide +kernel
  have hparse : Term.parse text = .ok t := Term.toOption_eq_some.mp hsome
  have hfinishes : t.FinishesIn 2 (.var "z") := ⟨by decide +kernel, by decide +kernel⟩
  have hgiven := (evaluate_exact.2 text (some 2) (some 3)).1 t hparse
  have hown := (evaluate_exact.2 text (some 2) none).1 t hparse
  have hthree := evaluate_exact.1 t 3
  have hsteps := hthree.steps 2 (.var "z") (by decide) hfinishes
  obtain ⟨steps, htrace, hlength, -⟩ := hsteps
  have htwo : ¬∃ (count : Nat) (result : Term), count < (2 : Int) ∧ t.FinishesIn count result := by
    rintro ⟨count, result, hcount, hresult⟩
    have hsmall : count = 0 ∨ count = 1 := by omega
    rcases hsmall with rfl | rfl
    · obtain rfl : t = result := Option.some.inj hresult.1
      exact absurd hresult.2 (by decide +kernel)
    · have hnext : t.after? 1 = some (.app (.abs "x" (.var "x")) (.var "z")) := by decide +kernel
      obtain rfl := Option.some.inj (hnext.symm.trans hresult.1)
      exact absurd hresult.2 (by decide +kernel)
  obtain ⟨fault, hreports, hfault⟩ := (evaluate_exact.1 t 2).ranOut (by decide) htwo
  refine ⟨hparse, hfinishes, ?_, ⟨steps, ?_, hlength⟩, fault, hreports, ?_⟩
  · exact hgiven.1.trans ((hthree.returned _).mpr ⟨2, by decide, hfinishes⟩)
  · exact hgiven.2.trans htrace
  · exact hown.1.trans hfault

end Calculus

end UntypedLambda
