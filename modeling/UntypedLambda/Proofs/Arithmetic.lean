import UntypedLambda.Proofs.Budget
import UntypedLambda.Proofs.ReachableSession
import UntypedLambda.Proofs.RecursiveStep

/-!
# Arithmetic of numerals

The arithmetic of the prelude takes numerals to numerals, in a number of steps that is known
beforehand. Both sides of an application are reduced before it is contracted, and so is the body of
an abstraction. Hence a sum or a product that has got only its first number is reduced as far as
possible, below the parameters that are still open, before the second number is put in. Steps in a
part of a term are steps of the whole, so each run is put together from short ones.
-/

namespace UntypedLambda

namespace Term

/-- Applies a term so often to an argument. -/
def applied (function argument : Term) : Nat → Term
  | 0 => argument
  | n + 1 => app function (applied function argument n)

section Steps

variable {t u v : Term} {j k : Nat}

/-- Numbers of steps add up. -/
theorem after?_add (t : Term) (j k : Nat) : t.after? (j + k) = (t.after? j).bind (after? k) := by
  induction j generalizing t with
  | zero => rw [Nat.zero_add, after?, Option.bind_some]
  | succ j ih =>
    rw [Nat.succ_add, after?, after?, Option.bind_assoc]
    congr 1
    exact funext ih

/-- Steps lead on from where steps have led. -/
theorem after?_trans (h : t.after? j = some u) (h' : u.after? k = some v) :
    t.after? (j + k) = some v := by
  rw [after?_add, h, Option.bind_some, h']

/-- A single step. -/
theorem after?_one (h : t.step? = some u) : t.after? 1 = some u := by
  rw [after?, h, Option.bind_some, after?]

/-- Steps of a part are steps of the whole, if each single one is. -/
theorem after?_within {whole : Term → Term}
    (hwhole : ∀ u v, u.step? = some v → (whole u).step? = some (whole v))
    (h : t.after? k = some u) : (whole t).after? k = some (whole u) := by
  induction k generalizing t with
  | zero =>
    obtain rfl := Option.some.inj h
    rfl
  | succ k ih =>
    obtain ⟨next, hstep, hrest⟩ := Option.bind_eq_some_iff.mp h
    rw [after?, hwhole _ _ hstep]
    exact ih hrest

/-- Steps of a body are steps of the abstraction. -/
theorem after?_abs (param : String) (h : t.after? k = some u) :
    (abs param t).after? k = some (abs param u) := by
  refine after?_within (fun u v hstep => ?_) h
  rw [step?_abs, hstep, Option.map_some]

/-- Steps of the left side are steps of the application. -/
theorem after?_left (right : Term) (h : t.after? k = some u) :
    (app t right).after? k = some (app u right) :=
  after?_within (fun _ _ => step?_app_left right) h

/-- Steps of the right side are steps of the application, if the left side takes none. -/
theorem after?_right {left : Term} (hleft : left.step? = none) (h : t.after? k = some u) :
    (app left t).after? k = some (app left u) :=
  after?_within (fun _ _ => step?_app_right hleft) h

/-- A term takes no more steps than lead to a term that takes none. -/
theorem FinishesIn.eq_of_finishesIn {other : Term} (h : t.FinishesIn j u)
    (hother : t.FinishesIn k other) : j = k := by
  have hle {j k : Nat} {u v : Term} (hu : t.FinishesIn j u) (hv : t.FinishesIn k v) : k ≤ j := by
    by_contra hless
    obtain ⟨more, rfl⟩ := Nat.exists_eq_add_of_lt (Nat.lt_of_not_le hless)
    have hnone : u.after? (more + 1) = none := by rw [after?, hu.2, Option.bind_none]
    have hsome := hv.1
    rw [Nat.add_assoc, after?_add, hu.1, Option.bind_some, hnone] at hsome
    cases hsome
  exact Nat.le_antisymm (hle hother h) (hle h hother)

end Steps

section Contraction

variable {function argument body : Term}

/-- An abstraction is applied to its argument if neither takes a step. -/
theorem after?_contract {param : String} (hbody : body.step? = none)
    (hargument : argument.step? = none) :
    (app (abs param body) argument).after? 1 = some (body.subst param argument) := by
  have habs : (abs param body).step? = none := by rw [step?_abs, hbody, Option.map_none]
  exact after?_one (step?_of_firstRedex (firstRedex_app_self habs hargument)
    (.root param body argument))

/-- A variable takes no step. -/
theorem step?_var (name : String) : (var name).step? = none :=
  step?_eq_none_iff_firstRedex.mpr rfl

/-- An application takes no step if neither side does and it is no redex. -/
theorem step?_app (hfunction : function.step? = none) (hargument : argument.step? = none)
    (hredex : (app function argument).isRedex = false) : (app function argument).step? = none := by
  rw [step?_eq_none_iff_firstRedex, firstRedex_app_self hfunction hargument, hredex,
    if_neg Bool.false_ne_true]

/-- Applying a term so often takes no step if the term and the argument take none and the term is
no abstraction. -/
theorem step?_applied (hfunction : function.step? = none) (hargument : argument.step? = none)
    (hredex : ∀ u, (app function u).isRedex = false) (n : Nat) :
    (applied function argument n).step? = none := by
  induction n with
  | zero => exact hargument
  | succ n ih => exact step?_app hfunction ih (hredex _)

/-- Steps of the argument are steps of what is applied to it. -/
theorem after?_applied {result : Term} {k : Nat} (hfunction : function.step? = none)
    (h : argument.after? k = some result) (n : Nat) :
    (applied function argument n).after? k = some (applied function result n) := by
  induction n with
  | zero => exact h
  | succ n ih => exact after?_right hfunction ih

/-- Applying so often and then so often again. -/
theorem applied_applied (function argument : Term) (j k : Nat) :
    applied function (applied function argument j) k = applied function argument (j + k) := by
  induction k with
  | zero => rfl
  | succ k ih => rw [applied, ih, Nat.add_succ, applied]

/-- Substituting in what is applied so often. -/
theorem subst_applied (function argument : Term) (n : Nat) (name : String) (new : Term) :
    (applied function argument n).subst name new =
      applied (function.subst name new) (argument.subst name new) n := by
  induction n with
  | zero => rfl
  | succ n ih => rw [applied, subst_app, ih, applied]

end Contraction

section Numeral

/-- A numeral applies its first parameter so often to the second. -/
theorem numeral_eq (n : Nat) :
    numeral n = abs "f" (abs "x" (applied (var "f") (var "x") n)) := by
  have hiterate : iterate "f" "x" n = applied (var "f") (var "x") n := by
    induction n with
    | zero => rfl
    | succ n ih => rw [iterate, applied, ih]
  rw [numeral, hiterate]

/-- The body of a numeral takes no step. -/
theorem step?_applied_var (n : Nat) : (applied (var "f") (var "x") n).step? = none :=
  step?_applied (step?_var "f") (step?_var "x") (fun _ => rfl) n

/-- A numeral takes no step. -/
theorem step?_numeral (n : Nat) : (numeral n).step? = none := by
  rw [numeral_eq, step?_abs, step?_abs, step?_applied_var]
  rfl

/-- No name is free in a numeral. -/
theorem freeNames_numeral (n : Nat) : (numeral n).freeNames = [] := by
  have hnames : ∀ name ∈ (applied (var "f") (var "x") n).freeNames, name = "f" ∨ name = "x" := by
    induction n with
    | zero => exact fun name hname => .inr (List.mem_singleton.mp hname)
    | succ n ih =>
      intro name hname
      rcases List.mem_cons.mp hname with hfunction | hrest
      · exact .inl hfunction
      · exact ih name hrest
  rw [numeral_eq, freeNames, freeNames, List.filter_filter, List.filter_eq_nil_iff]
  intro name hname
  rcases hnames name hname with rfl | rfl <;> decide

/-- A numeral is the numeral of its number. -/
theorem number?_numeral (n : Nat) : (numeral n).number? = some n := by
  have hiterations : (applied (var "f") (var "x") n).iterations? "f" "x" = some n := by
    induction n with
    | zero => rfl
    | succ n ih => rw [applied, iterations?, if_pos rfl, ih, Option.map_some]
  rw [numeral_eq, number?, if_neg (by decide), hiterations]

variable {function argument : Term}

/-- A numeral that is applied to a function is the function applied so often. -/
theorem after?_numeral_app (hfunction : function.step? = none) (hx : "x" ∉ function.freeNames)
    (n : Nat) :
    (app (numeral n) function).after? 1 = some (abs "x" (applied function (var "x") n)) := by
  have hbody : (abs "x" (applied (var "f") (var "x") n)).step? = none := by
    rw [step?_abs, step?_applied_var, Option.map_none]
  have hsubst : (abs "x" (applied (var "f") (var "x") n)).subst "f" function =
      abs "x" (applied function (var "x") n) := by
    rw [subst_abs_kept (by decide) (.inl hx), subst_applied, subst_var, subst_var, if_pos rfl,
      if_neg (by decide)]
  rw [numeral_eq, after?_contract hbody hfunction, hsubst]

/-- A function that is applied so often gets its argument. -/
theorem after?_applied_app (hfunction : function.step? = none)
    (hredex : ∀ u, (app function u).isRedex = false) (hx : "x" ∉ function.freeNames)
    (hargument : argument.step? = none) (n : Nat) :
    (app (abs "x" (applied function (var "x") n)) argument).after? 1 =
      some (applied function argument n) := by
  rw [after?_contract (step?_applied hfunction (step?_var "x") hredex n) hargument, subst_applied,
    subst_of_notMem hx, subst_var, if_pos rfl]

/-- A numeral that is applied to a function and an argument applies the function so often. -/
theorem after?_numeral_app_app (hfunction : function.step? = none)
    (hredex : ∀ u, (app function u).isRedex = false) (hx : "x" ∉ function.freeNames)
    (hargument : argument.step? = none) (n : Nat) :
    (app (app (numeral n) function) argument).after? 2 = some (applied function argument n) :=
  after?_trans (after?_left argument (after?_numeral_app hfunction hx n))
    (after?_applied_app hfunction hredex hx hargument n)

/-- Below the parameters of a numeral, a numeral applies them so often to a normal form. -/
theorem after?_numeral_parameters (hargument : argument.step? = none) (n : Nat) :
    (app (app (numeral n) (var "f")) argument).after? 2 = some (applied (var "f") argument n) :=
  after?_numeral_app_app (step?_var "f") (fun _ => rfl) (by decide) hargument n

/-- So many applications of a numeral take two steps each. -/
theorem after?_applied_numeral (m n : Nat) :
    (applied (app (numeral n) (var "f")) (var "x") m).after? (2 * m) =
      some (applied (var "f") (var "x") (m * n)) := by
  have hnumeral : (app (numeral n) (var "f")).after? 1 =
      some (abs "x" (applied (var "f") (var "x") n)) :=
    after?_numeral_app (step?_var "f") (by decide) n
  have habs : (abs "x" (applied (var "f") (var "x") n)).step? = none := by
    rw [step?_abs, step?_applied_var, Option.map_none]
  induction m with
  | zero => rw [Nat.mul_zero, Nat.zero_mul, after?, applied, applied]
  | succ m ih =>
    -- The numeral is applied first, then the rest is worked off, and only then it gets the rest.
    have hlast := after?_applied_app (step?_var "f") (fun _ => rfl) (by decide)
      (step?_applied_var (m * n)) n
    have hall := after?_trans (after?_left _ hnumeral)
      (after?_trans (after?_right habs ih) hlast)
    have hsteps : 2 * (m + 1) = 1 + (2 * m + 1) := by omega
    rw [applied_applied, ← Nat.succ_mul] at hall
    rw [hsteps]
    exact hall

end Numeral

section Runs

/-- A term evaluates to the numeral of a value, within exactly the budgets that allow for so many
steps and one more. -/
structure Computes (t : Term) (steps value : Nat) : Prop where
  /-- A larger budget than the steps is enough. -/
  evaluates : ∀ budget : Int, steps < budget → t.evaluate budget = .ok (numeral value)
  /-- No other budget is. -/
  exceeds : ∀ budget : Int, budget ≤ steps → t.evaluate budget = .error (budgetFault budget)
  /-- The value is read off the result. -/
  number : (numeral value).number? = some value

/-- A term computes the number whose numeral its steps lead to. -/
theorem computes_of_after? {t : Term} {steps value : Nat}
    (h : t.after? steps = some (numeral value)) : Computes t steps value where
  evaluates budget hbudget :=
    evaluate_eq_ok_iff.mpr ⟨steps, hbudget, h, step?_numeral value⟩
  exceeds budget hbudget := by
    refine (evaluate_eq_error fun ⟨count, result, hcount, hfinishes⟩ => ?_).1
    have hsame : steps = count := FinishesIn.eq_of_finishesIn ⟨h, step?_numeral value⟩ hfinishes
    omega
  number := number?_numeral value

/-- The successor of a numeral is the numeral of the next number. -/
theorem after?_successor (n : Nat) :
    (app Prelude.successor (numeral n)).after? 3 = some (numeral (n + 1)) := by
  have hcontract : (app Prelude.successor (numeral n)).after? 1 =
      some (abs "f" (abs "x" (app (var "f") (app (app (numeral n) (var "f")) (var "x"))))) := by
    rw [Prelude.successor, after?_contract (by decide +kernel) (step?_numeral n),
      subst_abs_closed _ (by decide) (freeNames_numeral n),
      subst_abs_closed _ (by decide) (freeNames_numeral n)]
    simp [subst_app, subst_var]
  have hbody := after?_abs "f" (after?_abs "x"
    (after?_right (step?_var "f") (after?_numeral_parameters (step?_var "x") n)))
  rw [numeral_eq (n + 1)]
  exact after?_trans hcontract hbody

/-- The sum of two numerals is the numeral of the sum. -/
theorem after?_sum (m n : Nat) :
    (app (app Prelude.sum (numeral m)) (numeral n)).after? 6 = some (numeral (m + n)) := by
  -- The second number is still a parameter while the first one is put in and worked off.
  let second : Term := app (app (var "n") (var "f")) (var "x")
  have hsecond : second.step? = none := by decide +kernel
  have happlied : (applied (var "f") second m).step? = none :=
    step?_applied (step?_var "f") hsecond (fun _ => rfl) m
  have hfirst : (app Prelude.sum (numeral m)).after? 1 =
      some (abs "n" (abs "f" (abs "x" (app (app (numeral m) (var "f")) second)))) := by
    rw [Prelude.sum, after?_contract (by decide +kernel) (step?_numeral m),
      subst_abs_closed _ (by decide) (freeNames_numeral m),
      subst_abs_closed _ (by decide) (freeNames_numeral m),
      subst_abs_closed _ (by decide) (freeNames_numeral m)]
    simp [second, subst_app, subst_var]
  have hopen := after?_abs "n" (after?_abs "f" (after?_abs "x"
    (after?_numeral_parameters hsecond m)))
  have hcontract :
      (app (abs "n" (abs "f" (abs "x" (applied (var "f") second m)))) (numeral n)).after? 1 =
        some (abs "f" (abs "x"
          (applied (var "f") (app (app (numeral n) (var "f")) (var "x")) m))) := by
    rw [after?_contract (by rw [step?_abs, step?_abs, happlied]; rfl) (step?_numeral n),
      subst_abs_closed _ (by decide) (freeNames_numeral n),
      subst_abs_closed _ (by decide) (freeNames_numeral n)]
    simp [second, subst_applied, subst_app, subst_var]
  have hlast := after?_abs "f" (after?_abs "x" (after?_applied (step?_var "f")
    (after?_numeral_parameters (step?_var "x") n) m))
  rw [applied_applied, Nat.add_comm n m, ← numeral_eq] at hlast
  exact after?_trans (after?_left _ (after?_trans hfirst hopen)) (after?_trans hcontract hlast)

/-- The product of two numerals is the numeral of the product. -/
theorem after?_product (m n : Nat) :
    (app (app Prelude.product (numeral m)) (numeral n)).after? (2 * m + 3) =
      some (numeral (m * n)) := by
  let second : Term := app (var "n") (var "f")
  have hsecond : second.step? = none := by decide +kernel
  have happlied : (applied second (var "x") m).step? = none :=
    step?_applied hsecond (step?_var "x") (fun _ => rfl) m
  have hfirst : (app Prelude.product (numeral m)).after? 1 =
      some (abs "n" (abs "f" (app (numeral m) second))) := by
    rw [Prelude.product, after?_contract (by decide +kernel) (step?_numeral m),
      subst_abs_closed _ (by decide) (freeNames_numeral m),
      subst_abs_closed _ (by decide) (freeNames_numeral m)]
    simp [second, subst_app, subst_var]
  have hopen := after?_abs "n" (after?_abs "f" (after?_numeral_app hsecond (by decide +kernel) m))
  have hcontract :
      (app (abs "n" (abs "f" (abs "x" (applied second (var "x") m)))) (numeral n)).after? 1 =
        some (abs "f" (abs "x" (applied (app (numeral n) (var "f")) (var "x") m))) := by
    rw [after?_contract (by rw [step?_abs, step?_abs, happlied]; rfl) (step?_numeral n),
      subst_abs_closed _ (by decide) (freeNames_numeral n),
      subst_abs_closed _ (by decide) (freeNames_numeral n)]
    simp [second, subst_applied, subst_app, subst_var]
  have hlast := after?_abs "f" (after?_abs "x" (after?_applied_numeral m n))
  rw [← numeral_eq] at hlast
  have hsteps : 2 * m + 3 = 1 + 1 + (1 + 2 * m) := by omega
  rw [hsteps]
  exact after?_trans (after?_left (numeral n) (after?_trans hfirst hopen))
    (after?_trans hcontract hlast)

end Runs

end Term

/-- A term with a single name, which is one of the prelude, is expanded by putting its definition
in. -/
theorem Definitions.expand_prelude {name : String} {term t : Term}
    (hentry : (name, term) ∈ Prelude.table.entries) (hfree : t.freeNames = [name]) :
    Definitions.expand Prelude.table t = t.subst name term := by
  refine expand_of_single hentry (hfree ▸ List.mem_singleton_self name) (fun x _ hx => ?_)
    fun x _ hx => ?_
  · exact List.mem_singleton.mp (hfree ▸ hx)
  · rw [freeNames_prelude _ hentry] at hx
    exact absurd hx List.not_mem_nil

namespace Session

open Term

/-- In a session that has just been started, the successor, the sum and the product of numerals
expand to terms that compute the next number, the sum and the product, in three steps, in six, and
in three and two for each unit of the first number. -/
theorem arithmetic_of_numerals (path : String) (calculus : Calculus) (interactive : Bool)
    (reporter : Reporter) (m n : Nat) :
    let definitions := (start path calculus interactive reporter).definitions
    Computes (definitions.expand (app (var "SUCC") (numeral n))) 3 (n + 1) ∧
      Computes (definitions.expand (app (app (var "PLUS") (numeral m)) (numeral n))) 6 (m + n) ∧
      Computes (definitions.expand (app (app (var "MULT") (numeral m)) (numeral n)))
        (2 * m + 3) (m * n) := by
  have hnumeral (n : Nat) (name : String) (term : Term) :
      (numeral n).subst name term = numeral n :=
    subst_of_notMem (freeNames_numeral n ▸ List.not_mem_nil) term
  have hsuccessor : Definitions.expand Prelude.table (app (var "SUCC") (numeral n)) =
      app Prelude.successor (numeral n) := by
    have hentry : ("SUCC", Prelude.successor) ∈ Prelude.table.entries := by decide +kernel
    rw [Definitions.expand_prelude hentry (by simp [freeNames, freeNames_numeral]), subst_app,
      subst_var, if_pos rfl, hnumeral]
  have hbinary (name : String) (term : Term) (hentry : (name, term) ∈ Prelude.table.entries) :
      Definitions.expand Prelude.table (app (app (var name) (numeral m)) (numeral n)) =
        app (app term (numeral m)) (numeral n) := by
    rw [Definitions.expand_prelude hentry (by simp [freeNames, freeNames_numeral]), subst_app,
      subst_app, subst_var, if_pos rfl, hnumeral, hnumeral]
  refine ⟨?_, ?_, ?_⟩
  · exact computes_of_after? (hsuccessor ▸ after?_successor n)
  · exact computes_of_after? (hbinary "PLUS" Prelude.sum (by decide +kernel) ▸ after?_sum m n)
  · exact computes_of_after?
      (hbinary "MULT" Prelude.product (by decide +kernel) ▸ after?_product m n)

end Session

end UntypedLambda
