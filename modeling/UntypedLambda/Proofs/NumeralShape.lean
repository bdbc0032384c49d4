import UntypedLambda.Numeral
import UntypedLambda.Proofs.Alpha

/-!
# Which terms are read as numbers

A term is read as a number exactly if it has two parameters of different names and applies the
first so often to the second. The numeral of the number with any other names for its parameters is
such a term, and there is only one term besides that is alpha-equivalent to a numeral: a zero whose
parameters share their name. So numbers are read up to the names of parameters, such a zero apart.
-/

namespace UntypedLambda.Term

/-- Whether a term is a zero whose two parameters have one name. The inner one hides the outer. -/
def HidesFirst (t : Term) : Prop := ∃ name, t = abs name (abs name (var name))

variable {t u body : Term} {function argument : String} {n : Nat}

/-- The applications of one variable to another are counted exactly in terms that consist of
them. -/
theorem iterations?_eq_some_iff :
    body.iterations? function argument = some n ↔ body = iterate function argument n := by
  induction body generalizing n with
  | var name =>
    cases n with
    | zero => simp [iterations?, iterate]
    | succ n => simp [iterations?, iterate]
  | abs param body _ => cases n <;> simp [iterations?, iterate]
  | app left right _ ih =>
    cases n with
    | zero => simp [iterations?, iterate]
    | succ n => simp [iterations?, iterate, ih]

/-- A term is read as a number if it applies its first parameter so often to its second one, and
the two differ. -/
theorem number?_eq_some_iff :
    t.number? = some n ↔ ∃ function argument, function ≠ argument ∧
      t = abs function (abs argument (iterate function argument n)) := by
  constructor
  · intro h
    unfold number? at h
    split at h
    · next function argument body =>
      split at h
      · nomatch h
      · next hne => exact ⟨function, argument, hne, by rw [iterations?_eq_some_iff.mp h]⟩
    · nomatch h
  · rintro ⟨function, argument, hne, rfl⟩
    rw [number?, if_neg hne, iterations?_eq_some_iff]

/-- Below two parameters, a variable stands for the inner parameter if it has its name. -/
theorem alphaBelow_argument_iff :
    AlphaBelow [(argument, "x"), (function, "f")] body (var "x") ↔ body = var argument := by
  constructor
  · intro h
    cases h with
    | var paired => simpa [Paired] using paired
  · rintro rfl
    exact .var (by simp [Paired])

/-- Below two parameters, a variable stands for the outer parameter if it has its name and the inner
one has another. -/
theorem alphaBelow_function_iff :
    AlphaBelow [(argument, "x"), (function, "f")] body (var "f") ↔
      body = var function ∧ function ≠ argument := by
  constructor
  · intro h
    cases h with
    | @var _ name _ paired =>
      simp only [Paired] at paired
      grind
  · rintro ⟨rfl, hne⟩
    exact .var (by simp [Paired, hne])

/-- Below two parameters, a term is alpha-equivalent to the body of a numeral if it applies them
so often. If it applies the outer one at all, the inner one must not hide it. -/
theorem alphaBelow_iterate_iff :
    AlphaBelow [(argument, "x"), (function, "f")] body (iterate "f" "x" n) ↔
      body = iterate function argument n ∧ (n ≠ 0 → function ≠ argument) := by
  induction n generalizing body with
  | zero => simp [iterate, alphaBelow_argument_iff]
  | succ n ih =>
    constructor
    · intro h
      cases h with
      | @app _ left right _ _ lefts rights =>
        obtain ⟨rfl, hne⟩ := alphaBelow_function_iff.mp lefts
        obtain ⟨rfl, -⟩ := ih.mp rights
        exact ⟨rfl, fun _ => hne⟩
    · rintro ⟨rfl, hne⟩
      have hdifferent : function ≠ argument := hne (Nat.succ_ne_zero n)
      exact .app (alphaBelow_function_iff.mpr ⟨rfl, hdifferent⟩)
        (ih.mpr ⟨rfl, fun _ => hdifferent⟩)

/-- A term is alpha-equivalent to a numeral if it applies its first parameter so often to its second
one, and the second does not hide the first where this is applied. -/
theorem alpha_numeral_iff :
    Alpha t (numeral n) ↔ ∃ function argument, (n ≠ 0 → function ≠ argument) ∧
      t = abs function (abs argument (iterate function argument n)) := by
  constructor
  · intro h
    cases h with
    | abs inner =>
      cases inner with
      | abs bodies =>
        obtain ⟨rfl, hne⟩ := alphaBelow_iterate_iff.mp bodies
        exact ⟨_, _, hne, rfl⟩
  · rintro ⟨function, argument, hne, rfl⟩
    exact .abs (.abs (alphaBelow_iterate_iff.mpr ⟨rfl, hne⟩))

/-- Parameters that share a name make a term of this shape the zero in which the inner one hides the
outer, if the outer one is not applied. -/
theorem hidesFirst_iff (hne : n ≠ 0 → function ≠ argument) :
    HidesFirst (abs function (abs argument (iterate function argument n))) ↔
      function = argument := by
  constructor
  · rintro ⟨name, heq⟩
    simp only [abs.injEq] at heq
    rw [heq.1, heq.2.1]
  · rintro rfl
    obtain rfl : n = 0 := by_contra fun hpositive => hne hpositive rfl
    exact ⟨function, rfl⟩

/-- A term is read as a number exactly if it is alpha-equivalent to the numeral of the number and is
not the zero in which the second parameter hides the first. -/
theorem number?_eq_some_iff_alpha :
    t.number? = some n ↔ Alpha t (numeral n) ∧ ¬HidesFirst t := by
  rw [number?_eq_some_iff, alpha_numeral_iff]
  constructor
  · rintro ⟨function, argument, hne, rfl⟩
    exact ⟨⟨function, argument, fun _ => hne, rfl⟩, (hidesFirst_iff fun _ => hne).not.mpr hne⟩
  · rintro ⟨⟨function, argument, hne, rfl⟩, hshown⟩
    exact ⟨function, argument, (hidesFirst_iff hne).not.mp hshown, rfl⟩

/-- A zero in which the second parameter hides the first differs from the numeral of zero in the
names of parameters only, and is not read as a number. -/
theorem number?_hidden_zero :
    let t := abs "x" (abs "x" (var "x"))
    Alpha t (numeral 0) ∧ t.number? = none ∧ (numeral 0).number? = some 0 := by
  decide

/-- Numbers are read up to the names of parameters: exactly the terms that are alpha-equivalent to
the numeral of a number are read as this number, and alpha-equivalent terms are read alike, except
for zeros in which the second parameter hides the first. -/
theorem number?_up_to_alpha :
    (∀ (t : Term) (n : Nat), t.number? = some n ↔ Alpha t (numeral n) ∧ ¬HidesFirst t) ∧
      ∀ t u : Term, Alpha t u → ¬HidesFirst t → ¬HidesFirst u → t.number? = u.number? := by
  refine ⟨fun t n => number?_eq_some_iff_alpha, fun t u halpha ht hu => ?_⟩
  have hnumeral (n : Nat) : Alpha t (numeral n) ↔ Alpha u (numeral n) :=
    ⟨alpha_equivalence.trans (alpha_equivalence.symm halpha), alpha_equivalence.trans halpha⟩
  ext n
  rw [number?_eq_some_iff_alpha, number?_eq_some_iff_alpha, hnumeral n]
  simp only [ht, hu]

/-- Two terms that both are the numeral of two, with the names of its parameters exchanged. -/
theorem number?_up_to_alpha_exchanged :
    let t := abs "x" (abs "f" (app (var "x") (app (var "x") (var "f"))))
    let u := abs "f" (abs "x" (app (var "f") (app (var "f") (var "x"))))
    Alpha t u ∧ ¬HidesFirst t ∧ ¬HidesFirst u ∧ t.number? = u.number? ∧ t.number? = some 2 := by
  intro t u
  have halpha : Alpha t u := by decide
  have ht : ¬HidesFirst t := by simp [HidesFirst, t]
  have hu : ¬HidesFirst u := by simp [HidesFirst, u]
  have htwo : Alpha t (numeral 2) := by decide
  exact ⟨halpha, ht, hu, number?_up_to_alpha.2 t u halpha ht hu,
    (number?_up_to_alpha.1 t 2).mpr ⟨htwo, ht⟩⟩

end UntypedLambda.Term
