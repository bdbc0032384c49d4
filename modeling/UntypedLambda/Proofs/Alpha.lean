import UntypedLambda.Proofs.Substitution

/-!
# Alpha-equivalence

Two terms are alpha-equivalent if they differ in the names of parameters only. The relation walks
through both terms at once and keeps the parameters of the abstractions that it has entered as
pairs. It holds exactly where the nameless forms are equal, so it is an equivalence and can be
decided.
-/

namespace UntypedLambda.Term

/-- Whether two names refer to the same place below pairs of parameters, innermost first. -/
def Paired : List (String × String) → String → String → Prop
  | [], x, y => x = y
  | (p, q) :: pairs, x, y => if x = p ∨ y = q then x = p ∧ y = q else Paired pairs x y

/-- Alpha-equivalence below pairs of parameters, innermost first. -/
inductive AlphaBelow : List (String × String) → Term → Term → Prop where
  /-- The variables refer to the same place. -/
  | var {pairs : List (String × String)} {x y : String} (paired : Paired pairs x y) :
      AlphaBelow pairs (var x) (var y)
  /-- The bodies are equivalent below the two parameters. -/
  | abs {pairs : List (String × String)} {p q : String} {body body' : Term}
      (bodies : AlphaBelow ((p, q) :: pairs) body body') :
      AlphaBelow pairs (abs p body) (abs q body')
  /-- Both sides are equivalent. -/
  | app {pairs : List (String × String)} {left right left' right' : Term}
      (lefts : AlphaBelow pairs left left') (rights : AlphaBelow pairs right right') :
      AlphaBelow pairs (app left right) (app left' right')

/-- Whether two terms differ in the names of parameters only. -/
def Alpha (t u : Term) : Prop := AlphaBelow [] t u

/-- Raising indices identifies no terms. -/
theorem shift_injective : Function.Injective Nameless.shift := by
  intro t u h
  rw [← Nameless.shift_instantiate t (.bound 0), h, Nameless.shift_instantiate]

/-- No term that is carried below a binder is the variable of that binder. -/
theorem shift_ne_bound_zero (t : Nameless) : t.shift ≠ .bound 0 := by
  cases t <;> simp [Nameless.shift, Nameless.reindex]

/-- Names refer to the same place exactly if they resolve to the same index or name. -/
theorem paired_iff (pairs : List (String × String)) (x y : String) :
    Paired pairs x y ↔ resolve (pairs.map Prod.fst) x = resolve (pairs.map Prod.snd) y := by
  induction pairs with
  | nil => simp [Paired, resolve_nil]
  | cons pair pairs ih =>
    obtain ⟨p, q⟩ := pair
    rw [Paired, List.map_cons, List.map_cons, resolve_cons, resolve_cons, enter, enter]
    by_cases hx : x = p <;> by_cases hy : y = q
    · simp [hx, hy]
    · simp [hx, hy, (shift_ne_bound_zero _).symm]
    · simp [hx, hy, shift_ne_bound_zero]
    · simp [hx, hy, ih, shift_injective.eq_iff]

/-- Alpha-equivalence is equality of nameless forms. -/
theorem alphaBelow_iff {pairs : List (String × String)} {t u : Term} :
    AlphaBelow pairs t u ↔
      t.nameless (pairs.map Prod.fst) = u.nameless (pairs.map Prod.snd) := by
  constructor
  · intro h
    induction h with
    | var paired => exact (paired_iff _ _ _).mp paired
    | abs _ ih => exact congrArg Nameless.abs ih
    | app _ _ ihl ihr => rw [nameless, nameless, ihl, ihr]
  · intro h
    induction t generalizing pairs u with
    | var x =>
      cases u with
      | var y => exact .var ((paired_iff _ _ _).mpr h)
      | abs _ _ => exact absurd h (nameless_var_ne_abs _ _ _)
      | app _ _ => exact absurd h (nameless_var_ne_app _ _ _ _)
    | abs p body ih =>
      cases u with
      | var y => exact absurd h.symm (nameless_var_ne_abs _ _ _)
      | abs q body' => exact .abs (ih (Nameless.abs.inj h))
      | app _ _ => cases h
    | app left right ihl ihr =>
      cases u with
      | var y => exact absurd h.symm (nameless_var_ne_app _ _ _ _)
      | abs _ _ => cases h
      | app left' right' =>
        obtain ⟨hl, hr⟩ := Nameless.app.inj h
        exact .app (ihl hl) (ihr hr)

/-- Alpha-equivalent terms are those with the same nameless form. -/
theorem alpha_iff {t u : Term} : Alpha t u ↔ t.nameless [] = u.nameless [] := alphaBelow_iff

instance (t u : Term) : Decidable (Alpha t u) := decidable_of_iff _ alpha_iff.symm

/-- Alpha-equivalence is an equivalence. -/
theorem alpha_equivalence : Equivalence Alpha where
  refl _ := alpha_iff.mpr rfl
  symm h := alpha_iff.mpr (alpha_iff.mp h).symm
  trans h h' := alpha_iff.mpr ((alpha_iff.mp h).trans (alpha_iff.mp h'))

end UntypedLambda.Term
