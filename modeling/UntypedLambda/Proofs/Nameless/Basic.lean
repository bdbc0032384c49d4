import Mathlib.Logic.Function.Basic

/-!
# Nameless terms

A nameless term refers to a parameter by the number of abstractions between the variable and the
one that binds it, so terms that differ in the names of parameters only have one nameless form.
Names that are free stay names. Filling puts terms in place of all indices and names at once; it
does not capture, because terms that are carried below an abstraction have their indices raised.
The laws say that reindexing and filling compose.
-/

namespace UntypedLambda

/-- A term without the names of parameters. -/
inductive Nameless where
  /-- The parameter of an abstraction outside, counted from the innermost. -/
  | bound (index : Nat)
  /-- A name that nothing binds. -/
  | free (name : String)
  /-- An abstraction. -/
  | abs (body : Nameless)
  /-- An application of one term to another. -/
  | app (left right : Nameless)
  deriving DecidableEq

namespace Nameless

/-- A map of indices, carried below a binder. -/
def liftIndex (f : Nat → Nat) : Nat → Nat
  | 0 => 0
  | index + 1 => f index + 1

/-- Maps the indices that point out of the term. -/
def reindex (f : Nat → Nat) : Nameless → Nameless
  | bound index => bound (f index)
  | free name => free name
  | abs body => abs (body.reindex (liftIndex f))
  | app left right => app (left.reindex f) (right.reindex f)

/-- The term one binder further in. -/
def shift (t : Nameless) : Nameless := t.reindex (· + 1)

/-- Terms for indices, carried below a binder. -/
def lift (σ : Nat → Nameless) : Nat → Nameless
  | 0 => bound 0
  | index + 1 => (σ index).shift

/-- Puts terms in place of the indices that point out of the term and of the free names. -/
def fill (σ : Nat → Nameless) (τ : String → Nameless) : Nameless → Nameless
  | bound index => σ index
  | free name => τ name
  | abs body => abs (body.fill (lift σ) fun name => (τ name).shift)
  | app left right => app (left.fill σ τ) (right.fill σ τ)

/-- Puts a term in place of a free name. -/
def subst (t : Nameless) (name : String) (new : Nameless) : Nameless :=
  match t with
  | bound index => bound index
  | free x => if x = name then new else free x
  | abs body => abs (body.subst name new.shift)
  | app left right => app (left.subst name new) (right.subst name new)

/-- A term for the innermost index; the other indices lose one binder. -/
def first (new : Nameless) : Nat → Nameless
  | 0 => new
  | index + 1 => bound index

/-- The body of an abstraction with an argument in place of the parameter. -/
def instantiate (body new : Nameless) : Nameless := body.fill (first new) free

/-- The names that occur free, from left to right and as often as they occur. -/
def names : Nameless → List String
  | bound _ => []
  | free name => [name]
  | abs body => body.names
  | app left right => left.names ++ right.names

/-- Lifted index maps compose. -/
theorem liftIndex_comp (f g : Nat → Nat) :
    liftIndex g ∘ liftIndex f = liftIndex (g ∘ f) := by
  funext index
  cases index <;> rfl

/-- Reindexing twice is reindexing once. -/
theorem reindex_reindex (t : Nameless) (f g : Nat → Nat) :
    (t.reindex f).reindex g = t.reindex (g ∘ f) := by
  induction t generalizing f g with
  | bound index => rfl
  | free name => rfl
  | abs body ih => simp only [reindex, ih, liftIndex_comp]
  | app left right ihl ihr => simp only [reindex, ihl, ihr]

/-- Reindexing below a binder is reindexing before the binder is entered. -/
theorem reindex_shift (t : Nameless) (f : Nat → Nat) :
    t.shift.reindex (liftIndex f) = (t.reindex f).shift := by
  unfold shift
  rw [reindex_reindex, reindex_reindex]
  rfl

/-- Lifting commutes with reindexing what is filled in. -/
theorem lift_reindex (σ : Nat → Nameless) (f : Nat → Nat) :
    (fun index => (lift σ index).reindex (liftIndex f)) = lift fun index => (σ index).reindex f := by
  funext index
  cases index with
  | zero => rfl
  | succ index => exact reindex_shift (σ index) f

/-- Filling after reindexing looks the new indices up. -/
theorem fill_reindex (t : Nameless) (f : Nat → Nat) (σ : Nat → Nameless) (τ : String → Nameless) :
    (t.reindex f).fill σ τ = t.fill (σ ∘ f) τ := by
  induction t generalizing f σ τ with
  | bound index => rfl
  | free name => rfl
  | abs body ih =>
    have hlift : lift σ ∘ liftIndex f = lift (σ ∘ f) := by
      funext index
      cases index <;> rfl
    simp only [reindex, fill, ih, hlift]
  | app left right ihl ihr => simp only [reindex, fill, ihl, ihr]

/-- Reindexing after filling reindexes what was filled in. -/
theorem reindex_fill (t : Nameless) (f : Nat → Nat) (σ : Nat → Nameless) (τ : String → Nameless) :
    (t.fill σ τ).reindex f =
      t.fill (fun index => (σ index).reindex f) (fun name => (τ name).reindex f) := by
  induction t generalizing f σ τ with
  | bound index => rfl
  | free name => rfl
  | abs body ih => simp only [reindex, fill, ih, lift_reindex, reindex_shift]
  | app left right ihl ihr => simp only [reindex, fill, ihl, ihr]

/-- Filling below a binder is filling before the binder is entered. -/
theorem fill_shift (t : Nameless) (σ : Nat → Nameless) (τ : String → Nameless) :
    t.shift.fill (lift σ) (fun name => (τ name).shift) = (t.fill σ τ).shift := by
  unfold shift
  rw [fill_reindex, reindex_fill]
  rfl

/-- Lifting commutes with filling what is filled in. -/
theorem lift_fill (σ σ' : Nat → Nameless) (τ' : String → Nameless) :
    (fun index => (lift σ index).fill (lift σ') fun name => (τ' name).shift) =
      lift fun index => (σ index).fill σ' τ' := by
  funext index
  cases index with
  | zero => rfl
  | succ index => exact fill_shift (σ index) σ' τ'

/-- Filling twice fills what was filled in. -/
theorem fill_fill (t : Nameless) (σ σ' : Nat → Nameless) (τ τ' : String → Nameless) :
    (t.fill σ τ).fill σ' τ' =
      t.fill (fun index => (σ index).fill σ' τ') (fun name => (τ name).fill σ' τ') := by
  induction t generalizing σ σ' τ τ' with
  | bound index => rfl
  | free name => rfl
  | abs body ih => simp only [fill, ih, lift_fill, fill_shift]
  | app left right ihl ihr => simp only [fill, ihl, ihr]

/-- Indices that stand for themselves do so below a binder. -/
theorem lift_bound : lift bound = bound := by
  funext index
  cases index <;> rfl

/-- Putting every index and every name in its own place changes nothing. -/
theorem fill_self (t : Nameless) : t.fill bound free = t := by
  induction t with
  | bound index => rfl
  | free name => rfl
  | abs body ih =>
    have hfree : (fun name => (free name).shift) = free := rfl
    rw [fill, lift_bound, hfree, ih]
  | app left right ihl ihr => rw [fill, ihl, ihr]

/-- Reindexing fills indices in for indices. -/
theorem reindex_eq_fill (t : Nameless) (f : Nat → Nat) :
    t.reindex f = t.fill (bound ∘ f) free := by
  rw [← fill_reindex, fill_self]

/-- Substituting for a name fills it alone. -/
theorem subst_eq_fill (t : Nameless) (name : String) (new : Nameless) :
    t.subst name new = t.fill bound (Function.update free name new) := by
  induction t generalizing new with
  | bound index => rfl
  | free x =>
    by_cases hx : x = name
    · rw [subst, if_pos hx, fill, hx, Function.update_self]
    · rw [subst, if_neg hx, fill, Function.update_of_ne hx]
  | abs body ih =>
    have hshift : (fun x => (Function.update free name new x).shift) =
        Function.update free name new.shift := by
      funext x
      by_cases hx : x = name
      · rw [hx, Function.update_self, Function.update_self]
      · rw [Function.update_of_ne hx, Function.update_of_ne hx]
        rfl
    rw [subst, fill, lift_bound, hshift, ih]
  | app left right ihl ihr => rw [subst, fill, ihl, ihr]

/-- A term that is carried below a binder does not meet the argument for it. -/
theorem shift_instantiate (t new : Nameless) : t.shift.instantiate new = t := by
  unfold shift instantiate
  rw [fill_reindex]
  exact fill_self t

/-- Filling commutes with instantiating. -/
theorem fill_instantiate (body new : Nameless) (σ : Nat → Nameless) (τ : String → Nameless) :
    (body.instantiate new).fill σ τ =
      (body.fill (lift σ) fun name => (τ name).shift).instantiate (new.fill σ τ) := by
  unfold instantiate
  rw [fill_fill, fill_fill]
  congr 1
  · funext index
    cases index with
    | zero => rfl
    | succ index => exact (shift_instantiate (σ index) (new.fill σ τ)).symm
  · funext name
    exact (shift_instantiate (τ name) (new.fill σ τ)).symm

/-- Reindexing keeps the free names. -/
theorem names_reindex (t : Nameless) (f : Nat → Nat) : (t.reindex f).names = t.names := by
  induction t generalizing f with
  | bound index => rfl
  | free name => rfl
  | abs body ih => exact ih (liftIndex f)
  | app left right ihl ihr => rw [reindex, names, names, ihl, ihr]

/-- Substituting puts the free names of the new term in place of the name, and keeps all others. -/
theorem names_subst (t : Nameless) (name : String) (new : Nameless) :
    (t.subst name new).names = t.names.flatMap fun x => if x = name then new.names else [x] := by
  induction t generalizing new with
  | bound index => rfl
  | free x =>
    by_cases hx : x = name
    · simp only [subst, names, hx, if_true, List.flatMap_cons, List.flatMap_nil, List.append_nil]
    · simp only [subst, names, hx, if_false, List.flatMap_cons, List.flatMap_nil, List.append_nil]
  | abs body ih =>
    have hshift : new.shift.names = new.names := names_reindex new _
    rw [subst, names, ih, hshift, names]
  | app left right ihl ihr => rw [subst, names, ihl, ihr, names, List.flatMap_append]

end Nameless

end UntypedLambda
