import Mathlib.Data.List.Basic
import UntypedLambda.Proofs.Nameless.Basic
import UntypedLambda.Term.Free

/-!
# Nameless forms of terms

The nameless form of a term replaces every variable by the number of its binder; binders outside
the term are given as a list of names, innermost first. Interpreting a term puts nameless terms in
place of all its free names at once. The nameless form is the interpretation in which a name stands
for its binder or for itself, and everything that happens to nameless terms can be done to the
interpretation of the names instead.
-/

namespace UntypedLambda.Term

/-- What a name refers to below some binders, innermost first. -/
def resolve (binders : List String) (name : String) : Nameless :=
  match binders.idxOf? name with
  | some index => .bound index
  | none => .free name

/-- The nameless form of a term below some binders, innermost first. -/
def nameless (binders : List String) : Term → Nameless
  | var name => resolve binders name
  | abs param body => .abs (body.nameless (param :: binders))
  | app left right => .app (left.nameless binders) (right.nameless binders)

/-- An interpretation of names, carried below an abstraction over a parameter. -/
def enter (param : String) (ρ : String → Nameless) (name : String) : Nameless :=
  if name = param then .bound 0 else (ρ name).shift

/-- The nameless term that results when every free name is put in place of its interpretation. -/
def interpret (ρ : String → Nameless) : Term → Nameless
  | var name => ρ name
  | abs param body => .abs (body.interpret (enter param ρ))
  | app left right => .app (left.interpret ρ) (right.interpret ρ)

/-- Without binders, a name stands for itself. -/
theorem resolve_nil : resolve [] = Nameless.free := rfl

/-- One more binder is met first. -/
theorem resolve_cons (param : String) (binders : List String) :
    resolve (param :: binders) = enter param (resolve binders) := by
  funext name
  by_cases hname : name = param
  · simp [resolve, enter, hname, List.idxOf?_cons]
  · have hne : (param == name) = false := by simpa using fun h => hname h.symm
    unfold enter
    rw [if_neg hname, resolve, resolve, List.idxOf?_cons, hne]
    cases hfound : binders.idxOf? name <;> rfl

/-- The nameless form interprets every name by its binder, or by itself. -/
theorem nameless_eq_interpret (t : Term) (binders : List String) :
    t.nameless binders = t.interpret (resolve binders) := by
  induction t generalizing binders with
  | var name => rfl
  | abs param body ih => rw [nameless, interpret, ih, resolve_cons]
  | app left right ihl ihr => rw [nameless, interpret, ihl, ihr]

/-- The nameless form of a variable is an index or a free name. -/
theorem nameless_var_cases (binders : List String) (name : String) :
    (∃ index, (var name).nameless binders = .bound index) ∨
      (var name).nameless binders = .free name := by
  unfold nameless resolve
  split
  · exact .inl ⟨_, rfl⟩
  · exact .inr rfl

/-- The nameless form of a variable is no abstraction. -/
theorem nameless_var_ne_abs (binders : List String) (name : String) (body : Nameless) :
    (var name).nameless binders ≠ .abs body := by
  rcases nameless_var_cases binders name with ⟨index, hvar⟩ | hvar <;>
    rw [hvar] <;> exact nofun

/-- The nameless form of a variable is no application. -/
theorem nameless_var_ne_app (binders : List String) (name : String) (left right : Nameless) :
    (var name).nameless binders ≠ .app left right := by
  rcases nameless_var_cases binders name with ⟨index, hvar⟩ | hvar <;>
    rw [hvar] <;> exact nofun

/-- A term whose nameless form is an abstraction is one. -/
theorem eq_abs_of_nameless {t : Term} {binders : List String} {body : Nameless}
    (h : t.nameless binders = .abs body) :
    ∃ param inner, t = abs param inner ∧ inner.nameless (param :: binders) = body := by
  cases t with
  | var name => exact absurd h (nameless_var_ne_abs binders name body)
  | abs param inner => exact ⟨param, inner, rfl, Nameless.abs.inj h⟩
  | app _ _ => cases h

/-- A term whose nameless form is an application is one. -/
theorem eq_app_of_nameless {t : Term} {binders : List String} {left right : Nameless}
    (h : t.nameless binders = .app left right) :
    ∃ first second, t = app first second ∧ first.nameless binders = left ∧
      second.nameless binders = right := by
  cases t with
  | var name => exact absurd h (nameless_var_ne_app binders name left right)
  | abs _ _ => cases h
  | app first second =>
    obtain ⟨hleft, hright⟩ := Nameless.app.inj h
    exact ⟨first, second, rfl, hleft, hright⟩

/-- A term whose nameless form is an index is a variable. -/
theorem eq_var_of_nameless {t : Term} {binders : List String} {index : Nat}
    (h : t.nameless binders = .bound index) :
    ∃ name, t = var name ∧ resolve binders name = .bound index := by
  cases t with
  | var name => exact ⟨name, rfl, h⟩
  | abs _ _ => cases h
  | app _ _ => cases h

/-- A name that is one of the binders refers to one. -/
theorem exists_resolve_of_mem {name : String} {binders : List String} (h : name ∈ binders) :
    ∃ index, resolve binders name = .bound index := by
  unfold resolve
  cases hfound : binders.idxOf? name with
  | none => exact absurd h (List.idxOf?_eq_none_iff.mp hfound)
  | some index => exact ⟨index, rfl⟩

/-- Only the interpretation of the free names counts. -/
theorem interpret_congr {t : Term} {ρ ρ' : String → Nameless}
    (h : ∀ name ∈ t.freeNames, ρ name = ρ' name) : t.interpret ρ = t.interpret ρ' := by
  induction t generalizing ρ ρ' with
  | var name => exact h name (List.mem_singleton.mpr rfl)
  | abs param body ih =>
    rw [interpret, interpret]
    refine congrArg Nameless.abs (ih fun name hname => ?_)
    unfold enter
    split
    · rfl
    · next hne =>
      have hfree : name ∈ (abs param body).freeNames := by simpa [freeNames, hne] using hname
      rw [h name hfree]
  | app left right ihl ihr =>
    have hl := ihl fun name hname => h name (List.mem_append_left _ hname)
    have hr := ihr fun name hname => h name (List.mem_append_right _ hname)
    rw [interpret, interpret, hl, hr]

/-- Filling an interpretation carried below an abstraction fills the interpretation first. -/
theorem fill_enter (param : String) (ρ : String → Nameless) (σ : Nat → Nameless)
    (τ : String → Nameless) :
    (fun name => (enter param ρ name).fill (Nameless.lift σ) fun x => (τ x).shift) =
      enter param fun name => (ρ name).fill σ τ := by
  funext name
  unfold enter
  split
  · rfl
  · exact Nameless.fill_shift (ρ name) σ τ

/-- Filling an interpreted term fills the interpretation. -/
theorem interpret_fill (t : Term) (ρ : String → Nameless) (σ : Nat → Nameless)
    (τ : String → Nameless) :
    (t.interpret ρ).fill σ τ = t.interpret fun name => (ρ name).fill σ τ := by
  induction t generalizing ρ σ τ with
  | var name => rfl
  | abs param body ih => rw [interpret, Nameless.fill, ih, fill_enter, interpret]
  | app left right ihl ihr => rw [interpret, Nameless.fill, ihl, ihr, interpret]

/-- An abstraction over a name that is not free is entered by raising the indices. -/
theorem interpret_enter {t : Term} {param : String} (ρ : String → Nameless)
    (h : param ∉ t.freeNames) : t.interpret (enter param ρ) = (t.interpret ρ).shift := by
  have hshift : (t.interpret ρ).shift = t.interpret fun name => (ρ name).shift := by
    unfold Nameless.shift
    simp only [Nameless.reindex_eq_fill, interpret_fill]
  rw [hshift]
  refine interpret_congr fun name hname => ?_
  have hne : name ≠ param := fun he => h (he ▸ hname)
  rw [enter, if_neg hne]

/-- The names that occur in a nameless form are the free names that nothing outside binds. -/
theorem names_nameless (t : Term) (binders : List String) :
    (t.nameless binders).names = t.freeNames.filter (· ∉ binders) := by
  induction t generalizing binders with
  | var name =>
    unfold nameless resolve freeNames
    cases hfound : binders.idxOf? name with
    | none =>
      have hnot : name ∉ binders := List.idxOf?_eq_none_iff.mp hfound
      simp [hnot, Nameless.names]
    | some index =>
      have hin : name ∈ binders := by
        by_contra hnot
        rw [List.idxOf?_eq_none_iff.mpr hnot] at hfound
        cases hfound
      simp [hin, Nameless.names]
  | abs param body ih =>
    rw [nameless, Nameless.names, ih, freeNames, List.filter_filter]
    refine List.filter_congr fun name _ => ?_
    simp only [List.mem_cons, not_or, Bool.decide_and, Bool.and_comm]
  | app left right ihl ihr =>
    rw [nameless, Nameless.names, ihl, ihr, freeNames, List.filter_append]

end UntypedLambda.Term
