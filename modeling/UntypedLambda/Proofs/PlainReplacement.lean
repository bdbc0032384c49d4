import UntypedLambda.Proofs.Occurrence
import UntypedLambda.Proofs.Substitution

/-!
# Parameters are renamed only where they capture

The plain way to substitute is to replace the free occurrences of a name and to keep every
parameter. It goes wrong where such an occurrence stands in the body of an abstraction whose
parameter is free in the new term. Substitution looks at each abstraction on its own, and it agrees
with the plain way exactly for the terms in which no abstraction captures in this sense.
-/

namespace UntypedLambda.Term

variable {t left right body new : Term} {name param : String}

/-- The term with another one in place of the free occurrences of a name. All parameters are kept,
whatever they capture. -/
def replaceFree (t : Term) (name : String) (new : Term) : Term :=
  match t with
  | var x => if x = name then new else var x
  | abs param body =>
    if param = name then abs param body else abs param (body.replaceFree name new)
  | app left right => app (left.replaceFree name new) (right.replaceFree name new)

/-- Whether a name has a free occurrence in the body of an abstraction whose parameter is free in
the new term. -/
def Captures (t : Term) (name : String) (new : Term) : Prop :=
  ∃ path binders, StandsAt (var name) path binders t ∧ name ∉ binders ∧
    ∃ param ∈ binders, param ∈ new.freeNames

/-- A name is free exactly if it stands somewhere without being bound on the way. -/
theorem mem_freeNames_iff_standsAt :
    name ∈ t.freeNames ↔ ∃ path binders, StandsAt (var name) path binders t ∧ name ∉ binders := by
  induction t with
  | var x =>
    constructor
    · intro hname
      obtain rfl := List.mem_singleton.mp hname
      exact ⟨[], [], .here, List.not_mem_nil⟩
    · rintro ⟨path, binders, hstands, -⟩
      cases hstands
      exact List.mem_singleton_self name
  | abs param body ih =>
    constructor
    · intro hname
      obtain ⟨hbody, hparam⟩ := List.mem_filter.mp hname
      obtain ⟨path, binders, hstands, hfree⟩ := ih.mp hbody
      refine ⟨_, _, .body param hstands, ?_⟩
      rw [List.mem_append, List.mem_singleton, not_or]
      exact ⟨hfree, of_decide_eq_true hparam⟩
    · rintro ⟨path, binders, hstands, hfree⟩
      cases hstands with
      | body _ inner =>
        rw [List.mem_append, List.mem_singleton, not_or] at hfree
        exact List.mem_filter.mpr ⟨ih.mpr ⟨_, _, inner, hfree.1⟩, decide_eq_true hfree.2⟩
  | app left right ihl ihr =>
    rw [freeNames, List.mem_append, ihl, ihr]
    constructor
    · rintro (⟨path, binders, hstands, hfree⟩ | ⟨path, binders, hstands, hfree⟩)
      · exact ⟨_, binders, .left right hstands, hfree⟩
      · exact ⟨_, binders, .right left hstands, hfree⟩
    · rintro ⟨path, binders, hstands, hfree⟩
      cases hstands with
      | left _ inner => exact .inl ⟨_, _, inner, hfree⟩
      | right _ inner => exact .inr ⟨_, _, inner, hfree⟩

/-- A variable has no abstraction. -/
theorem not_captures_var (x : String) : ¬(var x).Captures name new := by
  rintro ⟨path, binders, hstands, -, param, hparam, -⟩
  cases hstands
  exact List.not_mem_nil hparam

/-- Nothing in an abstraction over the name is a free occurrence of it. -/
theorem not_captures_abs_self : ¬(abs name body).Captures name new := by
  rintro ⟨path, binders, hstands, hfree, -⟩
  cases hstands with
  | body _ _ => exact hfree (List.mem_append_right _ (List.mem_singleton_self name))

/-- An abstraction over another name captures by its own parameter or by one in its body. -/
theorem captures_abs_iff (hother : param ≠ name) :
    (abs param body).Captures name new ↔
      (param ∈ new.freeNames ∧ name ∈ body.freeNames) ∨ body.Captures name new := by
  constructor
  · rintro ⟨path, binders, hstands, hfree, capturing, hcapturing, hnew⟩
    cases hstands with
    | body _ inner =>
      rw [List.mem_append, List.mem_singleton] at hfree hcapturing
      obtain ⟨hinner, -⟩ := not_or.mp hfree
      rcases hcapturing with hbinder | rfl
      · exact .inr ⟨_, _, inner, hinner, capturing, hbinder, hnew⟩
      · exact .inl ⟨hnew, mem_freeNames_iff_standsAt.mpr ⟨_, _, inner, hinner⟩⟩
  · have hfree {binders : List String} (h : name ∉ binders) : name ∉ binders ++ [param] := by
      rw [List.mem_append, List.mem_singleton, not_or]
      exact ⟨h, hother.symm⟩
    rintro (⟨hnew, hname⟩ | ⟨path, binders, hstands, hinner, capturing, hbinder, hnew⟩)
    · obtain ⟨path, binders, hstands, hinner⟩ := mem_freeNames_iff_standsAt.mp hname
      exact ⟨_, _, .body param hstands, hfree hinner, param,
        List.mem_append_right _ (List.mem_singleton_self param), hnew⟩
    · exact ⟨_, _, .body param hstands, hfree hinner, capturing,
        List.mem_append_left _ hbinder, hnew⟩

/-- What captures in an application captures in one of its sides. -/
theorem captures_app_iff :
    (app left right).Captures name new ↔ left.Captures name new ∨ right.Captures name new := by
  constructor
  · rintro ⟨path, binders, hstands, hcaptures⟩
    cases hstands with
    | left _ inner => exact .inl ⟨_, _, inner, hcaptures⟩
    | right _ inner => exact .inr ⟨_, _, inner, hcaptures⟩
  · rintro (⟨path, binders, hstands, hcaptures⟩ | ⟨path, binders, hstands, hcaptures⟩)
    · exact ⟨_, _, .left right hstands, hcaptures⟩
    · exact ⟨_, _, .right left hstands, hcaptures⟩

/-- Adding primes shortens no name. -/
theorem length_le_unused (t : Term) (name : String) : name.length ≤ (t.unused name).length := by
  fun_induction unused t name with
  | case1 name _ ih =>
    rw [String.length_append] at ih
    omega
  | case2 name _ => exact Nat.le_refl _

/-- A fresh name is not its base. -/
theorem fresh_ne (base : String) (t : Term) : fresh base t ≠ base := by
  intro hsame
  have hle : (base ++ "'").length ≤ (fresh base t).length := length_le_unused t (base ++ "'")
  rw [hsame, String.length_append] at hle
  exact Nat.not_succ_le_self _ hle

/-- Substitution is the plain replacement exactly where nothing captures. -/
theorem subst_eq_replaceFree_iff (t : Term) (name : String) (new : Term) :
    t.subst name new = t.replaceFree name new ↔ ¬t.Captures name new := by
  induction t with
  | var x => exact iff_of_true (subst_var x name new) (not_captures_var x)
  | abs param body ih =>
    by_cases hparam : param = name
    · subst hparam
      rw [subst_abs_self, replaceFree, if_pos rfl]
      exact iff_of_true rfl not_captures_abs_self
    rw [replaceFree, if_neg hparam, captures_abs_iff hparam, not_or]
    by_cases hcapture : param ∈ new.freeNames ∧ name ∈ body.freeNames
    · -- The parameter gets another name, which the plain replacement does not give it.
      rw [subst_abs_renamed hparam hcapture.1 hcapture.2, abs.injEq]
      exact iff_of_false (fun h => fresh_ne _ _ h.1) fun h => h.1 hcapture
    · rw [subst_abs_kept hparam (not_and_or.mp hcapture), abs.injEq, ih]
      exact and_congr (iff_of_true rfl hcapture) Iff.rfl
  | app left right ihl ihr =>
    rw [subst_app, replaceFree, app.injEq, ihl, ihr, captures_app_iff, not_or]

/-- A name that is put in place of itself is captured by no parameter. -/
theorem not_captures_self (t : Term) (name : String) : ¬t.Captures name (var name) := by
  rintro ⟨path, binders, -, hfree, param, hbinder, hparam⟩
  obtain rfl := List.mem_singleton.mp hparam
  exact hfree hbinder

/-- Replacing a name by itself changes nothing. -/
theorem replaceFree_self (t : Term) (name : String) : t.replaceFree name (var name) = t := by
  induction t with
  | var x =>
    rw [replaceFree]
    split
    · next hx => rw [hx]
    · rfl
  | abs param body ih => rw [replaceFree, ih, ite_self]
  | app left right ihl ihr => rw [replaceFree, ihl, ihr]

/-- Substitution renames parameters only where it has to: without captures it is the plain
replacement of the free occurrences, and with a capture it is not. So it changes nothing where the
name is not free, or where the name is put in place of itself. -/
theorem subst_renames_only_captured (t : Term) (name : String) (new : Term) :
    (¬t.Captures name new ↔ t.subst name new = t.replaceFree name new) ∧
      (name ∉ t.freeNames → t.subst name new = t) ∧ t.subst name (var name) = t := by
  refine ⟨(subst_eq_replaceFree_iff t name new).symm, fun hname => subst_of_notMem hname new, ?_⟩
  rw [(subst_eq_replaceFree_iff t name (var name)).mpr (not_captures_self t name),
    replaceFree_self]

/-- A parameter that is free in the new term and stands around a bound occurrence only: it is kept,
although the name is free elsewhere in the term. -/
theorem subst_renames_only_captured_shadowed :
    let new := app (var "y") (var "x")
    let inner := abs "y" (abs "x" (app (var "x") (var "y")))
    let t := app (var "x") inner
    ¬t.Captures "x" new ∧ t.subst "x" new = app new inner ∧ "y" ∈ new.freeNames ∧
      "z" ∉ t.freeNames ∧ t.subst "z" new = t ∧ t.subst "x" (var "x") = t := by
  intro new inner t
  have hcaptures : ¬t.Captures "x" new := by
    have hbody : ¬(abs "x" (app (var "x") (var "y"))).Captures "x" new := not_captures_abs_self
    have hname : "x" ∉ (abs "x" (app (var "x") (var "y"))).freeNames := by decide
    rw [captures_app_iff, captures_abs_iff (by decide)]
    rintro (hvar | ⟨-, hfree⟩ | hdeeper)
    · exact not_captures_var "x" hvar
    · exact hname hfree
    · exact hbody hdeeper
  obtain ⟨hplain, -, hself⟩ := subst_renames_only_captured t "x" new
  obtain ⟨-, hkept, -⟩ := subst_renames_only_captured t "z" new
  have hfree : "z" ∉ t.freeNames := by decide
  exact ⟨hcaptures, hplain.mp hcaptures, by decide, hfree, hkept hfree, hself⟩

end UntypedLambda.Term
