import Mathlib.Data.List.Count
import UntypedLambda.Proofs.Substitution

/-!
# How deep substitution goes and how large its result is

Where substitution renames a parameter, it goes on with the result of another substitution, so the
term that it goes on with is no part of the one it started from. A variable in place of a name
leaves the shape of a term as it is, however many parameters are renamed on the way. So the
recursion goes no deeper than the term that is substituted in, and each free occurrence of the name
adds the nodes of the new term but for the one of the variable that it replaces.
-/

namespace UntypedLambda.Term

/-- The number of nodes on the longest way from the whole term to a variable. -/
def depth : Term → Nat
  | var _ => 1
  | abs _ body => 1 + body.depth
  | app left right => 1 + max left.depth right.depth

/-- Substitution by a recursion that may go down only so many levels; `none` if they are not
enough. A substitution into the result of another one is a level below, as the other one is. -/
def substWithin? : Nat → Term → String → Term → Option Term
  | 0, _, _, _ => none
  | _ + 1, var x, name, new => some (if x = name then new else var x)
  | levels + 1, abs param body, name, new =>
    if param = name then some (abs param body)
    else if new.free param && body.free name then
      let renamed := fresh param (app new body)
      match substWithin? levels body param (var renamed) with
      | some moved => (substWithin? levels moved name new).map (abs renamed)
      | none => none
    else (substWithin? levels body name new).map (abs param)
  | levels + 1, app left right, name, new =>
    match substWithin? levels left name new with
    | some left' => (substWithin? levels right name new).map (app left')
    | none => none

/-- The whole term is on the way. -/
theorem depth_pos (t : Term) : 0 < t.depth := by
  cases t <;> simp only [depth] <;> omega

/-- Putting a variable in place of a name keeps the depth. -/
theorem depth_subst_var (t : Term) (name z : String) :
    (t.subst name (var z)).depth = t.depth := by
  suffices h : ∀ (t : Term) (name : String) (new : Term), new.depth = 1 →
      (t.subst name new).depth = t.depth from h t name (var z) rfl
  intro t name new
  induction t, name, new using subst_induction with
  | var x name new =>
    intro hnew
    rw [subst_var]
    split
    · exact hnew
    · rfl
  | shadowed body name new => rw [subst_abs_self]; exact fun _ => rfl
  | renamed param body name new hparam hnew hbody ihMoved ihInner =>
    intro hdepth
    rw [subst_abs_renamed hparam hnew hbody, depth, depth, ihInner _ hdepth, ihMoved _ rfl]
  | kept param body name new hparam h ih =>
    intro hdepth
    rw [subst_abs_kept hparam h, depth, depth, ih hdepth]
  | app left right name new ihl ihr =>
    intro hdepth
    rw [subst_app, depth, depth, ihl hdepth, ihr hdepth]

/-- What is enough for a term is a level at least. -/
theorem exists_level {t : Term} {levels : Nat} (h : t.depth ≤ levels) :
    ∃ below, levels = below + 1 :=
  Nat.exists_eq_add_one_of_ne_zero (Nat.ne_of_gt (Nat.lt_of_lt_of_le t.depth_pos h))

/-- As many levels as the term is deep are enough. -/
theorem substWithin?_of_depth_le {t : Term} {levels : Nat} (name : String) (new : Term)
    (h : t.depth ≤ levels) : substWithin? levels t name new = some (t.subst name new) := by
  obtain ⟨below, rfl⟩ := exists_level h
  induction t, name, new using subst_induction generalizing below with
  | var x name new => rw [substWithin?, subst_var]
  | shadowed body name new => rw [substWithin?, if_pos rfl, subst_abs_self]
  | renamed param body name new hparam hnew hbody ihMoved ihInner =>
    rw [depth, Nat.add_comm, Nat.add_le_add_iff_right] at h
    obtain ⟨lower, rfl⟩ := exists_level h
    have hmoved := ihMoved (fresh param (app new body)) lower h
    have hinner := ihInner (fresh param (app new body)) lower
      (Nat.le_trans (Nat.le_of_eq (depth_subst_var body param _)) h)
    rw [substWithin?, if_neg hparam, if_pos (capture_test_iff.mpr ⟨hnew, hbody⟩)]
    dsimp only
    rw [hmoved, subst_abs_renamed hparam hnew hbody]
    dsimp only
    rw [hinner, Option.map_some]
  | kept param body name new hparam hkept ih =>
    rw [depth, Nat.add_comm, Nat.add_le_add_iff_right] at h
    obtain ⟨lower, rfl⟩ := exists_level h
    rw [substWithin?, if_neg hparam, if_neg (mt capture_test_iff.mp (not_and_or.mpr hkept)),
      ih lower h, subst_abs_kept hparam hkept, Option.map_some]
  | app left right name new ihl ihr =>
    rw [depth, Nat.add_comm, Nat.add_le_add_iff_right, Nat.max_le] at h
    obtain ⟨lower, rfl⟩ := exists_level h.1
    rw [substWithin?, ihl lower h.1]
    dsimp only
    rw [ihr lower h.2, subst_app, Option.map_some]

/-- Every free occurrence of another name stays one, and every free occurrence of the name becomes
as many as the new term has. -/
theorem count_freeNames_subst (t : Term) (name : String) (new : Term) (other : String) :
    (t.subst name new).freeNames.count other =
      (if other = name then 0 else t.freeNames.count other) +
        t.freeNames.count name * new.freeNames.count other := by
  rw [freeNames_subst]
  induction t.freeNames with
  | nil => simp
  | cons first rest ih =>
    rw [List.flatMap_cons, List.count_append, ih]
    by_cases hfirst : first = name
    · rw [if_pos hfirst, hfirst, List.count_cons_self, Nat.add_mul, Nat.one_mul]
      split
      · omega
      · next hother =>
        rw [List.count_cons_of_ne (Ne.symm hother)]
        omega
    · rw [if_neg hfirst, List.count_cons_of_ne hfirst]
      by_cases hother : other = name
      · have hnone : [first].count other = 0 := List.count_eq_zero.mpr fun h =>
          hfirst ((List.mem_singleton.mp h).symm.trans hother)
        rw [if_pos hother, if_pos hother, hnone, Nat.zero_add]
      · rw [if_neg hother, if_neg hother, List.count_singleton, List.count_cons]
        omega

/-- Putting a variable in place of a name makes no difference to the other names but for the one of
the variable. -/
theorem count_freeNames_subst_var {name z other : String} (t : Term) (hname : other ≠ name)
    (hz : other ≠ z) :
    (t.subst name (var z)).freeNames.count other = t.freeNames.count other := by
  have hnone : (var z).freeNames.count other = 0 := List.count_eq_zero.mpr fun h =>
    hz (List.mem_singleton.mp h)
  rw [count_freeNames_subst, if_neg hname, hnone, Nat.mul_zero, Nat.add_zero]

/-- What is free in an abstraction and not its parameter is free as often in the body. -/
theorem count_freeNames_abs {param name : String} (body : Term) (h : name ≠ param) :
    (abs param body).freeNames.count name = body.freeNames.count name :=
  List.count_filter (decide_eq_true h)

/-- Every free occurrence of the name is a node that the nodes of the new term take the place of. -/
theorem size_subst (t : Term) (name : String) (new : Term) :
    (t.subst name new).size = t.size + t.freeNames.count name * (new.size - 1) := by
  induction t, name, new using subst_induction with
  | var x name new =>
    rw [subst_var, freeNames, List.count_singleton]
    by_cases hx : x = name
    · have hnode := new.size_pos
      rw [if_pos hx, if_pos (beq_iff_eq.mpr hx), size]
      omega
    · rw [if_neg hx, if_neg (mt eq_of_beq hx), Nat.zero_mul, Nat.add_zero]
  | shadowed body name new =>
    have hnone : (abs name body).freeNames.count name = 0 :=
      List.count_eq_zero.mpr fun hname => of_decide_eq_true (List.mem_filter.mp hname).2 rfl
    rw [subst_abs_self, hnone, Nat.zero_mul, Nat.add_zero]
  | renamed param body name new hparam hnew hbody ihMoved ihInner =>
    have hfresh := fresh_notMem param (app new body)
    rw [subst_abs_renamed hparam hnew hbody]
    generalize fresh param (app new body) = z at hfresh ⊢
    have hz : name ≠ z := fun h => hfresh (List.mem_append_right _ (h ▸ hbody))
    rw [size, size, ihInner, size_subst_var, count_freeNames_subst_var body hparam.symm hz,
      count_freeNames_abs body hparam.symm, Nat.add_assoc]
  | kept param body name new hparam h ih =>
    rw [subst_abs_kept hparam h, size, size, ih, count_freeNames_abs body hparam.symm,
      Nat.add_assoc]
  | app left right name new ihl ihr =>
    rw [subst_app, size, size, freeNames, List.count_append, ihl, ihr, Nat.add_mul]
    omega

/-- Substitution ends, no more levels down than the term is deep, also where it substitutes into the
result of another substitution. Each free occurrence of the name adds the nodes of the new term but
one. So a parameter that gets another name leaves the body as large as it is, with the other names
as often in it. -/
theorem subst_ends_with_size (t : Term) (name : String) (new : Term) :
    (∀ levels, t.depth ≤ levels → substWithin? levels t name new = some (t.subst name new)) ∧
      (t.subst name new).size = t.size + t.freeNames.count name * (new.size - 1) ∧
      ∀ z, (t.subst name (var z)).size = t.size ∧ ∀ other, other ≠ name → other ≠ z →
        (t.subst name (var z)).freeNames.count other = t.freeNames.count other :=
  ⟨fun _ hlevels => substWithin?_of_depth_le name new hlevels, size_subst t name new, fun z =>
    ⟨size_subst_var t name z, fun _ => count_freeNames_subst_var t⟩⟩

/-- Two parameters that both get other names, the second one because of the name that the first one
got: the second renaming is met in the result of the first. -/
theorem subst_ends_with_size_renamed_twice :
    let inside (new y y' : Term) := app new (app (var "a") (app y (app y' new)))
    let t := abs "y" (abs "y'" (inside (var "x") (var "y") (var "y'")))
    let new := app (var "y") (var "y'")
    let result := abs "y''" (abs "y'''" (inside new (var "y''") (var "y'''")))
    t.depth ≤ 7 ∧ substWithin? 7 t "x" new = some result ∧ result.size = t.size + 2 * 2 ∧
      (t.subst "x" (var "y")).size = t.size ∧ "a" ≠ "x" ∧ "a" ≠ "y" ∧
      (t.subst "x" (var "y")).freeNames.count "a" = t.freeNames.count "a" := by
  intro inside t new result
  have hdepth : t.depth ≤ 7 := by decide
  have hname : "a" ≠ "x" := by decide
  have hother : "a" ≠ "y" := by decide
  have hresult : t.subst "x" new = result := by decide +kernel
  have hcount : t.freeNames.count "x" * (new.size - 1) = 2 * 2 := by decide
  obtain ⟨hlevels, hsize, hrenamed⟩ := subst_ends_with_size t "x" new
  rw [hresult] at hlevels hsize
  rw [hcount] at hsize
  exact ⟨hdepth, hlevels 7 hdepth, hsize, (hrenamed "y").1, hname, hother,
    (hrenamed "y").2 "a" hname hother⟩

end UntypedLambda.Term
