import UntypedLambda.Proofs.Redex

/-!
# A step as a recursion

A step looks for a path, follows it to the redex and puts the contracted term back. The same can be
said by recursion over the term, without any path: an application is reduced in its left side if
that takes a step, else in its right side if that does, and is contracted itself only if neither
does. The path that a step looks for is always there, so a step never fails on the way.
-/

namespace UntypedLambda.Term

/-- The term after one step, by recursion; `none` if there is no step to take. -/
def reduceOnce? : Term → Option Term
  | var _ => none
  | abs param body => body.reduceOnce?.map (abs param)
  | app left right =>
    match left.reduceOnce? with
    | some left' => some (app left' right)
    | none =>
      match right.reduceOnce? with
      | some right' => some (app left right')
      | none =>
        match left with
        | abs param body => some (body.subst param right)
        | _ => none

/-- A term takes no step exactly if the search for a redex finds none. -/
theorem step?_eq_none_iff_firstRedex {t : Term} : t.step? = none ↔ t.firstRedex = none :=
  step?_eq_none.trans firstRedex_eq_none_iff.symm

/-- A step that follows the first redex. -/
theorem step?_of_firstRedex {t u : Term} {path : Path} (hfirst : t.firstRedex = some path)
    (hcontract : ContractsAt path t u) : t.step? = some u :=
  step?_eq_some.mpr ⟨path, hfirst, hcontract⟩

/-- An abstraction takes the steps of its body and keeps its parameter. -/
theorem step?_abs (param : String) (body : Term) :
    (abs param body).step? = body.step?.map (abs param) := by
  cases hbody : body.step? with
  | none =>
    rw [step?_eq_none_iff_firstRedex] at hbody
    rw [Option.map_none, step?_eq_none_iff_firstRedex, firstRedex, hbody, Option.map_none]
  | some body' =>
    obtain ⟨path, hfirst, hcontract⟩ := step?_eq_some.mp hbody
    have hpath : (abs param body).firstRedex = some (0 :: path) := by
      rw [firstRedex, hfirst, Option.map_some]
    rw [Option.map_some]
    exact step?_of_firstRedex hpath (.abs param hcontract)

/-- An application takes the step of its left side if there is one. -/
theorem step?_app_left {left left' : Term} (right : Term) (hleft : left.step? = some left') :
    (app left right).step? = some (app left' right) := by
  obtain ⟨path, hfirst, hcontract⟩ := step?_eq_some.mp hleft
  have hpath : (app left right).firstRedex = some (0 :: path) := by
    rw [firstRedex, hfirst, Option.map_some, Option.some_or]
  exact step?_of_firstRedex hpath (.left right hcontract)

/-- An application takes the step of its right side if its left side takes none. -/
theorem step?_app_right {left right right' : Term} (hleft : left.step? = none)
    (hright : right.step? = some right') :
    (app left right).step? = some (app left right') := by
  rw [step?_eq_none_iff_firstRedex] at hleft
  obtain ⟨path, hfirst, hcontract⟩ := step?_eq_some.mp hright
  have hpath : (app left right).firstRedex = some (1 :: path) := by
    rw [firstRedex, hleft, Option.map_none, Option.none_or, hfirst, Option.map_some,
      Option.some_or]
  exact step?_of_firstRedex hpath (.right left hcontract)

/-- The search finds an application itself where it finds nothing in its sides. -/
theorem firstRedex_app_self {left right : Term} (hleft : left.step? = none)
    (hright : right.step? = none) :
    (app left right).firstRedex = if (app left right).isRedex then some [] else none := by
  rw [step?_eq_none_iff_firstRedex] at hleft hright
  rw [firstRedex, hleft, hright, Option.map_none, Option.map_none, Option.none_or, Option.none_or]

/-- The recursion says what a step does. -/
theorem step?_eq_reduceOnce? (t : Term) : t.step? = t.reduceOnce? := by
  induction t with
  | var name => exact step?_eq_none_iff_firstRedex.mpr rfl
  | abs param body ih => rw [step?_abs, reduceOnce?, ih]
  | app left right ihl ihr =>
    rw [reduceOnce?.eq_def]
    dsimp only
    rw [← ihl, ← ihr]
    cases hleft : left.step? with
    | some left' => exact step?_app_left right hleft
    | none =>
      cases hright : right.step? with
      | some right' => exact step?_app_right hleft hright
      | none =>
        have hfirst := firstRedex_app_self hleft hright
        cases left with
        | abs param body => exact step?_of_firstRedex hfirst (.root param body right)
        | var _ => exact step?_eq_none_iff_firstRedex.mpr hfirst
        | app _ _ => exact step?_eq_none_iff_firstRedex.mpr hfirst

/-- The first redex has no redex in its nodes. -/
theorem normal_nodes_of_firstRedex {t redex : Term} {path : Path}
    (hfirst : t.firstRedex = some path) (hget : t.get path = .ok redex) :
    ∀ sub ∈ redex.nodes, Normal sub := by
  induction t generalizing path with
  | var name => cases hfirst
  | abs param body ih =>
    obtain ⟨inner, hinner, rfl⟩ := Option.map_eq_some_iff.mp hfirst
    obtain ⟨sub, hnode, hsub⟩ := get_cons_eq_ok.mp hget
    obtain rfl := Except.ok.inj ((node_abs param body).symm.trans hnode)
    exact ih hinner hsub
  | app left right ihl ihr =>
    rw [firstRedex, Option.or_eq_some_iff, Option.or_eq_some_iff] at hfirst
    rcases hfirst with hleft | ⟨hnoLeft, hright | ⟨hnoRight, hroot⟩⟩
    · obtain ⟨inner, hinner, rfl⟩ := Option.map_eq_some_iff.mp hleft
      obtain ⟨sub, hnode, hsub⟩ := get_cons_eq_ok.mp hget
      obtain rfl := Except.ok.inj ((node_left left right).symm.trans hnode)
      exact ihl hinner hsub
    · obtain ⟨inner, hinner, rfl⟩ := Option.map_eq_some_iff.mp hright
      obtain ⟨sub, hnode, hsub⟩ := get_cons_eq_ok.mp hget
      obtain rfl := Except.ok.inj ((node_right left right).symm.trans hnode)
      exact ihr hinner hsub
    · split at hroot
      · obtain rfl := Option.some.inj hroot
        obtain rfl := Except.ok.inj hget
        intro sub hsub
        rcases List.mem_pair.mp hsub with rfl | rfl
        · exact normal_of_firstRedex (Option.map_eq_none_iff.mp hnoLeft)
        · exact normal_of_firstRedex (Option.map_eq_none_iff.mp hnoRight)
      · cases hroot

/-- A step is the recursive one. There is a path to a next redex unless the term has no redex at
any path. Where there is one, it leads to an abstraction that is applied, with no redex in the
abstraction or its argument, and the contracted term can be put back at its end. -/
theorem step_refines_recursion (t : Term) :
    t.step? = t.reduceOnce? ∧ (t.redexPath = none ↔ Normal t) ∧
      ∀ path, t.redexPath = some path → ∃ param body argument u,
        t.get path = .ok (app (abs param body) argument) ∧
        Normal (abs param body) ∧ Normal argument ∧
        t.set path (body.subst param argument) = .ok u ∧ t.step? = some u := by
  refine ⟨step?_eq_reduceOnce? t, ?_, fun path hpath => ?_⟩
  · rw [redexPath_eq, firstRedex_eq_none_iff]
  · rw [redexPath_eq] at hpath
    obtain ⟨u, hcontract⟩ := contractsAt_of_firstRedex hpath
    obtain ⟨redex, contractum, hget, hredex, hset⟩ :=
      contractAt?_eq_some.mp (contractAt?_iff.mpr hcontract)
    obtain ⟨param, body, argument, rfl, rfl⟩ := contract?_eq_some.mp hredex
    have hnormal := normal_nodes_of_firstRedex hpath hget
    have hleft : Normal (abs param body) := hnormal _ List.mem_cons_self
    have hright : Normal argument := hnormal _ (by simp [nodes])
    exact ⟨param, body, argument, u, hget, hleft, hright, hset,
      step?_of_firstRedex hpath hcontract⟩

/-- Two redexes, one of them in the argument of the other: the argument is contracted first. -/
theorem step_refines_recursion_argument :
    let double := abs "x" (app (var "x") (var "x"))
    let t := app double (app (abs "y" (var "y")) (var "z"))
    t.redexPath = some [1] ∧ t.step? = some (app double (var "z")) ∧
      ∃ param body argument u, t.get [1] = .ok (app (abs param body) argument) ∧
        Normal (abs param body) ∧ Normal argument ∧
        t.set [1] (body.subst param argument) = .ok u ∧ t.step? = some u := by
  intro double t
  have hpath : t.redexPath = some [1] := by decide +kernel
  have hrecursive : t.reduceOnce? = some (app double (var "z")) := by decide +kernel
  have hstep := step_refines_recursion t
  exact ⟨hpath, hstep.1.trans hrecursive, hstep.2.2 [1] hpath⟩

end UntypedLambda.Term
