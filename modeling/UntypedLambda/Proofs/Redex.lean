import UntypedLambda.Proofs.Contraction

/-!
# The redex that is contracted next

The walk over an agenda finds the redex that a recursive search finds: first in the left side of an
application, then in the right side, and only then the application itself. A term in which the
search finds nothing has no redex at any path, and only such terms take no step.
-/

namespace UntypedLambda.Term

/-- The path to the first redex: in the nodes from left to right, then the term itself. -/
def firstRedex : Term → Option Path
  | var _ => none
  | abs _ body => body.firstRedex.map (0 :: ·)
  | app left right =>
    (left.firstRedex.map (0 :: ·)).or
      ((right.firstRedex.map (1 :: ·)).or (if (app left right).isRedex then some [] else none))

/-- Whether no path leads to a redex. -/
def Normal (t : Term) : Prop := ∀ path sub, t.get path = .ok sub → sub.isRedex = false

/-- Entering a term finds its first redex, or goes on with the agenda if there is none. -/
theorem findRedex_enter (t : Term) (trail : Path) (agenda : List Visit) :
    findRedex (.enter t trail :: agenda) =
      (t.firstRedex.map (trail.reverse ++ ·)).or (findRedex agenda) := by
  induction t generalizing trail agenda with
  | var name =>
    have hnodes : visitNodes (var name) trail = [] := rfl
    rw [findRedex, hnodes, List.nil_append, findRedex]
    rfl
  | abs param body ih =>
    have hnodes : visitNodes (abs param body) trail = [.enter body (0 :: trail)] := rfl
    rw [findRedex, hnodes, List.singleton_append, ih, findRedex, firstRedex]
    cases body.firstRedex <;> simp [isRedex]
  | app left right ihl ihr =>
    have hnodes : visitNodes (app left right) trail =
        [.enter left (0 :: trail), .enter right (1 :: trail)] := rfl
    rw [findRedex, hnodes, List.cons_append, List.singleton_append, ihl, ihr, findRedex, firstRedex]
    cases left.firstRedex <;> cases right.firstRedex <;>
      cases (app left right).isRedex <;> simp

/-- The walk finds the first redex. -/
theorem redexPath_eq (t : Term) : t.redexPath = t.firstRedex := by
  unfold redexPath
  rw [findRedex_enter, findRedex]
  cases t.firstRedex <;> rfl

/-- The first redex can be contracted. -/
theorem contractsAt_of_firstRedex {t : Term} {path : Path} (h : t.firstRedex = some path) :
    ∃ u, ContractsAt path t u := by
  induction t generalizing path with
  | var name => cases h
  | abs param body ih =>
    obtain ⟨inner, hinner, rfl⟩ := Option.map_eq_some_iff.mp h
    obtain ⟨body', hbody⟩ := ih hinner
    exact ⟨_, .abs param hbody⟩
  | app left right ihl ihr =>
    rw [firstRedex, Option.or_eq_some_iff, Option.or_eq_some_iff] at h
    rcases h with hleft | ⟨-, hright | ⟨-, hroot⟩⟩
    · obtain ⟨inner, hinner, rfl⟩ := Option.map_eq_some_iff.mp hleft
      obtain ⟨left', hleft'⟩ := ihl hinner
      exact ⟨_, .left right hleft'⟩
    · obtain ⟨inner, hinner, rfl⟩ := Option.map_eq_some_iff.mp hright
      obtain ⟨right', hright'⟩ := ihr hinner
      exact ⟨_, .right left hright'⟩
    · split at hroot
      · next hredex =>
        obtain rfl := Option.some.inj hroot
        cases left with
        | abs param body => exact ⟨_, .root param body right⟩
        | var _ => cases hredex
        | app _ _ => cases hredex
      · cases hroot

/-- A term without a first redex has no redex at any path. -/
theorem normal_of_firstRedex {t : Term} (h : t.firstRedex = none) : Normal t := by
  intro path
  induction path generalizing t with
  | nil =>
    intro sub hget
    obtain rfl := Except.ok.inj hget
    cases t with
    | var name => rfl
    | abs param body => rfl
    | app left right =>
      rw [firstRedex, Option.or_eq_none_iff, Option.or_eq_none_iff] at h
      by_contra hredex
      rw [Bool.not_eq_false] at hredex
      rw [if_pos hredex] at h
      cases h.2.2
  | cons index path ih =>
    intro sub hget
    obtain ⟨inner, hnode, hinner⟩ := get_cons_eq_ok.mp hget
    refine ih ?_ sub hinner
    have hmem := mem_nodes_of_node hnode
    cases t with
    | var name => cases hmem
    | abs param body =>
      obtain rfl := List.mem_singleton.mp hmem
      exact Option.map_eq_none_iff.mp h
    | app left right =>
      rw [firstRedex, Option.or_eq_none_iff, Option.or_eq_none_iff] at h
      rcases List.mem_pair.mp hmem with rfl | rfl
      · exact Option.map_eq_none_iff.mp h.1
      · exact Option.map_eq_none_iff.mp h.2.1

/-- A term without redexes does not contract. -/
theorem Normal.not_contracts {t u : Term} (h : Normal t) : ¬Contracts t u := by
  rintro ⟨path, hcontract⟩
  obtain ⟨redex, contractum, hget, hredex, -⟩ := contractAt?_eq_some.mp hcontract
  obtain ⟨param, body, argument, rfl, -⟩ := contract?_eq_some.mp hredex
  cases h path _ hget

/-- A term takes no step exactly if it has no redex. -/
theorem firstRedex_eq_none_iff {t : Term} : t.firstRedex = none ↔ Normal t := by
  constructor
  · exact normal_of_firstRedex
  · intro h
    cases hfirst : t.firstRedex with
    | none => rfl
    | some path =>
      obtain ⟨u, hu⟩ := contractsAt_of_firstRedex hfirst
      exact absurd (contracts_iff.mpr ⟨path, hu⟩) h.not_contracts

/-- A step contracts the first redex. -/
theorem step?_eq_some {t u : Term} :
    t.step? = some u ↔ ∃ path, t.firstRedex = some path ∧ ContractsAt path t u := by
  simp [step?, redexPath_eq, Option.bind_eq_some_iff, contractAt?_iff]

/-- A term that takes no step has no redex. -/
theorem step?_eq_none {t : Term} : t.step? = none ↔ Normal t := by
  rw [← firstRedex_eq_none_iff]
  constructor
  · intro h
    cases hfirst : t.firstRedex with
    | none => rfl
    | some path =>
      obtain ⟨u, hu⟩ := contractsAt_of_firstRedex hfirst
      rw [step?_eq_some.mpr ⟨path, hfirst, hu⟩] at h
      cases h
  · intro h
    cases hstep : t.step? with
    | none => rfl
    | some u =>
      obtain ⟨path, hfirst, -⟩ := step?_eq_some.mp hstep
      rw [h] at hfirst
      cases hfirst

end UntypedLambda.Term
