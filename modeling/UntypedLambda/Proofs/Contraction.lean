import UntypedLambda.Proofs.Substitution
import UntypedLambda.Term.Step

/-!
# Contractions at paths

Contracting at a path looks the redex up and rebuilds the terms on the way back from it. The
relation that says what this comes to has one rule for each way to go on with a path, so everything
about contractions is an induction over its rules, and no proof looks at paths again.
-/

namespace UntypedLambda.Term

/-- One term contracts to another at a path. -/
inductive ContractsAt : Path → Term → Term → Prop where
  /-- The redex is the whole term. -/
  | root (param : String) (body argument : Term) :
      ContractsAt [] (app (abs param body) argument) (body.subst param argument)
  /-- The redex is in the body. -/
  | abs {path : Path} {body body' : Term} (param : String) (step : ContractsAt path body body') :
      ContractsAt (0 :: path) (abs param body) (abs param body')
  /-- The redex is in the left side. -/
  | left {path : Path} {left left' : Term} (right : Term) (step : ContractsAt path left left') :
      ContractsAt (0 :: path) (app left right) (app left' right)
  /-- The redex is in the right side. -/
  | right {path : Path} {right right' : Term} (left : Term) (step : ContractsAt path right right') :
      ContractsAt (1 :: path) (app left right) (app left right')

/-- A contraction of any redex of a term. -/
def Contracts (t u : Term) : Prop := ∃ path, t.contractAt? path = some u

/-- An outcome without its fault is there exactly if there was no fault. -/
theorem toOption_eq_some {ε α : Type} {result : Except ε α} {a : α} :
    result.toOption = some a ↔ result = .ok a := by
  cases result <;> simp [Except.toOption]

/-- A node that is found is one of the nodes. -/
theorem mem_nodes_of_node {t sub : Term} {index : Int} (h : t.node index = .ok sub) :
    sub ∈ t.nodes := by
  unfold node at h
  generalize (if index < 0 then index + (t.nodes.length : Int) else index) = place at h
  dsimp only at h
  split at h
  · cases h
  · split at h
    · cases h
    · split at h
      · next found =>
        obtain rfl := Except.ok.inj h
        exact List.mem_of_getElem? found
      · cases h

/-- The body of an abstraction is its node. -/
theorem node_abs (param : String) (body : Term) : (abs param body).node 0 = .ok body := rfl

/-- The left side of an application is its first node. -/
theorem node_left (left right : Term) : (app left right).node 0 = .ok left := rfl

/-- The right side of an application is its second node. -/
theorem node_right (left right : Term) : (app left right).node 1 = .ok right := rfl

/-- A replaced node is the body, the left side or the right side, by its exact index. -/
theorem replace_eq_ok {t new u : Term} {index : Int} :
    t.replace index new = .ok u ↔
      (∃ param body, t = abs param body ∧ index = 0 ∧ u = abs param new) ∨
      (∃ left right, t = app left right ∧ index = 0 ∧ u = app new right) ∨
      (∃ left right, t = app left right ∧ index = 1 ∧ u = app left new) := by
  constructor
  · intro h
    cases t with
    | var name => cases h
    | abs param body =>
      rw [replace] at h
      split at h
      · next hindex => exact .inl ⟨param, body, rfl, hindex, (Except.ok.inj h).symm⟩
      · cases h
    | app left right =>
      rw [replace] at h
      split at h
      · next hindex => exact .inr (.inl ⟨left, right, rfl, hindex, (Except.ok.inj h).symm⟩)
      · split at h
        · next hindex => exact .inr (.inr ⟨left, right, rfl, hindex, (Except.ok.inj h).symm⟩)
        · cases h
  · rintro (⟨param, body, rfl, rfl, rfl⟩ | ⟨left, right, rfl, rfl, rfl⟩ |
      ⟨left, right, rfl, rfl, rfl⟩) <;> rfl

/-- A node that can be replaced is there. -/
theorem node_of_replace {t new u : Term} {index : Int} (h : t.replace index new = .ok u) :
    ∃ sub, t.node index = .ok sub := by
  obtain ⟨_, body, rfl, rfl, -⟩ | ⟨left, _, rfl, rfl, -⟩ | ⟨_, right, rfl, rfl, -⟩ :=
    replace_eq_ok.mp h
  · exact ⟨body, rfl⟩
  · exact ⟨left, rfl⟩
  · exact ⟨right, rfl⟩

/-- Looking up enters a node first. -/
theorem get_cons_eq_ok {t u : Term} {index : Int} {path : Path} :
    t.get (index :: path) = .ok u ↔ ∃ sub, t.node index = .ok sub ∧ sub.get path = .ok u := by
  rw [get]
  cases t.node index <;> simp

/-- Replacing enters a node first and puts the node back last. -/
theorem set_cons_eq_ok {t new u : Term} {index : Int} {path : Path} :
    t.set (index :: path) new = .ok u ↔
      ∃ sub sub', t.node index = .ok sub ∧ sub.set path new = .ok sub' ∧
        t.replace index sub' = .ok u := by
  cases path with
  | nil =>
    constructor
    · intro h
      obtain ⟨sub, hsub⟩ := node_of_replace h
      exact ⟨sub, new, hsub, rfl, h⟩
    · rintro ⟨sub, sub', -, hset, hreplace⟩
      obtain rfl := Except.ok.inj hset
      exact hreplace
  | cons next path =>
    have hmore : next :: path ≠ [] := List.cons_ne_nil next path
    rw [set]
    · cases hnode : t.node index with
      | error fault => simp
      | ok sub =>
        cases hset : sub.set (next :: path) new with
        | error fault => simp [hset]
        | ok sub' => simp [hset]
    · exact hmore

/-- A term contracts as a whole exactly if it applies an abstraction. -/
theorem contract?_eq_some {t u : Term} :
    t.contract? = some u ↔
      ∃ param body argument, t = app (abs param body) argument ∧ u = body.subst param argument := by
  constructor
  · intro h
    unfold contract? at h
    split at h
    · next left right =>
      cases left with
      | abs param body => exact ⟨param, body, right, rfl, (Option.some.inj h).symm⟩
      | var _ => cases h
      | app _ _ => cases h
    · cases h
  · rintro ⟨param, body, argument, rfl, rfl⟩
    rfl

/-- Contracting at a path finds a redex there, contracts it and puts the result back. -/
theorem contractAt?_eq_some {t u : Term} {path : Path} :
    t.contractAt? path = some u ↔
      ∃ redex contractum, t.get path = .ok redex ∧ redex.contract? = some contractum ∧
        t.set path contractum = .ok u := by
  simp [contractAt?, Option.bind_eq_some_iff, toOption_eq_some]

/-- Contracting at a longer path contracts in a node. -/
theorem contractAt?_cons {t u : Term} {index : Int} {path : Path} :
    t.contractAt? (index :: path) = some u ↔
      ∃ sub sub', t.node index = .ok sub ∧ sub.contractAt? path = some sub' ∧
        t.replace index sub' = .ok u := by
  simp only [contractAt?_eq_some, get_cons_eq_ok, set_cons_eq_ok]
  constructor
  · rintro ⟨redex, contractum, ⟨sub, hnode, hget⟩, hcontract, sub₂, sub', hnode₂, hset, hreplace⟩
    obtain rfl : sub = sub₂ := Except.ok.inj (hnode.symm.trans hnode₂)
    exact ⟨sub, sub', hnode, ⟨redex, contractum, hget, hcontract, hset⟩, hreplace⟩
  · rintro ⟨sub, sub', hnode, ⟨redex, contractum, hget, hcontract, hset⟩, hreplace⟩
    exact ⟨redex, contractum, ⟨sub, hnode, hget⟩, hcontract, sub, sub', hnode, hset, hreplace⟩

/-- The rules of contraction say what contracting at a path does. -/
theorem contractAt?_iff {t u : Term} {path : Path} :
    t.contractAt? path = some u ↔ ContractsAt path t u := by
  constructor
  · intro h
    induction path generalizing t u with
    | nil =>
      obtain ⟨redex, contractum, hget, hcontract, hset⟩ := contractAt?_eq_some.mp h
      obtain rfl := Except.ok.inj hget
      obtain rfl := Except.ok.inj hset
      obtain ⟨param, body, argument, rfl, rfl⟩ := contract?_eq_some.mp hcontract
      exact .root param body argument
    | cons index path ih =>
      obtain ⟨sub, sub', hnode, hsub, hreplace⟩ := contractAt?_cons.mp h
      obtain ⟨param, body, rfl, rfl, rfl⟩ | ⟨left, right, rfl, rfl, rfl⟩ |
        ⟨left, right, rfl, rfl, rfl⟩ := replace_eq_ok.mp hreplace
      · obtain rfl := Except.ok.inj ((node_abs param body).symm.trans hnode)
        exact .abs param (ih hsub)
      · obtain rfl := Except.ok.inj ((node_left left right).symm.trans hnode)
        exact .left right (ih hsub)
      · obtain rfl := Except.ok.inj ((node_right left right).symm.trans hnode)
        exact .right left (ih hsub)
  · intro h
    induction h with
    | root param body argument => exact contractAt?_eq_some.mpr ⟨_, _, rfl, rfl, rfl⟩
    | abs param _ ih => exact contractAt?_cons.mpr ⟨_, _, node_abs _ _, ih, rfl⟩
    | left right _ ih => exact contractAt?_cons.mpr ⟨_, _, node_left _ _, ih, rfl⟩
    | right left _ ih => exact contractAt?_cons.mpr ⟨_, _, node_right _ _, ih, rfl⟩

/-- A contraction happens at some path. -/
theorem contracts_iff {t u : Term} : Contracts t u ↔ ∃ path, ContractsAt path t u := by
  unfold Contracts
  simp only [contractAt?_iff]

end UntypedLambda.Term
