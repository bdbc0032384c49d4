import UntypedLambda.Proofs.Alpha
import UntypedLambda.Proofs.Occurrence
import UntypedLambda.Proofs.ReachableSession

/-!
# Expansion is one simultaneous substitution

The definitions are put in one after the other, in passes, into a term that already holds earlier
ones. All of this keeps the interpretation of the term in which every defined name stands for what
its definition is interpreted by. The interpretation exists, because definitions that are followed
to the depth of their rank mention no further names, and as it asks only which term a name is
defined as, the order of the definitions is of no account. When no defined name is free any more,
the interpretation of the term is its nameless form.
-/

namespace UntypedLambda

namespace Definitions

variable {definitions : Definitions}

/-- What a name stands for when definitions are followed to a depth. -/
def meaning (definitions : Definitions) : Nat → String → Nameless
  | 0, name => .free name
  | depth + 1, name =>
    match definitions.get? name with
    | some term => term.interpret (definitions.meaning depth)
    | none => .free name

/-- What a name stands for when every definition is followed to its end. -/
def wholeMeaning (definitions : Definitions) : String → Nameless :=
  definitions.meaning definitions.entries.length

/-- What takes the place of a name: its expansion if it is defined, and else the name itself. -/
def replacement (definitions : Definitions) (name : String) : Nameless :=
  if definitions.contains name then (definitions.expand (.var name)).nameless [] else .free name

/-- A name that is not defined stands for itself. -/
theorem meaning_of_notMem {name : String} (h : name ∉ definitions.names) (depth : Nat) :
    definitions.meaning depth name = .free name := by
  cases depth with
  | zero => rfl
  | succ depth => rw [meaning, Table.get?_eq_none_iff.mpr h]

/-- Following the definitions deeper than the rank of a name finds nothing new. -/
theorem Acyclic.meaning_succ (h : definitions.Acyclic) {name : String} {depth : Nat}
    (hrank : definitions.rank name < depth) :
    definitions.meaning (depth + 1) name = definitions.meaning depth name := by
  induction depth generalizing name with
  | zero => exact absurd hrank (Nat.not_lt_zero _)
  | succ depth ih =>
    rw [meaning, meaning]
    cases hget : definitions.get? name with
    | none => rfl
    | some term =>
      refine Term.interpret_congr fun other hother => ?_
      by_cases hdefined : other ∈ definitions.names
      · have hrefers : definitions.Refers name other :=
          ⟨term, Table.get?_eq_some_iff.mp hget, hother, hdefined⟩
        have hlower := h.rank_lt hrefers
        exact ih (by omega)
      · rw [meaning_of_notMem hdefined, meaning_of_notMem hdefined]

/-- A defined name stands for what its definition is interpreted by. -/
theorem Acyclic.wholeMeaning_eq (h : definitions.Acyclic) {name : String} {term : Term}
    (hentry : (name, term) ∈ definitions.entries) :
    definitions.wholeMeaning name = term.interpret definitions.wholeMeaning := by
  have hrank : definitions.rank name < definitions.entries.length :=
    h.rank_lt_length (List.mem_map.mpr ⟨_, hentry, rfl⟩)
  unfold wholeMeaning
  rw [← h.meaning_succ hrank, meaning, Table.get?_eq_some_iff.mpr hentry]

/-- Putting in the definition of a name keeps an interpretation by which the name stands for the
same as the definition. -/
theorem interpret_unfold (t : Term) {name : String} {term : Term} {ρ : String → Nameless}
    (hname : ρ name = term.interpret ρ) : (unfold t (name, term)).interpret ρ = t.interpret ρ := by
  unfold unfold
  split
  · rw [Term.interpret_subst, ← hname, Function.update_eq_self]
  · rfl

/-- A pass keeps what a term stands for. -/
theorem interpret_pass (t : Term) {ρ : String → Nameless}
    (hρ : ∀ name term, (name, term) ∈ definitions.entries → ρ name = term.interpret ρ) :
    (definitions.pass t).interpret ρ = t.interpret ρ := by
  unfold pass
  generalize definitions.entries = entries at hρ
  induction entries generalizing t with
  | nil => rfl
  | cons entry entries ih =>
    obtain ⟨name, term⟩ := entry
    have hentry : ρ name = term.interpret ρ := hρ name term List.mem_cons_self
    rw [List.foldl_cons, ih _ fun name term hmem => hρ name term (List.mem_cons_of_mem _ hmem),
      interpret_unfold t hentry]

/-- A run keeps what the term stands for. -/
theorem Expands.interpret_eq {t result : Term} (h : Expands definitions t result)
    {ρ : String → Nameless}
    (hρ : ∀ name term, (name, term) ∈ definitions.entries → ρ name = term.interpret ρ) :
    result.interpret ρ = t.interpret ρ := by
  induction h with
  | done _ => rfl
  | again _ _ ih => rw [ih, interpret_pass _ hρ]

/-- The nameless form of an expanded term is what the term stands for. -/
theorem Acyclic.nameless_expand (h : definitions.Acyclic) (t : Term) :
    (definitions.expand t).nameless [] = t.interpret definitions.wholeMeaning := by
  rw [← (h.expands t).interpret_eq fun name term => h.wholeMeaning_eq, Term.nameless_eq_interpret]
  refine Term.interpret_congr fun name hname => ?_
  have hdefined : name ∉ definitions.names := fun hmem => h.notMem_expand t name hmem hname
  exact (meaning_of_notMem hdefined _).symm

/-- What takes the place of a name is what the name stands for. -/
theorem Acyclic.replacement_eq (h : definitions.Acyclic) :
    definitions.replacement = definitions.wholeMeaning := by
  funext name
  unfold replacement
  split
  · exact h.nameless_expand (.var name)
  · next hcontains =>
    have hdefined : name ∉ definitions.names := by simpa [Table.contains] using hcontains
    exact (meaning_of_notMem hdefined _).symm

/-- Expanding puts all replacements in at once. -/
theorem Acyclic.nameless_expand_eq_fill (h : definitions.Acyclic) (t : Term) :
    (definitions.expand t).nameless [] = (t.nameless []).fill .bound definitions.replacement := by
  rw [h.nameless_expand, h.replacement_eq, Term.nameless_eq_interpret, Term.interpret_fill]
  rfl

/-- The order of the definitions does not count for what names stand for. -/
theorem wholeMeaning_perm {reordered : Definitions}
    (hperm : reordered.entries.Perm definitions.entries) :
    reordered.wholeMeaning = definitions.wholeMeaning := by
  have hget (name : String) : reordered.get? name = definitions.get? name := by
    ext term
    rw [Table.get?_eq_some_iff, Table.get?_eq_some_iff, hperm.mem_iff]
  have hmeaning (depth : Nat) : reordered.meaning depth = definitions.meaning depth := by
    induction depth with
    | zero => rfl
    | succ depth ih =>
      funext name
      rw [meaning, meaning, hget, ih]
  unfold wholeMeaning
  rw [hmeaning, hperm.length_eq]

/-- The order of the definitions does not count for the expansion. -/
theorem Acyclic.alpha_expand_of_perm (h : definitions.Acyclic) {reordered : Definitions}
    (hperm : reordered.entries.Perm definitions.entries) (t : Term) :
    Term.Alpha (definitions.expand t) (reordered.expand t) := by
  rw [Term.alpha_iff, h.nameless_expand, (h.of_perm hperm).nameless_expand,
    wholeMeaning_perm hperm]

end Definitions

namespace Session

/-- In every session that can be reached, the expansion of a term is the simultaneous substitution
of the expansions of all defined names, up to the names of parameters. It is the same in whatever
order the definitions are, and a variable that is bound in the term stays a variable of the same
abstraction, whether or not its name is defined. -/
theorem expansion_simultaneous {s : Session} (h : Reachable s) (t : Term) :
    (s.definitions.expand t).nameless [] =
        (t.nameless []).fill .bound s.definitions.replacement ∧
      (∀ reordered : Definitions, reordered.entries.Perm s.definitions.entries →
        Term.Alpha (s.definitions.expand t) (reordered.expand t)) ∧
      ∀ x path binders, Term.StandsAt (.var x) path binders t → x ∈ binders →
        ∃ y binders', Term.StandsAt (.var y) path binders' (s.definitions.expand t) ∧
          Term.resolve binders' y = Term.resolve binders x := by
  have hfill := h.acyclic.nameless_expand_eq_fill t
  exact ⟨hfill, fun _ hperm => h.acyclic.alpha_expand_of_perm hperm t,
    fun _ _ _ hstands hbound => hstands.of_fill hfill hbound⟩

/-- A definition that would be captured by a parameter, below which another defined name is bound;
the definitions are put in oldest first, and newest first. -/
theorem expansion_simultaneous_captured :
    let calls : List Call := [.define "f" "g x", .define "g" "λy.x y"]
    let s := calls.foldl Call.after (.start inputPath default true (.start true))
    let t := Term.abs "x" (.app (.var "f") (.abs "f" (.var "f")))
    let reordered : Definitions :=
      ⟨s.definitions.entries.reverse,
        ((List.reverse_perm _).map Prod.fst).nodup_iff.mpr s.definitions.distinct⟩
    Reachable s ∧ "f" ∈ s.definitions.names ∧
      (s.definitions.expand t).render = "(λx'.(λy.x y) x ((λf.f)))" ∧
      (s.definitions.expand t).nameless [] =
        (t.nameless []).fill .bound s.definitions.replacement ∧
      Term.Alpha (s.definitions.expand t) (reordered.expand t) ∧
      ∃ y binders', Term.StandsAt (.var y) [0, 1, 0] binders' (s.definitions.expand t) ∧
        Term.resolve binders' y = .bound 0 := by
  intro calls s t reordered
  have hreachable : Reachable s := (Reachable.start _ _ _ _).calls calls
  have hdefined : "f" ∈ s.definitions.names := by decide +kernel
  have hrender : (s.definitions.expand t).render = "(λx'.(λy.x y) x ((λf.f)))" := by decide +kernel
  have hstands : Term.StandsAt (.var "f") [0, 1, 0] ["f", "x"] t :=
    .body "x" (.right _ (.body "f" .here))
  have hexpansion := expansion_simultaneous hreachable t
  exact ⟨hreachable, hdefined, hrender, hexpansion.1, hexpansion.2.1 _ (List.reverse_perm _),
    hexpansion.2.2 _ _ _ hstands (by decide)⟩

end Session

end UntypedLambda
