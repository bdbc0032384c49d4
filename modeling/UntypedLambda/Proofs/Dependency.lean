import Mathlib.Data.Finset.Card
import Mathlib.Logic.Relation
import UntypedLambda.Expansion

/-!
# Definitions that refer to one another

The definition of a name refers to every defined name that is free in it. As long as no definition
leads back to its own name, every name has a rank: the number of defined names that it leads to.
A name ranks above all names that its definition refers to, and there are fewer ranks than
definitions.
-/

namespace UntypedLambda.Definitions

open Relation (TransGen)

/-- Whether the definition of a name holds another defined name free. -/
def Refers (definitions : Definitions) (name other : String) : Prop :=
  ∃ term, (name, term) ∈ definitions.entries ∧ other ∈ term.freeNames ∧ other ∈ definitions.names

/-- Whether no definition leads back to its own name. -/
def Acyclic (definitions : Definitions) : Prop :=
  ∀ name, ¬ TransGen definitions.Refers name name

open Classical in
/-- The number of defined names that a name leads to. -/
noncomputable def rank (definitions : Definitions) (name : String) : Nat :=
  (definitions.names.toFinset.filter fun other => TransGen definitions.Refers name other).card

variable {definitions : Definitions}

/-- A name ranks above the names that its definition refers to. -/
theorem Acyclic.rank_lt (h : definitions.Acyclic) {name other : String}
    (hrefers : definitions.Refers name other) : definitions.rank other < definitions.rank name := by
  obtain ⟨term, hentry, hfree, hdefined⟩ := hrefers
  have hstep : TransGen definitions.Refers name other := .single ⟨term, hentry, hfree, hdefined⟩
  refine Finset.card_lt_card ?_
  rw [Finset.ssubset_iff_of_subset]
  · refine ⟨other, ?_, ?_⟩
    · simp [hstep, hdefined]
    · simp [h other]
  · intro further hfurther
    simp only [Finset.mem_filter] at hfurther ⊢
    exact ⟨hfurther.1, hstep.trans hfurther.2⟩

/-- There are more definitions than a defined name leads to. -/
theorem Acyclic.rank_lt_length (h : definitions.Acyclic) {name : String}
    (hdefined : name ∈ definitions.names) :
    definitions.rank name < definitions.entries.length := by
  classical
  have hself : name ∈ definitions.names.toFinset := List.mem_toFinset.mpr hdefined
  have hless : definitions.rank name < definitions.names.toFinset.card := by
    refine Finset.card_lt_card ?_
    rw [Finset.ssubset_iff_of_subset (Finset.filter_subset _ _)]
    exact ⟨name, hself, by simp [h name]⟩
  have hnames : definitions.names.length = definitions.entries.length := List.length_map _
  have hcard := List.toFinset_card_le definitions.names
  omega

/-- A name that is bound to a term without defined names leads nowhere, so the other definitions
refer to one another as before. -/
theorem refers_of_transGen_put {bound name other : String} {term : Term}
    (hbound : bound ∉ term.freeNames) (hterm : ∀ x ∈ definitions.names, x ∉ term.freeNames)
    (hpath : TransGen (Refers (definitions.put bound term)) name other) :
    name ≠ bound ∧ (other ≠ bound → TransGen definitions.Refers name other) := by
  have hstep {name other : String} (hrefers : Refers (definitions.put bound term) name other) :
      name ≠ bound ∧ (other ≠ bound → definitions.Refers name other) := by
    obtain ⟨present, hentry, hfree, hdefined⟩ := hrefers
    rw [Table.mem_names_put] at hdefined
    rcases Table.mem_put.mp hentry with ⟨-, rfl⟩ | ⟨hname, hold⟩
    · rcases hdefined with rfl | hdefined
      · exact absurd hfree hbound
      · exact absurd hfree (hterm other hdefined)
    · exact ⟨hname, fun hother => ⟨present, hold, hfree, hdefined.resolve_left hother⟩⟩
  induction hpath with
  | single hrefers => exact ⟨(hstep hrefers).1, fun hother => .single ((hstep hrefers).2 hother)⟩
  | tail _ hrefers ih =>
    obtain ⟨hmiddle, hold⟩ := hstep hrefers
    exact ⟨ih.1, fun hother => (ih.2 hmiddle).tail (hold hother)⟩

/-- Binding a name to a term without defined names, and without the name itself, makes no cycle. -/
theorem Acyclic.put (h : definitions.Acyclic) {bound : String} {term : Term}
    (hbound : bound ∉ term.freeNames) (hterm : ∀ x ∈ definitions.names, x ∉ term.freeNames) :
    Acyclic (definitions.put bound term) := by
  intro name hcycle
  obtain ⟨hname, hold⟩ := refers_of_transGen_put hbound hterm hcycle
  exact h name (hold hname)

/-- The order of the definitions does not count for their references. -/
theorem Acyclic.of_perm (h : definitions.Acyclic) {reordered : Definitions}
    (hperm : reordered.entries.Perm definitions.entries) : reordered.Acyclic := by
  have hnames : reordered.names.Perm definitions.names := hperm.map Prod.fst
  intro name hcycle
  refine h name (hcycle.lift id fun name other ⟨term, hentry, hfree, hdefined⟩ => ?_)
  exact ⟨term, hperm.mem_iff.mp hentry, hfree, hnames.mem_iff.mp hdefined⟩

/-- Definitions without any reference are acyclic. -/
theorem acyclic_of_not_refers (h : ∀ name other, ¬ definitions.Refers name other) :
    definitions.Acyclic := by
  intro name hcycle
  obtain ⟨other, hstep, -⟩ := Relation.TransGen.head'_iff.mp hcycle
  exact h name other hstep

end UntypedLambda.Definitions
