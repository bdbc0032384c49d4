import Mathlib.Data.Finset.Basic
import UntypedLambda.Proofs.Spelling
import UntypedLambda.Term.Free

/-!
# Walks over an agenda and recursion over the term

The test for a free name and the writing of a text both work off an agenda on which entries of
different terms, and terms among texts, stand side by side. Whatever stands on the agenda, what the
walk comes to is put together from its entries, each of them taken by recursion over the term; so
for one term the walk and the recursion come to the same.
-/

namespace UntypedLambda

/-- The text of a piece, by recursion. -/
def Piece.spelling : Piece → String
  | .text s => s
  | .term t => t.spelling

namespace Term

/-- The set of the names that are free in a term. -/
def freeSet : Term → Finset String
  | var name => {name}
  | abs param body => body.freeSet.erase param
  | app left right => left.freeSet ∪ right.freeSet

/-- The row of free names has the names of the set, some of them more than once. -/
theorem mem_freeSet {t : Term} {name : String} : name ∈ t.freeSet ↔ name ∈ t.freeNames := by
  induction t with
  | var x => rw [freeSet, freeNames, Finset.mem_singleton, List.mem_singleton]
  | abs param body ih =>
    rw [freeSet, freeNames, Finset.mem_erase, List.mem_filter, ih, decide_eq_true_eq, and_comm]
  | app left right ihl ihr => rw [freeSet, freeNames, Finset.mem_union, List.mem_append, ihl, ihr]

/-- The walk finds a name in a term exactly if it is in the set of free names. -/
theorem free_iff_mem_freeSet {t : Term} {name : String} : t.free name = true ↔ name ∈ t.freeSet :=
  free_eq_true_iff.trans mem_freeSet.symm

/-- The walk finds a name on an agenda exactly if a term on the agenda has the name free. -/
theorem freeInAny_iff (name : String) (agenda : List Term) :
    freeInAny name agenda = true ↔ ∃ t ∈ agenda, name ∈ t.freeSet := by
  rw [freeInAny_eq, List.any_eq_true]
  simp only [decide_eq_true_eq, mem_freeSet]

/-- The walk writes the texts of the pieces on an agenda one after the other. -/
theorem write_eq_join (written : String) (agenda : List Piece) :
    write written agenda = written ++ String.join (agenda.map Piece.spelling) := by
  induction agenda generalizing written with
  | nil => rw [write, List.map_nil, String.join_nil, String.append_empty]
  | cons piece rest ih =>
    rw [List.map_cons, String.join_cons, ← String.append_assoc]
    cases piece with
    | text s => rw [write, ih, Piece.spelling]
    | term t => rw [write_term, ih, Piece.spelling]

/-- The walk that looks for a name finds it exactly if it is in the set of free names of a term on
the agenda, and the walk that writes pieces writes their texts one after the other; set and text are
told by recursion over the term. So a name is found in a term exactly if it is free there, and the
term is written as it is spelled. -/
theorem walks_eq_recursion :
    (∀ name agenda, freeInAny name agenda = true ↔ ∃ t ∈ agenda, name ∈ t.freeSet) ∧
    (∀ written agenda, write written agenda =
      written ++ String.join (agenda.map Piece.spelling)) ∧
    ∀ t : Term, (∀ name, t.free name = true ↔ name ∈ t.freeSet) ∧ t.render = t.spelling :=
  ⟨freeInAny_iff, write_eq_join, fun t => ⟨fun _ => free_iff_mem_freeSet, render_eq_spelling t⟩⟩

end Term

end UntypedLambda
