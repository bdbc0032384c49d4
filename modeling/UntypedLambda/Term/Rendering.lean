import UntypedLambda.Term.Basic

/-!
# Rendering

The canonical text of a term. An abstraction stands in parentheses, an application puts a space
between its sides, and its right side stands in parentheses unless it is a variable. The text is
written from an agenda of texts and sub terms that are still to be written.
-/

namespace UntypedLambda

/-- A part of the text of a term. -/
inductive Piece where
  /-- Text that is written as it is. -/
  | text (text : String)
  /-- A sub term, written by its own layout. -/
  | term (term : Term)
  deriving DecidableEq

/-- An upper bound on the pieces that are met while a piece is written. -/
def Piece.weight : Piece → Nat
  | text _ => 1
  | term t => 6 * t.size

namespace Term

/-- The texts and sub terms that make up the text of a term. -/
def layout : Term → List Piece
  | var name => [.text name]
  | abs param body => [.text "(λ", .text param, .text ".", .term body, .text ")"]
  | app left right =>
    if right.isCompound then [.term left, .text " (", .term right, .text ")"]
    else [.term left, .text " ", .term right]

/-- A term weighs more than its layout. -/
theorem weight_layout_lt (t : Term) :
    Agenda.weight Piece.weight t.layout < (Piece.term t).weight := by
  cases t with
  | var _ => simp [layout, Piece.weight, size]
  | abs _ body =>
    simp only [layout, Piece.weight, size, Agenda.weight_cons, Agenda.weight_nil]
    omega
  | app left right =>
    by_cases compound : right.isCompound = true <;>
    · simp only [layout, compound, Bool.false_eq_true, if_true, if_false, Piece.weight, size,
        Agenda.weight_cons, Agenda.weight_nil]
      omega

/-- Writes the pieces on the agenda behind what is written already. -/
def write (written : String) : List Piece → String
  | [] => written
  | .text s :: agenda => write (written ++ s) agenda
  | .term t :: agenda => write written (t.layout ++ agenda)
termination_by agenda => Agenda.weight Piece.weight agenda
decreasing_by
  · simp only [Piece.weight, Agenda.weight_cons]
    omega
  · have := t.weight_layout_lt
    simp only [Agenda.weight_append, Agenda.weight_cons]
    omega

/-- The canonical text of a term. -/
def render (t : Term) : String := write "" [.term t]

end Term

end UntypedLambda
