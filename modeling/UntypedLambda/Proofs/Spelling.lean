import UntypedLambda.Term.Rendering

/-!
# The text of a term, by recursion

Rendering writes pieces off an agenda. What it writes for a term can be said by recursion over the
term: a name, an abstraction in parentheses, or two sides with a space between them.
-/

namespace UntypedLambda.Term

/-- The text of a term: its right side stands in parentheses unless it is a variable. -/
def spelling : Term → String
  | var name => name
  | abs param body => "(λ" ++ param ++ "." ++ body.spelling ++ ")"
  | app left (var name) => left.spelling ++ " " ++ name
  | app left right => left.spelling ++ " (" ++ right.spelling ++ ")"

/-- A right side that is no variable is put in parentheses. -/
theorem spelling_app {left right : Term} (h : right.isCompound = true) :
    (app left right).spelling = left.spelling ++ " (" ++ right.spelling ++ ")" := by
  cases right with
  | var name => nomatch h
  | abs param body => rfl
  | app first second => rfl

/-- A term on the agenda is written as it is spelled. -/
theorem write_term (t : Term) (written : String) (agenda : List Piece) :
    write written (.term t :: agenda) = write (written ++ t.spelling) agenda := by
  induction t generalizing written agenda with
  | var name =>
    rw [write, layout, List.singleton_append, write, spelling]
  | abs param body ih =>
    rw [write, layout]
    simp only [List.cons_append, List.nil_append, write, ih, spelling, String.append_assoc]
  | app left right ihl ihr =>
    rw [write, layout]
    by_cases hcompound : right.isCompound = true
    · rw [if_pos hcompound, spelling_app hcompound]
      simp only [List.cons_append, List.nil_append, ihl, write, ihr, String.append_assoc]
    · rw [if_neg hcompound]
      cases right with
      | var name =>
        simp only [List.cons_append, List.nil_append, ihl, write, ihr, spelling,
          String.append_assoc]
      | abs param body => exact absurd rfl hcompound
      | app first second => exact absurd rfl hcompound

/-- A term is rendered as it is spelled. -/
theorem render_eq_spelling (t : Term) : t.render = t.spelling := by
  unfold render
  rw [write_term, write, String.empty_append]

end UntypedLambda.Term
