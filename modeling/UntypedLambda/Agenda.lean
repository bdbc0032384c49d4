/-!
# Agendas

Walks over terms keep an agenda of what is still to be worked off. A walk ends because every entry
has a weight, and working an entry off leaves an agenda that weighs less.
-/

namespace UntypedLambda.Agenda

variable {α : Type}

/-- The weights of all entries, summed. -/
def weight (entryWeight : α → Nat) : List α → Nat
  | [] => 0
  | entry :: agenda => entryWeight entry + weight entryWeight agenda

@[simp] theorem weight_nil (f : α → Nat) : weight f [] = 0 := rfl

@[simp] theorem weight_cons (f : α → Nat) (entry : α) (agenda : List α) :
    weight f (entry :: agenda) = f entry + weight f agenda := rfl

/-- Entries in front add their weights. -/
@[simp] theorem weight_append (f : α → Nat) (first second : List α) :
    weight f (first ++ second) = weight f first + weight f second := by
  induction first with
  | nil => simp
  | cons entry first ih => simp only [List.cons_append, weight_cons, ih, Nat.add_assoc]

/-- The order of the entries does not matter. -/
@[simp] theorem weight_reverse (f : α → Nat) (agenda : List α) :
    weight f agenda.reverse = weight f agenda := by
  induction agenda with
  | nil => rfl
  | cons entry agenda ih =>
    simp only [List.reverse_cons, weight_append, weight_cons, weight_nil, ih]
    omega

end UntypedLambda.Agenda
