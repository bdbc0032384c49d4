/-!
# Classes of characters as code point ranges

A class of characters is a rising list of inclusive code point intervals. Looking a character up
stops at the first interval that begins after it, so the characters that texts are mostly made of
are decided by the first few intervals.
-/

namespace UntypedLambda.Text

/-- Inclusive code point intervals, rising and apart from each other. -/
abbrev Ranges := List (Nat × Nat)

/-- Whether the code point lies in one of the intervals. -/
def Ranges.contains : Ranges → Nat → Bool
  | [], _ => false
  | (first, last) :: rest, code =>
    if code < first then false else decide (code ≤ last) || Ranges.contains rest code

/-- The distance from the start of the interval that holds the code point. -/
def Ranges.offset? : Ranges → Nat → Option Nat
  | [], _ => none
  | (first, last) :: rest, code =>
    if code < first then none
    else if code ≤ last then some (code - first) else Ranges.offset? rest code

/-- A code point has an offset exactly when it is in the class. -/
theorem Ranges.offset?_isSome (table : Ranges) (code : Nat) :
    (table.offset? code).isSome = table.contains code := by
  induction table with
  | nil => rfl
  | cons entry rest ih =>
    obtain ⟨first, last⟩ := entry
    by_cases hf : code < first
    · simp [Ranges.offset?, Ranges.contains, hf]
    · by_cases hl : code ≤ last <;> simp [Ranges.offset?, Ranges.contains, hf, hl, ih]

end UntypedLambda.Text
