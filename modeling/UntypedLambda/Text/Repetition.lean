import UntypedLambda.Index

/-!
# Repeated characters

A row of one character below a text, as long as a count says. A count below zero gives the empty
row. A row that is no longer than the text above it can always be written.
-/

namespace UntypedLambda.Text

/-- What can keep a row from being written. -/
inductive RepetitionFault where
  /-- The count is no index. -/
  | noIndex
  /-- There is no room for so long a row. -/
  | noRoom
  deriving DecidableEq

/-- How many characters a row may have, whatever it stands below. -/
def room : Nat := 4294967296

/-- A character so many times, as a row below a text of the given length. -/
def repeated (c : Char) (count : Int) (length : Nat) : Except RepetitionFault (List Char) :=
  if count < Index.least then .error .noIndex
  else if count.toNat ≤ max room length then .ok (List.replicate count.toNat c)
  else if Index.fits count then .error .noRoom
  else .error .noIndex

/-- A row can be written if its count is an index and there is room for it. -/
theorem exists_repeated_iff {c : Char} {count : Int} {length : Nat} :
    (∃ row, repeated c count length = .ok row) ↔
      Index.least ≤ count ∧ count ≤ (max room length : Nat) := by
  unfold repeated
  constructor
  · rintro ⟨row, hrow⟩
    split at hrow
    · nomatch hrow
    · split at hrow
      · omega
      · split at hrow <;> nomatch hrow
  · rintro ⟨hleast, hroom⟩
    exact ⟨_, by rw [if_neg (by omega), if_pos (by omega)]⟩

end UntypedLambda.Text
