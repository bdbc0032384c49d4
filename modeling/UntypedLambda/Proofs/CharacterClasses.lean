import Mathlib.Data.List.Chain
import UntypedLambda.Text.Blank
import UntypedLambda.Text.Digit
import UntypedLambda.Text.Word

/-!
# Classes of characters

A class of characters is a row of intervals of code points. Whether it belongs to another class, or
has nothing in common with it, is told by the ends of the intervals. The ASCII letters and digits
are such a class as well, so they are compared with blanks, digits and word characters like these
with each other.
-/

namespace UntypedLambda.Text

namespace Ranges

variable {table other : Ranges} {code : Nat}

/-- A code point of a class lies in one of its intervals. -/
theorem exists_of_contains (h : table.contains code = true) :
    ∃ range ∈ table, range.1 ≤ code ∧ code ≤ range.2 := by
  induction table with
  | nil => cases h
  | cons entry rest ih =>
    obtain ⟨first, last⟩ := entry
    rw [contains] at h
    split at h
    · cases h
    · next hfirst =>
      rcases Bool.or_eq_true_iff.mp h with hlast | hrest
      · exact ⟨_, List.mem_cons_self, Nat.le_of_not_lt hfirst, of_decide_eq_true hlast⟩
      · obtain ⟨range, hmem, hrange⟩ := ih hrest
        exact ⟨range, List.mem_cons_of_mem _ hmem, hrange⟩

/-- Whether the intervals of a class rise. -/
def Rising (table : Ranges) : Prop :=
  table.IsChain fun first second => first.1 ≤ second.1

/-- In rising intervals, every code point of an interval is found. -/
theorem Rising.contains_of_mem (hrising : table.Rising) {range : Nat × Nat} (hmem : range ∈ table)
    (hfirst : range.1 ≤ code) (hlast : code ≤ range.2) : table.contains code = true := by
  have : IsTrans (Nat × Nat) fun first second => first.1 ≤ second.1 := ⟨fun _ _ _ => Nat.le_trans⟩
  have hpairs := List.IsChain.pairwise hrising
  clear hrising
  induction table with
  | nil => nomatch hmem
  | cons entry rest ih =>
    obtain ⟨hbefore, hrest⟩ := List.pairwise_cons.mp hpairs
    rcases List.mem_cons.mp hmem with rfl | hlater
    · rw [contains, if_neg (Nat.not_lt.mpr hfirst), decide_eq_true hlast, Bool.true_or]
    · have hentry : entry.1 ≤ code := Nat.le_trans (hbefore range hlater) hfirst
      rw [contains, if_neg (Nat.not_lt.mpr hentry), ih hlater hrest, Bool.or_true]

/-- Whether each interval of a class lies in an interval of another class. -/
def inside (table other : Ranges) : Bool :=
  table.all fun range => other.any fun outer => Nat.ble outer.1 range.1 && Nat.ble range.2 outer.2

/-- A class belongs to another if its intervals lie in those of the other. -/
theorem Rising.contains_of_inside (hrising : other.Rising) (hinside : table.inside other = true)
    (h : table.contains code = true) : other.contains code = true := by
  obtain ⟨range, hmem, hfirst, hlast⟩ := exists_of_contains h
  obtain ⟨outer, houter, hbounds⟩ := List.any_eq_true.mp (List.all_eq_true.mp hinside range hmem)
  obtain ⟨hlower, hupper⟩ := Bool.and_eq_true_iff.mp hbounds
  refine hrising.contains_of_mem houter ?_ ?_
  · exact Nat.le_trans (Nat.le_of_ble_eq_true hlower) hfirst
  · exact Nat.le_trans hlast (Nat.le_of_ble_eq_true hupper)

/-- Whether each interval of a class ends before or starts behind each interval of another class. -/
def apart (table other : Ranges) : Bool :=
  table.all fun range => other.all fun outer => Nat.blt range.2 outer.1 || Nat.blt outer.2 range.1

/-- Classes whose intervals are apart have nothing in common. -/
theorem contains_eq_false_of_apart (hapart : table.apart other = true)
    (h : table.contains code = true) : other.contains code = false := by
  rw [← Bool.not_eq_true]
  intro hother
  obtain ⟨range, hmem, hfirst, hlast⟩ := exists_of_contains h
  obtain ⟨outer, houter, hfirst', hlast'⟩ := exists_of_contains hother
  have hbounds := List.all_eq_true.mp (List.all_eq_true.mp hapart range hmem) outer houter
  rcases Bool.or_eq_true_iff.mp hbounds with hbefore | hbehind
  · have := Nat.le_of_ble_eq_true hbefore
    omega
  · have := Nat.le_of_ble_eq_true hbehind
    omega

end Ranges

/-- The ASCII letters. -/
def letterRanges : Ranges := [(65, 90), (97, 122)]

/-- The ASCII letters and digits. -/
def alphanumRanges : Ranges := [(48, 57), (65, 90), (97, 122)]

variable {c : Char}

/-- The ASCII letters are a class. -/
theorem contains_of_isAlpha (h : c.isAlpha = true) : letterRanges.contains c.toNat = true := by
  have hrange : 65 ≤ c.toNat ∧ c.toNat ≤ 90 ∨ 97 ≤ c.toNat ∧ c.toNat ≤ 122 := by
    unfold Char.isAlpha Char.isUpper Char.isLower at h
    simpa [UInt32.le_iff_toNat_le] using h
  simp only [letterRanges, Ranges.contains]
  grind

/-- The ASCII letters and digits are a class. -/
theorem contains_of_isAlphanum (h : c.isAlphanum = true) :
    alphanumRanges.contains c.toNat = true := by
  have hrange : (65 ≤ c.toNat ∧ c.toNat ≤ 90 ∨ 97 ≤ c.toNat ∧ c.toNat ≤ 122) ∨
      48 ≤ c.toNat ∧ c.toNat ≤ 57 := by
    unfold Char.isAlphanum Char.isAlpha Char.isUpper Char.isLower at h
    simpa [Char.isDigit, UInt32.le_iff_toNat_le] using h
  simp only [alphanumRanges, Ranges.contains]
  grind

/-- The intervals of word characters rise. -/
theorem wordRanges_rising : wordRanges.Rising := by
  unfold Ranges.Rising
  decide +kernel

/-- Every digit is a word character. -/
theorem isWord_of_isDigit (h : isDigit c = true) : isWord c = true :=
  wordRanges_rising.contains_of_inside (by decide +kernel) h

/-- Every ASCII letter or digit is a word character. -/
theorem isWord_of_isAlphanum (h : c.isAlphanum = true) : isWord c = true :=
  wordRanges_rising.contains_of_inside (by decide +kernel) (contains_of_isAlphanum h)

/-- No ASCII letter is a digit. -/
theorem isDigit_of_isAlpha (h : c.isAlpha = true) : isDigit c = false :=
  Ranges.contains_eq_false_of_apart (by decide +kernel) (contains_of_isAlpha h)

/-- No digit is a blank. -/
theorem isBlank_of_isDigit (h : isDigit c = true) : isBlank c = false :=
  Ranges.contains_eq_false_of_apart (by decide +kernel) h

/-- No blank is a word character. -/
theorem isWord_of_isBlank (h : isBlank c = true) : isWord c = false :=
  Ranges.contains_eq_false_of_apart (by decide +kernel) h

/-- No letter or digit is removed by trimming. -/
theorem isBlank_of_isAlphanum (h : c.isAlphanum = true) : isBlank c = false :=
  Ranges.contains_eq_false_of_apart (by decide +kernel) (contains_of_isAlphanum h)

end UntypedLambda.Text
