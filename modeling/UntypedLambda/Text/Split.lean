/-!
# Cutting a text at a mark

A text is cut at the first place where a mark stands; the mark belongs to neither part.
-/

namespace UntypedLambda.Text

/-- The parts before and after the first occurrence of a mark. -/
def cutAt? (mark : List Char) : List Char → Option (List Char × List Char)
  | [] => if mark.isEmpty then some ([], []) else none
  | c :: rest =>
    if mark.isPrefixOf (c :: rest) then some ([], (c :: rest).drop mark.length)
    else (cutAt? mark rest).map fun parts => (c :: parts.1, parts.2)

/-- The parts of a text with the mark between them are the text. -/
theorem eq_of_cutAt? {mark text first second : List Char}
    (cut : cutAt? mark text = some (first, second)) : text = first ++ mark ++ second := by
  induction text generalizing first second with
  | nil =>
    simp only [cutAt?] at cut
    split at cut
    · next empty =>
      cases cut
      simp [List.isEmpty_iff.mp empty]
    · cases cut
  | cons c rest ih =>
    simp only [cutAt?] at cut
    split at cut
    · next starts =>
      cases cut
      exact List.prefix_iff_eq_append.mp (List.isPrefixOf_iff_prefix.mp starts) |>.symm
    · cases found : cutAt? mark rest with
      | none => simp [found] at cut
      | some parts =>
        simp only [found, Option.map_some, Option.some.injEq, Prod.mk.injEq] at cut
        obtain ⟨rfl, rfl⟩ := cut
        simp [ih found]

/-- A text that is not cut does not hold the mark. -/
theorem cutAt?_eq_none_iff {mark text : List Char} : cutAt? mark text = none ↔ ¬mark <:+: text := by
  induction text with
  | nil => simp [cutAt?]
  | cons c rest ih =>
    rw [cutAt?, List.infix_cons_iff, ← List.isPrefixOf_iff_prefix]
    split
    · next starts => simp [starts]
    · next other => simp [other, ih]

/-- The part before the cut does not hold the mark. -/
theorem not_infix_of_cutAt? {mark text first second : List Char} (hmark : mark ≠ [])
    (cut : cutAt? mark text = some (first, second)) : ¬mark <:+: first := by
  induction text generalizing first second with
  | nil => simp [cutAt?, hmark] at cut
  | cons c rest ih =>
    simp only [cutAt?] at cut
    split at cut
    · cases cut
      simpa using hmark
    · next other =>
      obtain ⟨⟨before, behind⟩, found, parts⟩ := Option.map_eq_some_iff.mp cut
      cases parts
      rw [List.infix_cons_iff]
      rintro (starts | later)
      · -- The mark would stand at the start of the whole text as well.
        rw [eq_of_cutAt? found, List.append_assoc] at other
        exact other (List.isPrefixOf_iff_prefix.mpr (starts.trans ⟨mark ++ behind, rfl⟩))
      · exact ih found later

/-- The strings before and after the first occurrence of a mark. -/
def cut? (mark text : String) : Option (String × String) :=
  (cutAt? mark.toList text.toList).map fun parts =>
    (String.ofList parts.1, String.ofList parts.2)

/-- A string that is not cut does not hold the mark. -/
theorem cut?_eq_none_iff {mark text : String} :
    cut? mark text = none ↔ ¬mark.toList <:+: text.toList := by
  unfold cut?
  rw [Option.map_eq_none_iff, cutAt?_eq_none_iff]

/-- A string that is cut consists of its parts with the mark between them, and the first part does
not hold the mark. -/
theorem eq_of_cut? {mark text first second : String} (hmark : mark ≠ "")
    (cut : cut? mark text = some (first, second)) :
    text = first ++ mark ++ second ∧ ¬mark.toList <:+: first.toList := by
  obtain ⟨⟨before, behind⟩, found, parts⟩ := Option.map_eq_some_iff.mp cut
  cases parts
  have hchars : mark.toList ≠ [] := by simpa using hmark
  refine ⟨?_, ?_⟩
  · rw [← String.toList_inj, eq_of_cutAt? found]
    simp
  · rw [String.toList_ofList]
    exact not_infix_of_cutAt? hchars found

/-- How often a character occurs. -/
def count (c : Char) (text : String) : Nat := text.toList.count c

end UntypedLambda.Text
