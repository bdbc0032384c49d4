import Mathlib.Data.List.DropRight
import UntypedLambda.Proofs.CharacterClasses
import UntypedLambda.Proofs.Scanning
import UntypedLambda.Shell

/-!
# Lines that are typed

A typed line that does not start with a colon is a line of a statement, as a line of a file is. The
shell trims it before its comment is removed; that makes no difference, because no blank is part of
the mark of a comment and the line is trimmed afterwards anyway.

A typed line that starts with a colon and the name of a command is that command, and the rest of the
line without the blanks at its ends is what the command is about.
-/

namespace UntypedLambda

namespace Text

/-- A blank at the start is trimmed. -/
theorem trim_cons {c : Char} (h : isBlank c = true) (text : List Char) :
    trim (c :: text) = trim text := by
  unfold trim trimWhile
  rw [List.dropWhile_cons, if_pos h]

/-- A blank at the end is trimmed. -/
theorem trim_concat {c : Char} (h : isBlank c = true) (text : List Char) :
    trim (text ++ [c]) = trim text := by
  induction text with
  | nil => exact trim_cons h []
  | cons d rest ih =>
    by_cases hd : isBlank d = true
    · rw [List.cons_append, trim_cons hd, trim_cons hd, ih]
    · unfold trim trimWhile
      rw [List.cons_append, List.dropWhile_cons, List.dropWhile_cons, if_neg hd, if_neg hd]
      exact List.rdropWhile_concat_pos isBlank (d :: rest) c h

/-- Dropping blanks at the end stops at a character that is none. -/
theorem dropEndWhile_append {before : List Char} (h : ∀ c ∈ before.getLast?, isBlank c = false)
    (after : List Char) :
    dropEndWhile isBlank (before ++ after) = before ++ dropEndWhile isBlank after := by
  change (before ++ after).rdropWhile isBlank = before ++ after.rdropWhile isBlank
  induction after using List.reverseRecOn with
  | nil =>
    rw [List.append_nil, List.rdropWhile_nil, List.append_nil, List.rdropWhile_eq_self_iff]
    intro hne
    rw [h _ (List.getLast_mem_getLast? hne)]
    decide
  | append_singleton after c ih =>
    rw [← List.append_assoc, List.rdropWhile_concat, List.rdropWhile_concat]
    split
    · exact ih
    · exact List.append_assoc _ _ _

/-- Trimming stops at both ends of a text that starts and ends with no blank. -/
theorem trim_append {before : List Char} (hne : before ≠ [])
    (hfirst : ∀ c ∈ before.head?, isBlank c = false)
    (hlast : ∀ c ∈ before.getLast?, isBlank c = false) (after : List Char) :
    trim (before ++ after) = before ++ dropEndWhile isBlank after := by
  obtain ⟨first, others, rfl⟩ := List.exists_cons_of_ne_nil hne
  have hstart : (first :: others ++ after).dropWhile isBlank = first :: others ++ after := by
    rw [List.cons_append, List.dropWhile_cons, hfirst first rfl, if_neg Bool.false_ne_true]
  rw [trim, trimWhile, hstart]
  exact dropEndWhile_append hlast after

section Apply

variable {α : Type} {f : List Char → α}

/-- What ignores a blank at the end ignores that all of them are dropped. -/
theorem apply_dropEndWhile (hconcat : ∀ c text, isBlank c = true → f (text ++ [c]) = f text)
    (text : List Char) : f (dropEndWhile isBlank text) = f text := by
  change f (text.rdropWhile isBlank) = f text
  induction text using List.reverseRecOn with
  | nil => rfl
  | append_singleton text c ih =>
    rw [List.rdropWhile_concat]
    split
    · next hc => rw [ih, hconcat c text hc]
    · rfl

/-- What ignores a blank at each end ignores trimming. -/
theorem apply_trim (hcons : ∀ c text, isBlank c = true → f (c :: text) = f text)
    (hconcat : ∀ c text, isBlank c = true → f (text ++ [c]) = f text) (text : List Char) :
    f (trim text) = f text := by
  unfold trim trimWhile
  rw [apply_dropEndWhile hconcat]
  induction text with
  | nil => rfl
  | cons c rest ih =>
    rw [List.dropWhile_cons]
    split
    · next hc => rw [ih, hcons c rest hc]
    · rfl

end Apply

/-- Trimming twice is trimming once. -/
theorem trim_trim (text : List Char) : trim (trim text) = trim text :=
  apply_trim (fun _ text hc => trim_cons hc text) (fun _ text hc => trim_concat hc text) text

/-- Trimming a string twice is trimming it once. -/
theorem trimmed_trimmed (text : String) : trimmed (trimmed text) = trimmed text := by
  rw [trimmed, trimmed, String.toList_ofList, trim_trim]

/-- Blanks around a text are trimmed. -/
theorem trim_between {gap gap' : List Char} (hgap : ∀ c ∈ gap, isBlank c = true)
    (hgap' : ∀ c ∈ gap', isBlank c = true) (text : List Char) :
    trim (gap ++ (text ++ gap')) = trim text := by
  have hend : trim (text ++ gap') = trim text := by
    induction gap' using List.reverseRecOn with
    | nil => rw [List.append_nil]
    | append_singleton gap' c ih =>
      obtain ⟨hothers, hlast⟩ := List.forall_mem_append.mp hgap'
      rw [← List.append_assoc, trim_concat (hlast c (List.mem_singleton_self c)), ih hothers]
  induction gap with
  | nil => exact hend
  | cons c gap ih =>
    obtain ⟨hfirst, hothers⟩ := List.forall_mem_cons.mp hgap
    rw [List.cons_append, trim_cons hfirst, ih hothers]

/-- Trimming removes no other characters. -/
theorem count_trim {c : Char} (h : isBlank c = false) (text : List Char) :
    (trim text).count c = text.count c := by
  have hne {d : Char} (hd : isBlank d = true) : d ≠ c := by
    rintro rfl
    nomatch hd.symm.trans h
  refine apply_trim (fun d text hd => List.count_cons_of_ne (hne hd)) (fun d text hd => ?_) text
  rw [List.count_append, List.count_singleton, if_neg (by simpa using hne hd), Nat.add_zero]

section Mark

variable {mark : List Char} {c : Char}

/-- A character before the text that is no part of the mark makes no difference to where the text is
cut. -/
theorem cutAt?_cons (hmark : mark ≠ []) (hc : c ∉ mark) (text : List Char) :
    cutAt? mark (c :: text) = (cutAt? mark text).map fun parts => (c :: parts.1, parts.2) := by
  have hinitial : mark.isPrefixOf (c :: text) = false := by
    rw [← Bool.not_eq_true, List.isPrefixOf_iff_prefix, List.prefix_cons_iff]
    rintro (hnil | ⟨rest, rfl, -⟩)
    · exact hmark hnil
    · exact hc List.mem_cons_self
  rw [cutAt?, hinitial]
  rfl

/-- A character behind the text that is no part of the mark makes no difference to where the text is
cut. -/
theorem cutAt?_concat (hmark : mark ≠ []) (hc : c ∉ mark) (text : List Char) :
    cutAt? mark (text ++ [c]) = (cutAt? mark text).map fun parts => (parts.1, parts.2 ++ [c]) := by
  have hempty : mark.isEmpty = false := by
    rwa [← Bool.not_eq_true, List.isEmpty_iff]
  induction text with
  | nil =>
    rw [List.nil_append, cutAt?_cons hmark hc, cutAt?, hempty]
    rfl
  | cons d rest ih =>
    have hinitial : mark <+: d :: rest ++ [c] ↔ mark <+: d :: rest := by
      rw [List.prefix_concat_iff]
      refine or_iff_right fun hwhole => hc ?_
      rw [hwhole]
      exact List.mem_append_right _ (List.mem_singleton_self c)
    rw [List.cons_append] at hinitial ⊢
    rw [cutAt?, cutAt?]
    by_cases hstarts : mark <+: d :: rest
    · rw [if_pos (List.isPrefixOf_iff_prefix.mpr hstarts),
        if_pos (List.isPrefixOf_iff_prefix.mpr (hinitial.mpr hstarts)), Option.map_some,
        ← List.cons_append, List.drop_append_of_le_length hstarts.length_le]
    · rw [if_neg (mt List.isPrefixOf_iff_prefix.mp hstarts),
        if_neg (mt List.isPrefixOf_iff_prefix.mp (mt hinitial.mp hstarts)), ih, Option.map_map,
        Option.map_map]
      rfl

end Mark

section Cut

variable {mark first : String} (hmark : mark ≠ "") (hfirst : ∀ c ∈ first.toList, c ∉ mark.toList)

include hmark hfirst

end Cut

end Text

namespace Statement

/-- The characters of a line without its comment. -/
def cleaned (line : List Char) : List Char :=
  match Text.cutAt? ";;".toList line with
  | some (code, _) => Text.trim code
  | none => Text.trim line

/-- Cleaning works on the characters. -/
theorem clean_eq (line : String) : clean line = String.ofList (cleaned line.toList) := by
  unfold clean cleaned Text.cut?
  cases Text.cutAt? ";;".toList line.toList with
  | none => rfl
  | some parts =>
    simp only [Option.map_some, Text.trimmed, String.toList_ofList]

/-- No blank is part of the mark of a comment. -/
theorem notMem_mark {c : Char} (h : Text.isBlank c = true) : c ∉ ";;".toList := by
  intro hmem
  have hmark : c = ';' := by simpa using hmem
  rw [hmark] at h
  exact absurd h (by decide)

/-- A blank at the start is no part of the code. -/
theorem cleaned_cons {c : Char} (line : List Char) (h : Text.isBlank c = true) :
    cleaned (c :: line) = cleaned line := by
  have hmark : ";;".toList ≠ [] := by decide
  unfold cleaned
  rw [Text.cutAt?_cons hmark (notMem_mark h)]
  cases Text.cutAt? ";;".toList line with
  | none => exact Text.trim_cons h line
  | some parts => exact Text.trim_cons h parts.1

/-- A blank at the end is no part of the code. -/
theorem cleaned_concat {c : Char} (line : List Char) (h : Text.isBlank c = true) :
    cleaned (line ++ [c]) = cleaned line := by
  have hmark : ";;".toList ≠ [] := by decide
  unfold cleaned
  rw [Text.cutAt?_concat hmark (notMem_mark h)]
  cases Text.cutAt? ";;".toList line with
  | none => exact Text.trim_concat h line
  | some parts => rfl

/-- Trimming a line makes no difference to its code. -/
theorem clean_trimmed (line : String) : clean (Text.trimmed line) = clean line := by
  rw [clean_eq, clean_eq, Text.trimmed, String.toList_ofList]
  exact congrArg String.ofList
    (Text.apply_trim (fun _ => cleaned_cons) (fun _ => cleaned_concat) line.toList)

end Statement

namespace Command

/-- A character of a name is no blank. -/
theorem isBlank_of_isNameChar {c : Char} (h : isNameChar c = true) : Text.isBlank c = false := by
  unfold isNameChar at h
  rcases Bool.or_eq_true_iff.mp h with halphanum | hunderscore
  · exact Text.isBlank_of_isAlphanum halphanum
  · obtain rfl := of_decide_eq_true hunderscore
    decide

/-- A line that starts with the name of a command and a space is the command, for the trimmed rest
of the line. -/
theorem ofLine_word {word : String} (hne : word ≠ "")
    (hword : ∀ c ∈ word.toList, isNameChar c = true) (rest : String) {command : Command}
    (hknown : ofName? word (Text.trimmed rest) = some command) :
    ofLine (word ++ " " ++ rest) = command := by
  obtain ⟨first, others, hchars⟩ := List.exists_cons_of_ne_nil (mt String.toList_eq_nil_iff.mp hne)
  let argument := Text.dropEndWhile Text.isBlank (' ' :: rest.toList)
  have htrim : Text.trim (word ++ " " ++ rest).toList = word.toList ++ argument := by
    have hparts : (word ++ " " ++ rest).toList = word.toList ++ ' ' :: rest.toList := by
      rw [String.toList_append, String.toList_append, List.append_assoc]
      rfl
    have hnone (c : Char) (hc : c ∈ word.toList) : Text.isBlank c = false :=
      isBlank_of_isNameChar (hword c hc)
    rw [hparts]
    exact Text.trim_append (mt String.toList_eq_nil_iff.mp hne)
      (fun c hc => hnone c (List.mem_of_head? hc)) (fun c hc => hnone c (List.mem_of_getLast? hc)) _
  have hstop : ∀ c ∈ argument.head?, isNameChar c = false := by
    have hinitial : argument <+: ' ' :: rest.toList := List.rdropWhile_prefix _ _
    rcases List.prefix_cons_iff.mp hinitial with hnil | ⟨others, hothers, -⟩
    · rw [hnil]
      nofun
    · rw [hothers]
      intro c hc
      obtain rfl := Option.some.inj hc
      decide
  have hargument : Text.trim argument = Text.trim rest.toList :=
    (Text.apply_dropEndWhile (fun _ text hc => Text.trim_concat hc text) _).trans
      (Text.trim_cons (by decide) _)
  have htake := Scanner.takeWhile_run hword hstop
  have hdrop := Scanner.dropWhile_run hword hstop
  have hfirst : isNameChar first = true := hword first (hchars ▸ List.mem_cons_self)
  unfold ofLine
  rw [htrim]
  split
  · next hnil => rw [hchars] at hnil; nomatch hnil
  · next hhelp =>
    rw [hchars] at hhelp
    obtain rfl := (List.cons.inj hhelp).1
    nomatch hfirst
  · next hmark =>
    rw [hchars] at hmark
    obtain rfl := (List.cons.inj hmark).1
    nomatch hfirst
  · dsimp only
    rw [htake, hdrop, hargument, String.ofList_toList]
    change (ofName? word (Text.trimmed rest)).getD _ = command
    rw [hknown]
    rfl

/-- A line that does not start with a colon is a line of a statement. -/
theorem ofLine_route {line : String} (h : line.toList.head? ≠ some ':') :
    ofLine (route line) = .statement (Text.trimmed line) := by
  have hroute : route line = "eval" ++ " " ++ line := by
    unfold route
    split
    · next rest hrest => exact absurd (congrArg List.head? hrest) h
    · rfl
  rw [hroute]
  exact ofLine_word (by decide) (List.all_eq_true.mp (by decide)) line rfl

end Command

end UntypedLambda
