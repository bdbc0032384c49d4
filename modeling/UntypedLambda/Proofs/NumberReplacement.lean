import UntypedLambda.Proofs.Balance
import UntypedLambda.Proofs.LambdaSpelling

/-!
# Replacing numbers once

A number is replaced if it is a whole word. No token is such a number, so a text that can be cut
into tokens is kept. The text of a numeral has no digit and stands in parentheses, which belong to
no word. So the words of a text stay apart from what its numbers are replaced by, and there is
nothing left to replace.
-/

namespace UntypedLambda

namespace Term

/-- The text of a numeral consists of seven characters. -/
theorem mem_spelling_numeral {n : Nat} {c : Char} (h : c ∈ (numeral n).spelling.toList) :
    c ∈ ['(', 'λ', '.', ' ', ')', 'f', 'x'] := by
  rcases mem_spelling h with hmark | ⟨name, hname, hc⟩
  · exact List.mem_append_left ['f', 'x'] hmark
  · rcases names_numeral hname with rfl | rfl <;>
    · obtain rfl := List.mem_singleton.mp hc
      decide

end Term

namespace Numeral

open Text

/-- Whether a number stands alone somewhere in a text. -/
def HoldsNumber (text : List Char) : Prop :=
  ∃ before number after, text = before ++ (number ++ after) ∧ number ≠ [] ∧
    (∀ c ∈ number, isDigit c = true) ∧ (∀ c ∈ before.getLast?, isWord c = false) ∧
    ∀ c ∈ after.head?, isWord c = false

variable {text word result before after : List Char} {c : Char}

/-- Every text is a word, or another text with a character that belongs to no word and a word behind
it. -/
theorem words_induction {motive : List Char → Prop}
    (word : ∀ word : List Char, (∀ c ∈ word, isWord c = true) → motive word)
    (mark : ∀ (before : List Char) (c : Char) (word : List Char), isWord c = false →
      (∀ d ∈ word, isWord d = true) → motive before → motive (before ++ c :: word))
    (text : List Char) : motive text := by
  induction hlength : text.length using Nat.strong_induction_on generalizing text with
  | _ n ih =>
    have hword : ∀ c ∈ text.rtakeWhile isWord, isWord c = true := fun _ => List.mem_rtakeWhile_imp
    have hsplit : text.rdropWhile isWord ++ text.rtakeWhile isWord = text :=
      List.rdropWhile_append_rtakeWhile
    rcases List.eq_nil_or_concat (text.rdropWhile isWord) with hnil | ⟨before, c, hconcat⟩
    · rw [hnil, List.nil_append] at hsplit
      exact hsplit ▸ word _ hword
    · have hc : isWord c = false := by
        have hne : text.rdropWhile isWord ≠ [] := by simp [hconcat]
        have hlast := List.rdropWhile_last_not isWord text hne
        simpa [hconcat] using hlast
      rw [hconcat, List.concat_eq_append, List.append_assoc, List.singleton_append] at hsplit
      have hshorter : before.length < n := by
        rw [← hlength, ← hsplit, List.length_append, List.length_cons]
        omega
      exact hsplit ▸ mark before c _ hc hword (ih _ hshorter before rfl)

/-- A character that belongs to no word divides a text into two in which numbers can stand alone. -/
theorem holdsNumber_append_cons (hc : isWord c = false) :
    HoldsNumber (before ++ c :: after) ↔ HoldsNumber before ∨ HoldsNumber after := by
  constructor
  · rintro ⟨left, number, right, heq, hne, hdigits, hleft, hright⟩
    rcases Scanner.append_eq_append_cons heq.symm with ⟨more, rfl, hmore⟩ | ⟨more, rfl, rfl⟩
    · rcases Scanner.append_eq_append_cons hmore with ⟨others, rfl, rfl⟩ | ⟨others, rfl, -⟩
      · refine .inl ⟨left, number, others, rfl, hne, hdigits, hleft, fun d hd => hright d ?_⟩
        rw [List.head?_append]
        exact Option.or_eq_some_iff.mpr (.inl hd)
      · have hdigit : isDigit c = true := hdigits c (by simp)
        nomatch hc.symm.trans (isWord_of_isDigit hdigit)
    · refine .inr ⟨more, number, right, rfl, hne, hdigits, fun d hd => hleft d ?_, hright⟩
      rw [List.getLast?_append, List.getLast?_cons, hd]
      rfl
  · rintro (⟨left, number, right, rfl, hne, hdigits, hleft, hright⟩ |
      ⟨left, number, right, rfl, hne, hdigits, hleft, hright⟩)
    · refine ⟨left, number, right ++ c :: after, by simp, hne, hdigits, hleft, fun d hd => ?_⟩
      rw [List.head?_append] at hd
      rcases Option.or_eq_some_iff.mp hd with hfirst | ⟨-, hmark⟩
      · exact hright d hfirst
      · obtain rfl := Option.some.inj hmark
        exact hc
    · refine ⟨before ++ c :: left, number, right, by simp, hne, hdigits, fun d hd => ?_, hright⟩
      rw [List.getLast?_append, List.getLast?_cons] at hd
      cases hlast : left.getLast? with
      | none =>
        rw [hlast] at hd
        obtain rfl := Option.some.inj hd
        exact hc
      | some e =>
        rw [hlast] at hd
        obtain rfl := Option.some.inj hd
        exact hleft e hlast

/-- A word holds a number if it is one. -/
theorem holdsNumber_word (hword : ∀ c ∈ word, isWord c = true) :
    HoldsNumber word ↔ word ≠ [] ∧ ∀ c ∈ word, isDigit c = true := by
  constructor
  · rintro ⟨left, number, right, rfl, hne, hdigits, hleft, hright⟩
    have hnoLeft : left = [] := by
      by_contra hmore
      have hlast := hleft _ (List.getLast_mem_getLast? hmore)
      nomatch hlast.symm.trans (hword _ (List.mem_append_left _ (List.getLast_mem hmore)))
    have hnoRight : right = [] := by
      by_contra hmore
      have hfirst := hright _ (List.head_mem_head? hmore)
      nomatch hfirst.symm.trans (hword _ (by simp))
    rw [hnoLeft, hnoRight, List.nil_append, List.append_nil]
    exact ⟨hne, hdigits⟩
  · rintro ⟨hne, hdigits⟩
    exact ⟨[], word, [], by simp, hne, hdigits, nofun, nofun⟩

/-- A text without digits holds no number. -/
theorem not_holdsNumber_of_no_digits (h : ∀ c ∈ text, isDigit c = false) : ¬HoldsNumber text := by
  rintro ⟨left, number, right, rfl, hne, hdigits, -, -⟩
  obtain ⟨c, hc⟩ := List.exists_mem_of_ne_nil number hne
  have hnone := h c (by simp [hc])
  nomatch hnone.symm.trans (hdigits c hc)

/-- A number that stands alone starts with a digit that no letter or digit stands in front of. -/
theorem HoldsNumber.hasBareDigit (h : HoldsNumber text) : HasBareDigit text := by
  obtain ⟨left, number, right, rfl, hne, hdigits, hleft, -⟩ := h
  obtain ⟨c, others, rfl⟩ := List.exists_cons_of_ne_nil hne
  refine ⟨left, c, others ++ right, by simp, hdigits c List.mem_cons_self, fun d hd => ?_⟩
  rw [← Bool.not_eq_true]
  intro halphanum
  nomatch (hleft d hd).symm.trans (isWord_of_isAlphanum halphanum)

/-- What a number is replaced by consists of seven characters. -/
theorem mem_block {n : Nat} (h : c ∈ block n) : c ∈ ['(', 'λ', '.', ' ', ')', 'f', 'x'] := by
  rcases List.mem_append.mp h with hstart | hclosing
  · rcases List.mem_cons.mp hstart with rfl | hnumeral
    · decide
    · exact Term.mem_spelling_numeral hnumeral
  · obtain rfl := List.mem_singleton.mp hclosing
    decide

/-- What can be checked of the seven characters holds of what a number is replaced by. -/
theorem of_mem_block {p : Char → Bool}
    (hseven : ['(', 'λ', '.', ' ', ')', 'f', 'x'].all p = true) {n : Nat} (h : c ∈ block n) :
    p c = true :=
  List.all_eq_true.mp hseven c (mem_block h)

/-- What a number is replaced by has no digit. -/
theorem isDigit_of_mem_block {n : Nat} (h : c ∈ block n) : isDigit c = false := by
  have hnone := of_mem_block (p := fun d => !isDigit d) (by decide +kernel) h
  simpa using hnone

/-- A word is kept, or it is a number and is replaced by its numeral. -/
theorem expandChars_word_cases (hword : ∀ c ∈ word, isWord c = true) :
    (expandChars word = .ok word ∧ ¬HoldsNumber word) ∨
      HoldsNumber word ∧ ∀ result, expandChars word = .ok result → ∃ n, result = block n := by
  rw [holdsNumber_word hword]
  by_cases hnumber : word ≠ [] ∧ ∀ c ∈ word, isDigit c = true
  · refine .inr ⟨hnumber, fun result hresult => ?_⟩
    rw [expandChars_run hnumber.1 hword] at hresult
    exact exists_block_of_digits hnumber.2 hresult
  · refine .inl ⟨?_, hnumber⟩
    by_cases hne : word = []
    · rw [hne]
      rfl
    · obtain ⟨c, hmem, hc⟩ : ∃ c ∈ word, isDigit c = false := by simpa [hne] using hnumber
      exact expandChars_word hword hmem hc

/-- Texts are replaced as their characters are. -/
theorem expandLiterals_eq_ok_iff {text result : String} :
    expandLiterals text = .ok result ↔ expandChars text.toList = .ok result.toList := by
  rw [expandLiterals_eq]
  cases expandChars text.toList with
  | error fault => exact iff_of_false nofun nofun
  | ok chars =>
    change Except.ok (String.ofList chars) = .ok result ↔ _
    constructor
    · intro h
      obtain rfl := Except.ok.inj h
      rw [String.toList_ofList]
    · intro h
      obtain rfl := Except.ok.inj h
      rw [String.ofList_toList]

/-- A text in which no number stands alone is kept. -/
theorem expandChars_of_not_holdsNumber (h : ¬HoldsNumber text) : expandChars text = .ok text := by
  induction text using words_induction with
  | word word hword =>
    rcases expandChars_word_cases hword with ⟨hkept, -⟩ | ⟨hnumber, -⟩
    · exact hkept
    · exact absurd hnumber h
  | mark before c word hc hword ih =>
    rw [holdsNumber_append_cons hc, not_or] at h
    have hkept : expandChars word = .ok word := by
      rcases expandChars_word_cases hword with ⟨hkept, -⟩ | ⟨hnumber, -⟩
      · exact hkept
      · exact absurd hnumber h.2
    rw [expandChars_mark hc, ih h.1, hkept]
    rfl

/-- Where the numbers of a text have been replaced, none stands alone. -/
theorem not_holdsNumber_of_expandChars (h : expandChars text = .ok result) :
    ¬HoldsNumber result := by
  have hwords {word result : List Char} (hword : ∀ c ∈ word, isWord c = true)
      (h : expandChars word = .ok result) : ¬HoldsNumber result := by
    rcases expandChars_word_cases hword with ⟨hkept, hnone⟩ | ⟨-, hblock⟩
    · obtain rfl := Except.ok.inj (hkept.symm.trans h)
      exact hnone
    · obtain ⟨n, rfl⟩ := hblock result h
      exact not_holdsNumber_of_no_digits fun _ => isDigit_of_mem_block
  induction text using words_induction generalizing result with
  | word word hword => exact hwords hword h
  | mark before c word hc hword ih =>
    rw [expandChars_mark hc] at h
    obtain ⟨first, rest, hfirst, hrest, rfl⟩ := joined_eq_ok_iff.mp h
    obtain ⟨mark, last, hmark, hlast, rfl⟩ := joined_eq_ok_iff.mp hrest
    obtain rfl := Except.ok.inj hmark
    rw [List.singleton_append, holdsNumber_append_cons hc, not_or]
    exact ⟨ih hfirst, hwords hword hlast⟩

/-- The word that a name belongs to is kept, and the text around this word is replaced apart from
it. -/
theorem expandChars_name {name : String} (h : isIdentifier name = true)
    (before after : List Char) :
    expandChars (before ++ (name.toList ++ after)) =
      joined (expandChars (before.rdropWhile isWord))
        (joined (.ok (before.rtakeWhile isWord ++ (name.toList ++ after.takeWhile isWord)))
          (expandChars (after.dropWhile isWord))) := by
  obtain ⟨first, others, hchars, hletter, hall⟩ := isIdentifier_cases h
  have hothers : ∀ c ∈ others, isWord c = true := fun c hc =>
    isWord_of_isAlphanum (hall c (by rw [hchars]; exact List.mem_cons_of_mem first hc))
  have hfirst : isWord first = true :=
    isWord_of_isAlphanum (hall first (by rw [hchars]; exact List.mem_cons_self))
  rw [hchars, List.cons_append, List.cons_append,
    expandChars_around hfirst (isDigit_of_isAlpha hletter),
    List.takeWhile_append_of_pos hothers, List.dropWhile_append_of_pos hothers]

/-- A name is found behind what the text in front of it is replaced by, whatever stands behind
it. -/
theorem exists_of_expandChars_name {name : String} (h : isIdentifier name = true)
    (hresult : expandChars (before ++ (name.toList ++ after)) = .ok result) :
    ∃ earlier later, expandChars (before ++ name.toList) = .ok (earlier ++ name.toList) ∧
      result = earlier ++ (name.toList ++ later) := by
  have hfront := expandChars_name h before []
  rw [expandChars_name h] at hresult
  obtain ⟨first, rest, hfirst, hrest, rfl⟩ := joined_eq_ok_iff.mp hresult
  obtain ⟨middle, last, hmiddle, -, rfl⟩ := joined_eq_ok_iff.mp hrest
  obtain rfl := Except.ok.inj hmiddle
  refine ⟨first ++ before.rtakeWhile isWord, after.takeWhile isWord ++ last, ?_, by simp⟩
  rw [List.append_nil, hfirst, List.takeWhile_nil, List.dropWhile_nil, List.append_nil] at hfront
  rw [hfront, show expandChars [] = .ok [] from rfl, joined_nil, List.append_assoc]
  rfl

end Numeral

namespace Session

/-- A text in which no number stands alone is read as the expansion of the term that it spells. -/
theorem read_of_expandLiterals (s : Session) {text : String}
    (h : Numeral.expandLiterals text = .ok text) :
    s.read text = (Term.parse text).map s.definitions.expand := by
  unfold read readLiterals
  rw [h]
  rfl

end Session

namespace Numeral

/-- Replacing numbers changes no text that can be cut into tokens, so such a text is read as the
expansion of the term that it spells. It keeps every name at its place in any text, with the digits
in it. What it gives has no numbers to replace. -/
theorem expandLiterals_conservative (text : String) :
    (∀ tokens, (Scanner.ofString text).tokenize.1 = .ok tokens →
      expandLiterals text = .ok text ∧
        ∀ s : Session, s.read text = (Term.parse text).map s.definitions.expand) ∧
    (∀ before name after result, text = before ++ name ++ after → isIdentifier name = true →
      expandLiterals text = .ok result →
        ∃ earlier later, expandLiterals (before ++ name) = .ok (earlier ++ name) ∧
          result = earlier ++ name ++ later) ∧
    ∀ result, expandLiterals text = .ok result → expandLiterals result = .ok result := by
  refine ⟨fun tokens htokens => ?_, fun before name after result htext hname hresult => ?_,
    fun result hresult => ?_⟩
  · have hnone : ¬HoldsNumber text.toList := fun hnumber =>
      hnumber.hasBareDigit.not_lexes (Scanner.tokenize_eq_ok_iff_lexes.mp htokens)
    have hkept : expandLiterals text = .ok text := by
      rw [expandLiterals_eq, expandChars_of_not_holdsNumber hnone]
      exact congrArg Except.ok String.ofList_toList
    exact ⟨hkept, fun s => s.read_of_expandLiterals hkept⟩
  · rw [expandLiterals_eq_ok_iff, htext, String.toList_append, String.toList_append,
      List.append_assoc] at hresult
    obtain ⟨earlier, later, hfront, heq⟩ := exists_of_expandChars_name hname hresult
    refine ⟨String.ofList earlier, String.ofList later, ?_, String.toList_injective ?_⟩
    · rw [expandLiterals_eq_ok_iff, String.toList_append, hfront, String.toList_append,
        String.toList_ofList]
    · rw [heq, String.toList_append, String.toList_append, String.toList_ofList,
        String.toList_ofList, List.append_assoc]
  · rw [expandLiterals_eq_ok_iff] at hresult ⊢
    exact expandChars_of_not_holdsNumber (not_holdsNumber_of_expandChars hresult)

/-- A term with digits in its names, which is read as it is, and a text with a number in front of a
name and digits in the name. -/
theorem expandLiterals_conservative_names :
    let term := "(\\x1.x1) y22"
    let text := "1 x1"
    let result := "((λf.(λx.f x))) x1"
    let s := Session.start Session.inputPath default true (.start true)
    (∃ tokens, (Scanner.ofString term).tokenize.1 = .ok tokens) ∧
      expandLiterals term = .ok term ∧ s.read term = (Term.parse term).map s.definitions.expand ∧
      expandLiterals text = .ok result ∧ isIdentifier "x1" = true ∧
      (∃ earlier later, expandLiterals ("1 " ++ "x1") = .ok (earlier ++ "x1") ∧
        result = earlier ++ "x1" ++ later) ∧
      expandLiterals result = .ok result := by
  intro term text result s
  have htokens : (Scanner.ofString term).tokenize.1.toOption.isSome = true := by decide +kernel
  obtain ⟨tokens, hsome⟩ := Option.isSome_iff_exists.mp htokens
  have hlexed : (Scanner.ofString term).tokenize.1 = .ok tokens :=
    Term.toOption_eq_some.mp hsome
  have hreplaced : (expandLiterals text).toOption = some result := by decide +kernel
  have hresult : expandLiterals text = .ok result :=
    Term.toOption_eq_some.mp hreplaced
  obtain ⟨hkept, hread⟩ := (expandLiterals_conservative term).1 tokens hlexed
  have hname := (expandLiterals_conservative text).2.1 "1 " "x1" "" result rfl (by decide) hresult
  have hagain := (expandLiterals_conservative text).2.2 result hresult
  exact ⟨⟨tokens, hlexed⟩, hkept, hread s, hresult, by decide, hname, hagain⟩

end Numeral

end UntypedLambda
