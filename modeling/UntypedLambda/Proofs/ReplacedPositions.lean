import UntypedLambda.Proofs.NumberReplacement
import UntypedLambda.Proofs.ParenthesizedTerm

/-!
# Positions behind replaced numbers

A text is tokenized after its numbers have been replaced, so the position of a problem counts the
characters of the numerals. It belongs to the place behind the characters that were typed before
the problem: it is as large as what these characters are replaced by, and exact if there is no
number among them. At that place stands the character that is reported, or the token, or a number,
of which the opening parenthesis is reported. No problem is reported inside a numeral: its
characters are no foreign ones, and its tokens are an atom.
-/

namespace UntypedLambda

namespace Numeral

open Text
open Scanner (Misplaced)

/-- A position in a text whose numbers have been replaced belongs to a place in the text that was
typed, between the characters before it and those behind it. -/
structure PointsBetween (before after : List Char) (position : Int) : Prop where
  /-- The position counts what the characters before the place are replaced by. -/
  counts : ∃ replaced, expandChars before = .ok replaced ∧ position = replaced.length
  /-- The place is not inside a number: the numbers before it are numbers of the whole text. -/
  whole : HoldsNumber before → HoldsNumber (before ++ after)

/-- What there is around a place in a text whose numbers have been replaced. -/
inductive Place (typed first second : List Char) : Prop where
  /-- The place is in a word that is kept, or in front of a character that belongs to none. -/
  | kept {before word after rest : List Char} (split : typed = before ++ (word ++ after))
      (points : PointsBetween before (word ++ after) first.length)
      (second_eq : second = word ++ rest) (isWord : ∀ c ∈ word, isWord c = true)
      (stop : ∀ c ∈ after.head?, Text.isWord c = false)
      (behind : expandChars after = .ok rest)
  /-- The place is in front of a number. -/
  | number {before after rest : List Char} {n : Nat} (split : typed = before ++ after)
      (points : PointsBetween before after first.length) (second_eq : second = block n ++ rest)
      (apart : ∀ c ∈ before.getLast?, isWord c = false) (starts : StartsWithNumber after)
  /-- The place is inside the text that a number is replaced by. -/
  | inside {earlier left right rest : List Char} {n : Nat} (first_eq : first = earlier ++ left)
      (second_eq : second = right ++ rest) (block_eq : block n = left ++ right)
      (left_ne : left ≠ []) (right_ne : right ≠ [])

variable {text typed word result first second before after : List Char} {c : Char}

/-- A position is exact if there is no number in front of it. -/
theorem PointsBetween.eq_length {position : Int} (h : PointsBetween before after position)
    (hnone : ¬HoldsNumber before) : position = before.length := by
  obtain ⟨replaced, hreplaced, rfl⟩ := h.counts
  rw [expandChars_of_not_holdsNumber hnone] at hreplaced
  rw [Except.ok.inj hreplaced]

/-- A text that starts with a number holds one. -/
theorem StartsWithNumber.holdsNumber (h : StartsWithNumber text) : HoldsNumber text := by
  have hsplit : text = [] ++ (text.takeWhile isWord ++ text.dropWhile isWord) :=
    List.takeWhile_append_dropWhile.symm
  have hstop : ∀ c ∈ (text.dropWhile isWord).head?, isWord c = false := fun c hc => by
    have hnot := List.head?_dropWhile_not isWord text
    rwa [show (text.dropWhile isWord).head? = some c from hc] at hnot
  exact ⟨[], _, _, hsplit, h.1, h.2, nofun, hstop⟩

/-- Behind a character that belongs to no word, the numbers of a text are those of its two parts. -/
theorem holdsNumber_append (hbefore : ∀ c ∈ before.getLast?, isWord c = false) :
    HoldsNumber (before ++ after) ↔ HoldsNumber before ∨ HoldsNumber after := by
  have hnil : ¬HoldsNumber [] := not_holdsNumber_of_no_digits nofun
  rcases List.eq_nil_or_concat before with rfl | ⟨earlier, c, rfl⟩
  · rw [List.nil_append, or_iff_right hnil]
  · rw [List.concat_eq_append] at hbefore ⊢
    have hc : isWord c = false := hbefore c List.getLast?_concat
    rw [List.append_assoc, List.singleton_append, holdsNumber_append_cons hc,
      holdsNumber_append_cons hc, or_iff_left hnil]

section Ends

/-- A trimmed text neither starts nor ends with a blank. -/
theorem ends_of_trim (text : List Char) :
    (∀ c ∈ (trim text).head?, isBlank c = false) ∧
      ∀ c ∈ (trim text).getLast?, isBlank c = false := by
  change (∀ c ∈ ((text.dropWhile isBlank).rdropWhile isBlank).head?, isBlank c = false) ∧
    ∀ c ∈ ((text.dropWhile isBlank).rdropWhile isBlank).getLast?, isBlank c = false
  constructor
  · intro c hc
    have hstart := List.head?_dropWhile_not isBlank text
    obtain ⟨dropped, hdropped⟩ := List.rdropWhile_prefix isBlank (text.dropWhile isBlank)
    rw [← hdropped, List.head?_append, hc] at hstart
    exact hstart
  · intro c hc
    obtain ⟨hne, rfl⟩ := List.mem_getLast?_eq_getLast hc
    exact (Bool.not_eq_true _).mp (List.rdropWhile_last_not _ _ hne)

/-- A character that belongs to no word is kept in front of a text. -/
theorem expandChars_cons (hc : isWord c = false) (h : expandChars (c :: text) = .ok result) :
    ∃ rest, expandChars text = .ok rest ∧ result = c :: rest := by
  rw [← List.nil_append (c :: text), expandChars_mark hc] at h
  obtain ⟨none, others, hnone, hothers, rfl⟩ := joined_eq_ok_iff.mp h
  obtain ⟨mark, rest, hmark, hrest, rfl⟩ := joined_eq_ok_iff.mp hothers
  obtain rfl := Except.ok.inj hnone
  obtain rfl := Except.ok.inj hmark
  exact ⟨rest, hrest, rfl⟩

/-- A character that belongs to no word is kept behind a text. -/
theorem expandChars_concat (hc : isWord c = false) (h : expandChars (text ++ [c]) = .ok result) :
    ∃ rest, expandChars text = .ok rest ∧ result = rest ++ [c] := by
  rw [expandChars_mark hc] at h
  obtain ⟨rest, others, hrest, hothers, rfl⟩ := joined_eq_ok_iff.mp h
  obtain rfl := Except.ok.inj hothers
  exact ⟨rest, hrest, rfl⟩

/-- What no word goes on from is replaced by what no word goes on from. -/
theorem isWord_getLast_of_expandChars (hbefore : ∀ c ∈ before.getLast?, isWord c = false)
    (h : expandChars before = .ok result) : ∀ c ∈ result.getLast?, isWord c = false := by
  rcases List.eq_nil_or_concat before with rfl | ⟨earlier, c, rfl⟩
  · obtain rfl := Except.ok.inj h
    nofun
  · rw [List.concat_eq_append] at hbefore h
    have hc : isWord c = false := hbefore c List.getLast?_concat
    obtain ⟨rest, -, rfl⟩ := expandChars_concat hc h
    intro d hd
    obtain rfl := Option.some.inj (List.getLast?_concat.symm.trans hd)
    exact hc

/-- A word that is kept or replaced starts with its own first character or a parenthesis. -/
theorem ends_of_expandChars_word (hword : ∀ c ∈ word, isWord c = true)
    (h : expandChars word = .ok result) :
    result = word ∨ ∃ middle, result = '(' :: middle ++ [')'] := by
  rcases expandChars_word_cases hword with ⟨hkept, -⟩ | ⟨-, hblock⟩
  · exact .inl (Except.ok.inj (h.symm.trans hkept))
  · obtain ⟨n, rfl⟩ := hblock result h
    exact .inr ⟨_, rfl⟩

/-- A text whose numbers are replaced starts with its own first character or a parenthesis. -/
theorem head_of_expandChars (h : expandChars text = .ok result) :
    ∀ c ∈ result.head?, c ∈ text.head? ∨ c = '(' := by
  cases text with
  | nil =>
    obtain rfl := Except.ok.inj h
    nofun
  | cons d text =>
    intro c hc
    by_cases hd : isWord d = true
    · rw [expandChars_first_word, List.takeWhile_cons_of_pos hd] at h
      obtain ⟨start, rest, hstart, -, rfl⟩ := joined_eq_ok_iff.mp h
      have hword : ∀ e ∈ d :: text.takeWhile isWord, isWord e = true :=
        List.forall_mem_cons.mpr ⟨hd, fun _ => List.mem_takeWhile_imp⟩
      rcases ends_of_expandChars_word hword hstart with rfl | ⟨middle, rfl⟩
      · exact .inl hc
      · exact .inr (Option.some.inj hc).symm
    · obtain ⟨rest, -, rfl⟩ := expandChars_cons ((Bool.not_eq_true _).mp hd) h
      exact .inl hc

/-- A text whose numbers are replaced ends with its own last character or a parenthesis. -/
theorem getLast_of_expandChars (h : expandChars text = .ok result) :
    ∀ c ∈ result.getLast?, c ∈ text.getLast? ∨ c = ')' := by
  rcases List.eq_nil_or_concat text with rfl | ⟨text, d, rfl⟩
  · obtain rfl := Except.ok.inj h
    nofun
  · rw [List.concat_eq_append] at h ⊢
    intro c hc
    by_cases hd : isWord d = true
    · rw [expandChars_last_word, List.rtakeWhile_concat_pos _ _ _ hd] at h
      obtain ⟨rest, last, -, hlast, rfl⟩ := joined_eq_ok_iff.mp h
      have hword : ∀ e ∈ text.rtakeWhile isWord ++ [d], isWord e = true :=
        List.forall_mem_append.mpr
          ⟨fun _ => List.mem_rtakeWhile_imp, List.forall_mem_singleton.mpr hd⟩
      rcases ends_of_expandChars_word hword hlast with rfl | ⟨middle, rfl⟩
      · rw [← List.append_assoc, List.getLast?_concat] at hc
        exact .inl (List.getLast?_concat.trans hc)
      · rw [← List.append_assoc, List.getLast?_concat] at hc
        exact .inr (Option.some.inj hc).symm
    · obtain ⟨rest, -, rfl⟩ := expandChars_concat ((Bool.not_eq_true _).mp hd) h
      rw [List.getLast?_concat] at hc
      exact .inl (List.getLast?_concat.trans hc)

/-- A text that trimming keeps is replaced by one that trimming keeps. -/
theorem trim_of_expandChars (htext : trim text = text) (h : expandChars text = .ok result) :
    trim result = result := by
  obtain ⟨hfirst, hlast⟩ := ends_of_trim text
  rw [htext] at hfirst hlast
  refine trim_eq_self (fun c hc => ?_) fun c hc => ?_
  · rcases head_of_expandChars h c hc with hkept | rfl
    · exact hfirst c hkept
    · decide
  · rcases getLast_of_expandChars h c hc with hkept | rfl
    · exact hlast c hkept
    · decide

/-- Blanks at the ends of a text make no difference to what its numbers are replaced by. -/
theorem map_trim_expandChars (text : List Char) :
    (expandChars (trim text)).map trim = (expandChars text).map trim := by
  refine apply_trim (f := fun text => (expandChars text).map trim) (fun c text hc => ?_)
    (fun c text hc => ?_) text
  · rw [← List.nil_append (c :: text), expandChars_mark (isWord_of_isBlank hc)]
    cases expandChars text with
    | error fault => rfl
    | ok rest => exact congrArg Except.ok (trim_cons hc rest)
  · rw [expandChars_mark (isWord_of_isBlank hc)]
    cases expandChars text with
    | error fault => rfl
    | ok rest => exact congrArg Except.ok (trim_concat hc rest)

/-- Replacing the numbers of a trimmed text gives the trimmed result. -/
theorem expandChars_trim (h : expandChars text = .ok result) :
    expandChars (trim text) = .ok (trim result) := by
  have htrimmed := map_trim_expandChars text
  rw [h] at htrimmed
  cases hreplaced : expandChars (trim text) with
  | error fault =>
    rw [hreplaced] at htrimmed
    nomatch htrimmed
  | ok replaced =>
    rw [hreplaced] at htrimmed
    rw [← Except.ok.inj htrimmed, trim_of_expandChars (trim_trim text) hreplaced]

end Ends

section Places

/-- Around a place in a text whose numbers have been replaced, there are the characters before a
word, a part of what the word is replaced by, the other part, and the characters behind the word. -/
theorem exists_word (h : expandChars text = .ok (first ++ second)) :
    ∃ before word after earlier left right rest, text = before ++ (word ++ after) ∧
      first = earlier ++ left ∧ second = right ++ rest ∧ (∀ c ∈ word, isWord c = true) ∧
      (∀ c ∈ before.getLast?, isWord c = false) ∧ (∀ c ∈ after.head?, isWord c = false) ∧
      expandChars before = .ok earlier ∧ expandChars word = .ok (left ++ right) ∧
      expandChars after = .ok rest := by
  induction text using words_induction generalizing first second with
  | word word hword =>
    exact ⟨[], word, [], [], first, second, [], by simp, rfl, by simp, hword, nofun, nofun, rfl, h,
      rfl⟩
  | mark before c word hc hword ih =>
    have hmark := h
    rw [expandChars_mark hc] at hmark
    obtain ⟨start, others, hstart, hothers, heq⟩ := joined_eq_ok_iff.mp hmark
    obtain ⟨mark, last, hmark, hlast, rfl⟩ := joined_eq_ok_iff.mp hothers
    obtain rfl := Except.ok.inj hmark
    rcases Scanner.append_eq_append_cons heq.symm with ⟨more, rfl, rfl⟩ | ⟨more, rfl, rfl⟩
    · obtain ⟨front, word', after, earlier, left, right, rest, rfl, rfl, rfl, hword', hfront, hstop,
        hearlier, hreplaced, hrest⟩ := ih hstart
      refine ⟨front, word', after ++ c :: word, earlier, left, right, rest ++ c :: last, by simp,
        rfl, by simp, hword', hfront, fun d hd => ?_, hearlier, hreplaced, ?_⟩
      · rw [List.head?_append] at hd
        rcases Option.or_eq_some_iff.mp hd with hfirst | ⟨-, hmark⟩
        · exact hstop d hfirst
        · obtain rfl := Option.some.inj hmark
          exact hc
      · rw [expandChars_mark hc, hrest, hlast]
        rfl
    · have hfront : expandChars (before ++ [c]) = .ok (start ++ [c]) := by
        rw [expandChars_mark hc, hstart]
        rfl
      refine ⟨before ++ [c], word, [], start ++ [c], more, second, [], by simp, by simp, by simp,
        hword, fun d hd => ?_, nofun, hfront, hlast, rfl⟩
      obtain rfl := Option.some.inj (List.getLast?_concat.symm.trans hd)
      exact hc

/-- A digit behind a character that belongs to no word is misplaced. -/
theorem misplaced_of_isDigit (hc : isDigit c = true)
    (hbefore : ∀ d ∈ before.getLast?, isWord d = false) (after : List Char) :
    Misplaced (before ++ c :: after) before.length := by
  refine Scanner.misplaced_iff.mpr ⟨before, c, after, rfl, rfl, ?_⟩
  by_cases hdigit : c.isDigit = true
  · refine .inr ⟨hdigit, fun d hd => (Bool.not_eq_true _).mp fun halphanum => ?_⟩
    nomatch (hbefore d hd).symm.trans (isWord_of_isAlphanum halphanum)
  · refine .inl ⟨fun hmem => ?_, ?_, (Bool.not_eq_true _).mp hdigit⟩
    · simp only [List.mem_cons, List.not_mem_nil, or_false] at hmem
      rcases hmem with rfl | rfl | rfl | rfl | rfl | rfl | rfl | rfl | rfl <;>
        exact absurd hc (by decide +kernel)
    · refine (Bool.not_eq_true _).mp fun hletter => ?_
      nomatch hc.symm.trans (isDigit_of_isAlpha hletter)

/-- If no character in front of a place is misplaced, the place is in a word that is kept, in front
of a number or inside what a number is replaced by. -/
theorem exists_place (h : expandChars typed = .ok (first ++ second))
    (hplaced : ∀ offset < first.length, ¬Misplaced (first ++ second) offset) :
    Place typed first second := by
  obtain ⟨before, word, after, earlier, left, right, rest, rfl, rfl, rfl, hword, hstart, hstop,
    hearlier, hreplaced, hrest⟩ := exists_word h
  have hapart (part : List Char) :
      expandChars (before ++ part) = joined (.ok earlier) (expandChars part) := by
    have hcut : Apart before part := fun c hc _ _ hmore =>
      absurd ((hstart c hc).symm.trans hmore) Bool.false_ne_true
    rw [hcut.expandChars_append, hearlier]
  rcases expandChars_word_cases hword with ⟨hkept, -⟩ | ⟨hnumber, hblock⟩
  · obtain rfl : word = left ++ right := Except.ok.inj (hkept.symm.trans hreplaced)
    have hleft : ¬HoldsNumber left := by
      rw [holdsNumber_word fun c hc => hword c (List.mem_append_left right hc)]
      rintro ⟨hne, hdigits⟩
      obtain ⟨d, others, rfl⟩ := List.exists_cons_of_ne_nil hne
      have hlast := isWord_getLast_of_expandChars hstart hearlier
      refine hplaced earlier.length (by simp) ?_
      simpa using misplaced_of_isDigit (hdigits d List.mem_cons_self) hlast
        (others ++ (right ++ rest))
    have hsplit : before ++ (left ++ right ++ after) = before ++ left ++ (right ++ after) := by simp
    have hfront : expandChars (before ++ left) = .ok (earlier ++ left) := by
      rw [hapart, expandChars_of_not_holdsNumber hleft]
      rfl
    have hwhole : HoldsNumber (before ++ left) → HoldsNumber (before ++ left ++ (right ++ after)) :=
      fun hnumber => by
        rw [List.append_assoc, holdsNumber_append hstart]
        exact .inl (((holdsNumber_append hstart).mp hnumber).resolve_right hleft)
    exact .kept hsplit ⟨⟨_, hfront, rfl⟩, hwhole⟩ rfl
      (fun c hc => hword c (List.mem_append_right left hc)) hstop hrest
  · obtain ⟨n, hn⟩ := hblock _ hreplaced
    have hstarts : StartsWithNumber (word ++ after) := by
      rw [StartsWithNumber, Scanner.takeWhile_run hword hstop]
      exact (holdsNumber_word hword).mp hnumber
    have hholds : HoldsNumber (before ++ (word ++ after)) :=
      (holdsNumber_append hstart).mpr (.inr hstarts.holdsNumber)
    by_cases hleft : left = []
    · subst hleft
      obtain rfl : right = block n := hn
      have hfront : expandChars before = .ok (earlier ++ []) := by rwa [List.append_nil]
      exact .number rfl ⟨⟨_, hfront, rfl⟩, fun _ => hholds⟩ rfl hstart hstarts
    by_cases hright : right = []
    · subst hright
      have hsplit : before ++ (word ++ after) = before ++ word ++ ([] ++ after) := by simp
      have hfront : expandChars (before ++ word) = .ok (earlier ++ left) := by
        rw [hapart, hreplaced, List.append_nil]
        rfl
      exact .kept hsplit ⟨⟨_, hfront, rfl⟩, fun _ => hsplit ▸ hholds⟩ rfl (List.forall_mem_nil _)
        hstop hrest
    · exact .inside rfl rfl hn.symm hleft hright

/-- In front of a character that belongs to no word, what a text is replaced by starts as the
text. -/
theorem head?_of_expandChars {rest : List Char} (hstop : ∀ c ∈ after.head?, isWord c = false)
    (h : expandChars after = .ok rest) : rest.head? = after.head? := by
  cases after with
  | nil =>
    obtain rfl := Except.ok.inj h
    rfl
  | cons d after =>
    obtain ⟨rest, -, rfl⟩ := expandChars_cons (hstop d rfl) h
    rfl

/-- What is found at a place in a word that is kept, a single character or characters of one word,
was typed there. -/
theorem exists_typed {rest span more : List Char} (hstop : ∀ c ∈ after.head?, isWord c = false)
    (hbehind : expandChars after = .ok rest) (heq : span ++ more = word ++ rest)
    (hspan : (∃ c, span = [c]) ∨ ∀ c ∈ span, isWord c = true) :
    ∃ later, word ++ after = span ++ later := by
  rcases List.append_eq_append_iff.mp heq with ⟨others, rfl, -⟩ | ⟨others, rfl, hrest⟩
  · exact ⟨others ++ after, List.append_assoc _ _ _⟩
  obtain _ | ⟨d, others⟩ := others
  · exact ⟨after, by rw [List.append_nil]⟩
  -- Behind the word there is a character that belongs to none, so the span is this character.
  have hhead : after.head? = some d := by
    rw [← head?_of_expandChars hstop hbehind, hrest]
    rfl
  obtain ⟨later, rfl⟩ := List.head?_eq_some_iff.mp hhead
  rcases hspan with ⟨c, hc⟩ | hword
  · obtain ⟨rfl, hd⟩ | ⟨-, hnil⟩ := List.append_eq_singleton_iff.mp hc
    · exact ⟨later, by rw [(List.cons.inj hd).2]; rfl⟩
    · nomatch hnil
  · have hd : isWord d = true := hword d (List.mem_append_right word List.mem_cons_self)
    nomatch (hstop d rfl).symm.trans hd

/-- A misplaced character in a text whose numbers have been replaced was typed at its place. -/
theorem Place.exists_char (h : Place typed first (c :: second))
    (hmisplaced : Misplaced (first ++ c :: second) first.length) :
    ∃ before after, typed = before ++ c :: after ∧
      PointsBetween before (c :: after) first.length := by
  have hblock (n : Nat) : c ∉ block n := by
    obtain ⟨d, hd, hcases⟩ := hmisplaced
    obtain rfl : c = d := by simpa using hd
    intro hmem
    have hnone := of_mem_block
      (p := fun d => decide (¬(Scanner.Foreign d ∨ d.isDigit = true))) (by decide +kernel) hmem
    exact of_decide_eq_true hnone (hcases.imp_right And.left)
  cases h with
  | @kept before word after rest split points second_eq isWord stop behind =>
    obtain ⟨later, hlater⟩ := exists_typed stop behind second_eq (.inl ⟨c, rfl⟩)
    rw [hlater] at split points
    exact ⟨before, later, split, points⟩
  | @number before after rest n split points second_eq apart starts =>
    obtain ⟨rfl, -⟩ := List.cons.inj second_eq
    exact absurd List.mem_cons_self (hblock n)
  | @inside earlier left right rest n first_eq second_eq block_eq left_ne right_ne =>
    obtain ⟨d, others, rfl⟩ := List.exists_cons_of_ne_nil right_ne
    obtain ⟨rfl, -⟩ := List.cons.inj second_eq
    exact absurd (block_eq ▸ List.mem_append_right left List.mem_cons_self) (hblock n)

/-- A spelled token is a single character, or it is a name and its characters are letters and
digits. -/
theorem single_or_name {token : Token} {span : List Char} (hgoes : token.kind ≠ .endOfInput)
    (hspelled : token.SpelledBy span)
    (hname : token.kind = .name → ∃ name, token.value = some name ∧ isIdentifier name = true) :
    (∃ c, span = [c] ∧ Scanner.singleKind? c = some token.kind) ∨
      ∃ first others, span = first :: others ∧ first.isAlpha = true ∧
        ∀ c ∈ span, c.isAlphanum = true := by
  obtain ⟨kind, value, position⟩ := token
  cases kind with
  | lambda => rcases hspelled with rfl | rfl <;> exact .inl ⟨_, rfl, rfl⟩
  | name =>
    obtain ⟨name, rfl, hidentifier⟩ := hname rfl
    obtain rfl : span = name.toList := hspelled
    exact .inr (isIdentifier_cases hidentifier)
  | dot =>
    obtain rfl : span = ".".toList := hspelled
    exact .inl ⟨'.', rfl, rfl⟩
  | opening =>
    obtain rfl : span = "(".toList := hspelled
    exact .inl ⟨'(', rfl, rfl⟩
  | closing =>
    obtain rfl : span = ")".toList := hspelled
    exact .inl ⟨')', rfl, rfl⟩
  | endOfInput => exact absurd rfl hgoes

/-- What a refused token shows of the text that was typed: it was spelled where it is reported, it
is the end of input, or it is a parenthesis and a number stands there. -/
structure TokenTyped (token : Token) (before after : List Char) : Prop where
  /-- The reported position belongs to this place. -/
  points : PointsBetween before after token.position
  /-- The token is the end of input, was spelled there, or is the parenthesis of a number. -/
  found : token.kind = .endOfInput ∧ after = [] ∨
    (∃ span later, token.SpelledBy span ∧ after = span ++ later) ∨
    token.kind = .opening ∧ StartsWithNumber after ∧ ∀ c ∈ before.getLast?, isWord c = false

/-- No token is refused inside the text that a number is replaced by. -/
theorem refused_outside_block {earlier left right rest : List Char} {n : Nat} {token : Token}
    {tokens behind : List Token} {expected : String} (hblock : block n = left ++ right)
    (hleft : left ≠ []) (hright : right ≠ []) (hfirst : first = earlier ++ left)
    (hlexes : Scanner.Lexes 0 (first ++ (right ++ rest)) tokens)
    (hrefused : Parser.ComesTo ⟨none, []⟩ tokens (.refused token expected behind)) :
    token.position ≠ first.length := by
  have hparts : first ++ (right ++ rest) =
      earlier ++ '(' :: ((Term.numeral n).spelling.toList ++ ')' :: rest) := by
    calc first ++ (right ++ rest) = earlier ++ ((left ++ right) ++ rest) := by
          rw [hfirst]
          simp only [List.append_assoc]
      _ = earlier ++ '(' :: ((Term.numeral n).spelling.toList ++ ')' :: rest) := by
          rw [← hblock]
          simp [block]
  rw [hparts] at hlexes
  have houtside := hlexes.refused_outside Term.isIdentifier_of_mem_numeral hrefused
  have hsize := congrArg List.length hblock
  have hplace := congrArg List.length hfirst
  have hleft := List.length_pos_iff.mpr hleft
  have hright := List.length_pos_iff.mpr hright
  simp only [block, List.length_append, List.length_cons, List.length_nil] at hsize hplace
  omega

/-- A token that the parser refuses was typed where its position belongs to, or a number was. -/
theorem exists_token_typed {tokens behind : List Token} {token : Token} {expected : String}
    (h : expandChars typed = .ok result) (hlexes : Scanner.Lexes 0 result tokens)
    (hplaced : ∀ offset, ¬Misplaced result offset)
    (hrefused : Parser.ComesTo ⟨none, []⟩ tokens (.refused token expected behind)) :
    ∃ before after, typed = before ++ after ∧ TokenTyped token before after := by
  have hmem := hrefused.mem_of_refused
  by_cases hend : token.kind = .endOfInput
  · have hlast := hlexes.eq_endOfInput hmem hend
    have hpoints : PointsBetween typed [] token.position :=
      ⟨⟨result, h, by rw [hlast, Nat.zero_add]⟩, fun hnumber => by rwa [List.append_nil]⟩
    exact ⟨typed, [], (List.append_nil typed).symm, hpoints, .inl ⟨hend, rfl⟩⟩
  have hstart : ([] : List Char).length = 0 := rfl
  obtain ⟨first, span, more, heq, hposition, hspelled, hname⟩ :=
    hlexes.standsIn hstart token hmem hend
  obtain rfl : result = first ++ (span ++ more) := heq
  have hshape := single_or_name hend hspelled fun hkind => (hname hkind).imp fun _ h => ⟨h.1, h.2.1⟩
  cases exists_place h fun offset _ => hplaced offset with
  | @kept before word after rest split points second_eq isWord stop behind =>
    have hword : (∃ c, span = [c]) ∨ ∀ c ∈ span, Text.isWord c = true :=
      hshape.imp (fun ⟨c, hc, _⟩ => ⟨c, hc⟩) fun ⟨_, _, _, _, hall⟩ c hc =>
        isWord_of_isAlphanum (hall c hc)
    obtain ⟨later, hlater⟩ := exists_typed stop behind second_eq hword
    exact ⟨before, word ++ after, split, hposition ▸ points,
      .inr (.inl ⟨span, later, hspelled, hlater⟩)⟩
  | @number before after rest n split points second_eq apart starts =>
    have hopening : token.kind = .opening := by
      rcases hshape with ⟨c, rfl, hkind⟩ | ⟨c, others, rfl, hletter, -⟩
      · obtain ⟨rfl, -⟩ := List.cons.inj second_eq
        exact (Option.some.inj hkind).symm
      · obtain ⟨rfl, -⟩ := List.cons.inj second_eq
        nomatch hletter
    exact ⟨before, after, split, hposition ▸ points, .inr (.inr ⟨hopening, starts, apart⟩)⟩
  | @inside earlier left right rest n first_eq second_eq block_eq left_ne right_ne =>
    rw [second_eq] at hlexes
    exact absurd hposition
      (refused_outside_block block_eq left_ne right_ne first_eq hlexes hrefused)

/-- In a text without numbers, a refused token was spelled at the reported position, or is the end
of input behind the text. -/
theorem TokenTyped.spelled {token : Token} (h : TokenTyped token before after)
    (hnone : ¬HoldsNumber (before ++ after)) :
    token.kind = .endOfInput ∧ after = [] ∨
      ∃ span later, token.SpelledBy span ∧ after = span ++ later := by
  rcases h.found with hend | hspelled | ⟨-, hstarts, hbefore⟩
  · exact .inl hend
  · exact .inr hspelled
  · exact absurd ((holdsNumber_append hbefore).mpr (.inr hstarts.holdsNumber)) hnone

end Places

end Numeral

/-- The problem that an action ends with the report of, if it does. -/
def Action.reported? {σ α : Type} : EStateM.Result Fault σ α → Option Problem
  | .error (.report report) _ => some report.problem
  | _ => none

/-- An action ends with a fault that reports the problem. -/
theorem Action.exists_of_reported? {σ α : Type} {result : EStateM.Result Fault σ α}
    {problem : Problem} (h : reported? result = some problem) :
    ∃ fault t, result = .error fault t ∧ fault.Reports problem := by
  unfold reported? at h
  split at h
  · next report t => exact ⟨_, t, rfl, report, rfl, Option.some.inj h⟩
  · nomatch h

/-- A text that spells no term has a misplaced character, the first of which is reported, or its
tokens come to one that is refused and reported. -/
theorem Term.parse_error_cases {text : String} {fault : Fault}
    (h : Term.parse text = .error fault) :
    let chars := Text.trim text.toList
    (∃ first c second, chars = first ++ c :: second ∧ Scanner.Misplaced chars first.length ∧
        (∀ earlier < first.length, ¬Scanner.Misplaced chars earlier) ∧
        fault.Reports (.unexpectedChar (String.singleton c) first.length (String.ofList chars))) ∨
      (∀ offset, ¬Scanner.Misplaced chars offset) ∧
        ∃ tokens token expected wanted behind, Scanner.Lexes 0 chars tokens ∧
          fault.Reports (.unexpectedToken token expected (String.ofList chars)) ∧
          Parser.ComesTo ⟨none, []⟩ tokens (.refused token wanted behind) := by
  intro chars
  unfold Term.parse at h
  dsimp only at h
  rcases Scanner.tokenize_cases text with ⟨⟨tokens, hok⟩, hplaced⟩ | ⟨offset, c, hc, hmisplaced,
    hleast, -, herror⟩
  · rw [hok] at h
    have hlexes : Scanner.Lexes 0 chars tokens := Scanner.tokenize_eq_ok_iff_lexes.mp hok
    obtain ⟨row, rfl, -⟩ := hlexes.exists_row
    have hspelled : Spelled row := fun token hmem =>
      hlexes.spelled token (List.mem_append_left _ hmem)
    obtain ⟨token, expected, wanted, behind, hreports, hcomes⟩ :=
      Parser.exists_refused hspelled rfl h
    exact .inr ⟨hplaced, _, token, expected, wanted, behind, hlexes, hreports, hcomes⟩
  · rw [herror] at h
    obtain rfl := Except.error.inj h
    obtain ⟨first, d, second, hsplit, rfl, -⟩ := Scanner.misplaced_iff.mp hmisplaced
    obtain rfl : d = c := by
      rw [hsplit, List.getElem?_append_right (Nat.le_refl _), Nat.sub_self] at hc
      exact Option.some.inj hc
    exact .inl ⟨first, d, second, hsplit, hmisplaced, hleast, Problem.unexpectedChar_reports _ _ _⟩

namespace Session

open Numeral (HoldsNumber PointsBetween TokenTyped)

/-- What is reported of a term that cannot be read was typed at the place that the position belongs
to: the character; or the token, or else a number whose parenthesis is reported. The position is
exact if no number stands in front of this place, and in a text without numbers the reported token
was spelled there. -/
theorem add_reports_place {s t : Session} {text : String} {number : Option Int} {fault : Fault}
    (hterm : ¬":=".toList <:+: text.toList) (h : add text number s = .error fault t) :
    let typed := Text.trim text.toList
    (∀ char position source, fault.Reports (.unexpectedChar char position source) →
      ∃ before c after, typed = before ++ c :: after ∧ char = String.singleton c ∧
        PointsBetween before (c :: after) position ∧
        (¬HoldsNumber before → position = before.length)) ∧
    ∀ token expected source, fault.Reports (.unexpectedToken token expected source) →
      ∃ before after, typed = before ++ after ∧ TokenTyped token before after ∧
        (¬HoldsNumber before → token.position = before.length) ∧
        (¬HoldsNumber typed → token.kind = .endOfInput ∧ after = [] ∨
          ∃ span later, token.SpelledBy span ∧ after = span ++ later) := by
  intro typed
  have hcut : Text.cut? ":=" text = none := Text.cut?_eq_none_iff.mpr hterm
  have hread : readLiterals text = .error fault := by
    cases hread : readLiterals text with
    | ok term =>
      have hok : s.read text = .ok (s.definitions.expand term) := congrArg _ hread
      nomatch (add_of_read hcut hok number).symm.trans h
    | error other =>
      have herror : s.read text = .error other := congrArg _ hread
      obtain ⟨rfl, -⟩ := EStateM.Result.error.inj ((add_of_error hcut herror number).symm.trans h)
      rfl
  rcases except_bind_eq_error.mp hread with hnumber | ⟨expanded, hexpanded, hparse⟩
  · obtain ⟨shown, rfl⟩ := Numeral.exists_notNatural hnumber
    exact ⟨fun _ _ _ hreports => (nomatch Problem.eq_of_fault_reports hreports),
      fun _ _ _ hreports => nomatch Problem.eq_of_fault_reports hreports⟩
  have htyped : Numeral.expandChars typed = .ok (Text.trim expanded.toList) :=
    Numeral.expandChars_trim (Numeral.expandLiterals_eq_ok_iff.mp hexpanded)
  rcases Term.parse_error_cases hparse with ⟨first, c, second, hsplit, hmisplaced, hleast, hchar⟩ |
    ⟨hplaced, tokens, token, expected, wanted, behind, hlexes, htoken, hcomes⟩
  · refine ⟨fun char position source hreports => ?_, fun token expected source hreports =>
      nomatch hchar.unique hreports⟩
    obtain ⟨rfl, rfl, -⟩ := Problem.unexpectedChar.inj (hchar.unique hreports)
    rw [hsplit] at htyped hmisplaced hleast
    obtain ⟨before, after, hbefore, hpoints⟩ :=
      (Numeral.exists_place htyped hleast).exists_char hmisplaced
    exact ⟨before, c, after, hbefore, rfl, hpoints, hpoints.eq_length⟩
  · refine ⟨fun char position source hreports => (nomatch htoken.unique hreports),
      fun seen expected source hreports => ?_⟩
    obtain ⟨rfl, -, -⟩ := Problem.unexpectedToken.inj (htoken.unique hreports)
    obtain ⟨before, after, hbefore, hfound⟩ :=
      Numeral.exists_token_typed htyped hlexes hplaced hcomes
    rw [hbefore]
    exact ⟨before, after, rfl, hfound, hfound.points.eq_length, hfound.spelled⟩

/-- A character in front of a number is reported where it was typed, and an end of input behind one
is not. -/
theorem add_reports_place_both_sides :
    let s := start inputPath default true (.start true)
    (∃ fault t, add " x $ 1" none s = .error fault t ∧
      fault.Reports (.unexpectedChar "$" 2 "x $ ((λf.(λx.f x)))") ∧
      ∃ before after, Text.trim " x $ 1".toList = before ++ '$' :: after ∧
        PointsBetween before ('$' :: after) 2) ∧
    ∃ fault t, add "(1" none s = .error fault t ∧
      fault.Reports (.unexpectedToken ⟨.endOfInput, none, 16⟩ "expected ')' after expression"
        "(((λf.(λx.f x)))") ∧
      ∃ before after, Text.trim "(1".toList = before ++ after ∧
        TokenTyped ⟨.endOfInput, none, 16⟩ before after := by
  intro s
  obtain ⟨fault, t, hadd, hreports⟩ : ∃ fault t, add " x $ 1" none s = .error fault t ∧
      fault.Reports (.unexpectedChar "$" 2 "x $ ((λf.(λx.f x)))") :=
    Action.exists_of_reported? (by decide +kernel)
  obtain ⟨fault', t', hadd', hreports'⟩ : ∃ fault t, add "(1" none s = .error fault t ∧
      fault.Reports (.unexpectedToken ⟨.endOfInput, none, 16⟩ "expected ')' after expression"
        "(((λf.(λx.f x)))") := Action.exists_of_reported? (by decide +kernel)
  obtain ⟨before, c, after, htyped, hchar, hpoints, -⟩ :=
    (add_reports_place (by decide +kernel) hadd).1 _ _ _ hreports
  obtain ⟨before', after', htyped', hfound, -, -⟩ :=
    (add_reports_place (by decide +kernel) hadd').2 _ _ _ hreports'
  have hdollar : String.singleton '$' = "$" := by decide
  obtain rfl : '$' = c := String.singleton_inj.mp (hdollar.trans hchar)
  exact ⟨⟨fault, t, hadd, hreports, before, after, htyped, hpoints⟩,
    fault', t', hadd', hreports', before', after', htyped', hfound⟩

/-- A character behind a number is reported at a position that the typed text does not have. -/
theorem reported_behind_number :
    let s := start inputPath default true (.start true)
    Reachable s ∧ ∃ fault t, add "1 $" none s = .error fault t ∧
      fault.Reports (.unexpectedChar "$" 16 "((λf.(λx.f x))) $") ∧
      (Text.trim "1 $".toList)[16]? = none ∧ (Text.trim "1 $".toList)[2]? = some '$' := by
  intro s
  obtain ⟨fault, t, hadd, hreports⟩ : ∃ fault t, add "1 $" none s = .error fault t ∧
      fault.Reports (.unexpectedChar "$" 16 "((λf.(λx.f x))) $") :=
    Action.exists_of_reported? (by decide +kernel)
  exact ⟨.start _ _ _ _, fault, t, hadd, hreports, by decide +kernel, by decide +kernel⟩

end Session

end UntypedLambda
