import UntypedLambda.Proofs.Lexemes
import UntypedLambda.Proofs.Report

/-!
# Misplaced characters

A text is refused for the first character that has no place in it: a character that neither
separates tokens nor occurs in any, or a digit that continues no name. What the scanner passes on
its way holds no such character, and where it stops there is one.
-/

namespace UntypedLambda.Scanner

/-- Whether a character neither separates tokens nor occurs in one. -/
def Foreign (c : Char) : Prop :=
  c ∉ [' ', '\t', '\r', '\n', '\\', 'λ', '.', '(', ')'] ∧ c.isAlpha = false ∧ c.isDigit = false

/-- Whether the character at an offset is foreign, or is a digit that stands first or behind a
character that is no letter or digit. -/
def Misplaced (text : List Char) (offset : Nat) : Prop :=
  ∃ c ∈ text[offset]?,
    Foreign c ∨ c.isDigit = true ∧ ∀ d ∈ (text.take offset).getLast?, d.isAlphanum = false

instance (c : Char) : Decidable (Foreign c) := inferInstanceAs (Decidable (_ ∧ _))

instance (text : List Char) (offset : Nat) : Decidable (Misplaced text offset) :=
  -- Both bounds are options: there is no need to go through all characters.
  have := Option.decidableForallMem (p := fun d : Char => d.isAlphanum = false)
    (text.take offset).getLast?
  Option.decidableExistsMem text[offset]?

/-- Whether every character of a run has a place in it, whatever stands around the run. -/
def WellPlaced (run : List Char) : Prop :=
  ∀ before c behind, run = before ++ c :: behind →
    ¬Foreign c ∧ (c.isDigit = true → ∃ d ∈ before.getLast?, d.isAlphanum = true)

variable {s : Scanner} {run first second : List Char} {c : Char}

section Characters

/-- All but five characters are no token by themselves. -/
theorem singleKind?_eq_none_iff :
    singleKind? c = none ↔ c ≠ '\\' ∧ c ≠ 'λ' ∧ c ≠ '.' ∧ c ≠ '(' ∧ c ≠ ')' := by
  unfold singleKind?
  grind

/-- A character is foreign if it is no space, no token by itself and neither letter nor digit. -/
theorem foreign_iff :
    Foreign c ↔ isSpace c = false ∧ singleKind? c = none ∧ c.isAlphanum = false := by
  simp only [Foreign, isSpace, singleKind?_eq_none_iff, Char.isAlphanum, List.mem_cons]
  grind

/-- A digit is a letter or digit. -/
theorem isAlphanum_of_isDigit (h : c.isDigit = true) : c.isAlphanum = true := by
  rw [Char.isAlphanum, h, Bool.or_true]

/-- No letter is a digit. -/
theorem isDigit_eq_false_of_isAlpha (h : c.isAlpha = true) : c.isDigit = false := by
  unfold Char.isAlpha Char.isUpper Char.isLower at h
  simp only [Char.isDigit, UInt32.le_iff_toNat_le] at *
  grind

end Characters

section Runs

/-- Runs in which every character has a place have places for all characters together. -/
theorem WellPlaced.append (hfirst : WellPlaced first) (hsecond : WellPlaced second) :
    WellPlaced (first ++ second) := by
  intro before c behind hsplit
  rcases append_eq_append_cons hsplit with ⟨more, rfl, hmore⟩ | ⟨more, hmore, -⟩
  · obtain ⟨hforeign, hdigit⟩ := hsecond more c behind hmore
    refine ⟨hforeign, fun hc => ?_⟩
    obtain ⟨d, hd, halphanum⟩ := hdigit hc
    rw [List.getLast?_append, Option.mem_def.mp hd]
    exact ⟨d, rfl, halphanum⟩
  · exact hfirst before c more hmore

/-- Spaces have a place everywhere. -/
theorem wellPlaced_of_spaces (hrun : ∀ c ∈ run, isSpace c = true) : WellPlaced run := by
  rintro before c behind rfl
  have hspace : isSpace c = true := hrun c (by simp)
  refine ⟨fun hforeign => ?_, fun hdigit => ?_⟩
  · rw [(foreign_iff.mp hforeign).1] at hspace
    nomatch hspace
  · rw [isSpace_of_isAlphanum (isAlphanum_of_isDigit hdigit)] at hspace
    nomatch hspace

/-- The characters of a token have a place in it: only a name has digits, and it starts with a
letter. -/
theorem Written.wellPlaced {token : Token} (h : Written token run) : WellPlaced run := by
  rintro before c behind rfl
  rcases h.single_or_name with ⟨-, -, hkind⟩ | ⟨head, others, hhead, hletter, hall⟩
  · refine ⟨fun hforeign => ?_, fun hdigit => ?_⟩
    · rw [(foreign_iff.mp hforeign).2.1] at hkind
      nomatch hkind
    · rcases singleKind?_cases hkind with rfl | rfl | rfl | rfl | rfl <;> nomatch hdigit
  · refine ⟨fun hforeign => ?_, fun hdigit => ?_⟩
    · have hc := hall c (by simp)
      rw [(foreign_iff.mp hforeign).2.2] at hc
      nomatch hc
    · rcases List.eq_nil_or_concat before with rfl | ⟨others', d, rfl⟩
      · obtain ⟨rfl, -⟩ := List.cons.inj hhead
        rw [isDigit_eq_false_of_isAlpha hletter] at hdigit
        nomatch hdigit
      · exact ⟨d, by simp, hall d (by simp)⟩

/-- A token in which a letter or digit occurs is a name. -/
theorem Written.kind_eq_name {token : Token} (h : Written token run)
    (hrun : ∃ c ∈ run, c.isAlphanum = true) : token.kind = .name := by
  obtain ⟨c, hc, halphanum⟩ := hrun
  cases h with
  | single hkind =>
    obtain rfl := List.mem_singleton.mp hc
    rcases singleKind?_cases hkind with rfl | rfl | rfl | rfl | rfl <;> nomatch halphanum
  | name _ => rfl

/-- A misplaced character divides its text. -/
theorem misplaced_iff {text : List Char} {offset : Nat} :
    Misplaced text offset ↔ ∃ before c behind, text = before ++ c :: behind ∧
      before.length = offset ∧
      (Foreign c ∨ c.isDigit = true ∧ ∀ d ∈ before.getLast?, d.isAlphanum = false) := by
  constructor
  · rintro ⟨c, hc, hmisplaced⟩
    obtain ⟨hoffset, rfl⟩ := List.getElem?_eq_some_iff.mp hc
    refine ⟨text.take offset, _, text.drop (offset + 1), ?_, ?_, hmisplaced⟩
    · rw [← List.drop_eq_getElem_cons hoffset, List.take_append_drop]
    · rw [List.length_take, Nat.min_eq_left (Nat.le_of_lt hoffset)]
  · rintro ⟨before, c, behind, rfl, rfl, hmisplaced⟩
    refine ⟨c, by simp, ?_⟩
    rwa [List.take_left]

/-- No character of a text in which all have a place is misplaced. -/
theorem WellPlaced.not_misplaced (h : WellPlaced run) (offset : Nat) : ¬Misplaced run offset := by
  intro hmisplaced
  obtain ⟨before, c, behind, hsplit, -, hforeign | ⟨hdigit, hlast⟩⟩ := misplaced_iff.mp hmisplaced
  · exact (h before c behind hsplit).1 hforeign
  · obtain ⟨d, hd, halphanum⟩ := (h before c behind hsplit).2 hdigit
    rw [hlast d hd] at halphanum
    nomatch halphanum

/-- What stands behind a character makes no difference to its place. -/
theorem Misplaced.of_append {behind : List Char} {offset : Nat}
    (h : Misplaced (run ++ behind) offset) (hoffset : offset < run.length) :
    Misplaced run offset := by
  obtain ⟨before, c, after, hsplit, rfl, hmisplaced⟩ := misplaced_iff.mp h
  rcases append_eq_append_cons hsplit with ⟨more, rfl, -⟩ | ⟨more, hmore, -⟩
  · rw [List.length_append] at hoffset
    omega
  · exact misplaced_iff.mpr ⟨before, c, more, hmore, rfl, hmisplaced⟩

end Runs

section Scans

/-- Reading tokens stays in the text. -/
theorem Scans.text_eq {between : Scanner} {row : List Token} (h : Scans s row between) :
    between.text = s.text := by
  induction h with
  | nothing s => rfl
  | @token s between after token others read _ _ ih => rw [ih, ← text_next s, read]

/-- What is read has places for all of its characters, and no name is cut off at its end. -/
theorem Scans.exists_passed {between : Scanner} {row : List Token} (h : Scans s row between) :
    ∃ passed, s.rest = passed ++ between.rest ∧ WellPlaced passed ∧
      between.position = s.position + passed.length ∧
      ((∃ d ∈ passed.getLast?, d.isAlphanum = true) →
        ∀ c ∈ between.rest.head?, c.isAlphanum = false) := by
  induction h with
  | nothing s => exact ⟨[], rfl, by simp [WellPlaced], rfl, by simp⟩
  | @token s between after token others read goesOn _ ih =>
    obtain ⟨gap, span, hrest, hgap, -, hwritten, hstop, hposition⟩ := written_of_next read goesOn
    obtain ⟨passed, hpassed, hplaced, hend, hcut⟩ := ih
    have hspan : WellPlaced (gap ++ span) := (wellPlaced_of_spaces hgap).append hwritten.wellPlaced
    refine ⟨gap ++ span ++ passed, ?_, hspan.append hplaced, ?_, ?_⟩
    · rw [hrest, hpassed, List.append_assoc, List.append_assoc]
    · rw [hend, hposition, List.length_append, List.length_append]
      omega
    · rintro ⟨d, hd, halphanum⟩
      rcases List.eq_nil_or_concat passed with rfl | ⟨others', last, rfl⟩
      · have hlast : ∃ c ∈ span, c.isAlphanum = true := by
          refine ⟨d, ?_, halphanum⟩
          have hspan : span.getLast?.isSome = true := List.getLast?_isSome.mpr hwritten.span_ne_nil
          rw [List.append_nil, List.getLast?_append, Option.or_of_isSome hspan] at hd
          exact List.mem_of_getLast? hd
        rw [List.nil_append] at hpassed
        exact hpassed ▸ hstop (hwritten.kind_eq_name hlast)
      · refine hcut ⟨d, ?_, halphanum⟩
        simpa using hd

/-- Tokens are read up to the end of input or up to a problem, and either is what tokenizing comes
to. -/
theorem exists_scans (s : Scanner) :
    ∃ row between, Scans s row between ∧
      ((∃ eof after, between.next = (.ok eof, after) ∧ eof.kind = .endOfInput ∧
          s.tokenize = (.ok (row ++ [eof]), after)) ∨
        ∃ problem after, between.next = (.error problem, after) ∧
          s.tokenize = (.error problem, after)) := by
  have hends : ∃ row between, Scans s row between ∧
      ∀ token after, between.next = (.ok token, after) → token.kind = .endOfInput := by
    -- Every token but the end of input takes characters off the rest of the text.
    induction hlength : s.rest.length using Nat.strongRecOn generalizing s with
    | _ length ih =>
      subst hlength
      by_cases hgoes : ∃ token after, s.next = (.ok token, after) ∧ token.kind ≠ .endOfInput
      · obtain ⟨token, after, hread, hmore⟩ := hgoes
        obtain ⟨row, between, hscans, hlast⟩ := ih _ (length_rest_next_lt hread hmore) after rfl
        exact ⟨token :: row, between, .token hread hmore hscans, hlast⟩
      · refine ⟨[], s, .nothing s, fun token after hread => ?_⟩
        by_contra hmore
        exact hgoes ⟨token, after, hread, hmore⟩
  obtain ⟨row, between, hscans, hlast⟩ := hends
  refine ⟨row, between, hscans, ?_⟩
  have htokenize : s.tokenize = tokenizeOnto (row.reverse ++ []) between :=
    tokenizeOnto_of_scans hscans []
  cases hnext : between.next with
  | mk outcome after =>
    cases outcome with
    | ok eof =>
      have hend : eof.kind = .endOfInput := hlast eof after hnext
      refine .inl ⟨eof, after, rfl, hend, ?_⟩
      rw [htokenize, tokenizeOnto_of_end _ hnext hend]
      simp
    | error problem =>
      refine .inr ⟨problem, after, rfl, ?_⟩
      rw [htokenize, tokenizeOnto_of_error _ hnext]

/-- A text is tokenized and has no misplaced character, or the first one that it has is reported. -/
theorem tokenize_cases (text : String) :
    let chars := Text.trim text.toList
    let scanned := (Scanner.ofString text).tokenize
    ((∃ tokens, scanned.1 = .ok tokens) ∧ ∀ offset, ¬Misplaced chars offset) ∨
      ∃ offset c, chars[offset]? = some c ∧ Misplaced chars offset ∧
        (∀ earlier < offset, ¬Misplaced chars earlier) ∧ scanned.2.position = offset ∧
        scanned.1 = .error (.unexpectedChar (String.singleton c) offset (String.ofList chars)) := by
  intro chars scanned
  obtain ⟨row, between, hscans, hend⟩ := exists_scans (.ofString text)
  obtain ⟨passed, hpassed, hplaced, hposition, hcut⟩ := hscans.exists_passed
  have hchars : chars = passed ++ between.rest := hpassed
  have hstart : between.position = passed.length := hposition.trans (Nat.zero_add _)
  rcases hend with ⟨eof, after, hnext, hkind, htokenize⟩ | ⟨problem, after, hnext, htokenize⟩
  · have hgap : WellPlaced between.rest := by
      have hlexes := lexes_of_end hnext hkind
      generalize between.rest = gap at hlexes ⊢
      cases hlexes with
      | ended hgap => exact wellPlaced_of_spaces hgap
      | token _ _ _ _ tail => nomatch tail
    have hall : WellPlaced chars := hchars ▸ hplaced.append hgap
    exact .inl ⟨⟨_, congrArg Prod.fst htokenize⟩, hall.not_misplaced⟩
  · obtain ⟨gap, c, behind, hrest, hgap, hspace, hsingle, hletter, hplace, rfl⟩ :=
      exists_of_next_eq_error hnext
    have hsplit : chars = (passed ++ gap) ++ c :: behind := by
      rw [hchars, hrest, List.append_assoc]
    have hoffset : after.position = (passed ++ gap).length := by
      rw [hplace, hstart, List.length_append]
    have hsource : between.source = String.ofList chars := congrArg String.ofList hscans.text_eq
    have hlast : c.isAlphanum = true → ∀ d ∈ (passed ++ gap).getLast?, d.isAlphanum = false := by
      intro halphanum d hd
      rcases List.eq_nil_or_concat gap with rfl | ⟨others, last, rfl⟩
      · by_contra hname
        rw [List.append_nil] at hd
        have hnone := hcut ⟨d, hd, (Bool.not_eq_false _).mp hname⟩ c (by rw [hrest]; rfl)
        rw [halphanum] at hnone
        nomatch hnone
      · have hlast : isSpace d = true := hgap d (by simp_all)
        by_contra hname
        rw [isSpace_of_isAlphanum ((Bool.not_eq_false _).mp hname)] at hlast
        nomatch hlast
    have hbefore : WellPlaced (passed ++ gap) := hplaced.append (wellPlaced_of_spaces hgap)
    refine .inr ⟨(passed ++ gap).length, c, ?_, ?_, ?_, ?_, ?_⟩
    · rw [hsplit, List.getElem?_append_right (Nat.le_refl _), Nat.sub_self, List.getElem?_cons_zero]
    · refine misplaced_iff.mpr ⟨passed ++ gap, c, behind, hsplit, rfl, ?_⟩
      by_cases hdigit : c.isDigit = true
      · exact .inr ⟨hdigit, hlast (isAlphanum_of_isDigit hdigit)⟩
      · have halphanum : c.isAlphanum = false := by
          rw [Char.isAlphanum, hletter, (Bool.not_eq_true _).mp hdigit, Bool.or_self]
        exact .inl (foreign_iff.mpr ⟨hspace, hsingle, halphanum⟩)
    · intro earlier hless hmisplaced
      rw [hsplit] at hmisplaced
      exact hbefore.not_misplaced earlier (hmisplaced.of_append hless)
    · exact (congrArg (fun scanned => scanned.2.position) htokenize).trans hoffset
    · rw [← hsource, ← hoffset]
      exact congrArg Prod.fst htokenize

end Scans

/-- Tokenizing refuses exactly the texts with a misplaced character. What is reported is the first
such character with its offset, in the trimmed text, and the scanner stays in front of it. -/
theorem tokenize_refuses_first (text : String) :
    ((∃ problem, (Scanner.ofString text).tokenize.1 = .error problem) ↔
      ∃ offset, Misplaced (Text.trim text.toList) offset) ∧
    ∀ offset, Misplaced (Text.trim text.toList) offset →
      (∀ earlier < offset, ¬Misplaced (Text.trim text.toList) earlier) →
      ∃ c problem, (Text.trim text.toList)[offset]? = some c ∧
        problem = .unexpectedChar (String.singleton c) offset (Text.trimmed text) ∧
        (Scanner.ofString text).tokenize.1 = .error problem ∧ problem.fault.Reports problem ∧
        (Scanner.ofString text).tokenize.2.position = offset := by
  rcases tokenize_cases text with ⟨⟨tokens, hok⟩, hnone⟩ | ⟨first, c, hc, hmisplaced, hleast,
    hposition, herror⟩
  · have herror : ¬∃ problem, (Scanner.ofString text).tokenize.1 = .error problem := by
      rintro ⟨problem, herror⟩
      nomatch hok.symm.trans herror
    exact ⟨iff_of_false herror (not_exists.mpr hnone), fun offset h => absurd h (hnone offset)⟩
  · refine ⟨iff_of_true ⟨_, herror⟩ ⟨first, hmisplaced⟩, fun offset hoffset hfirst => ?_⟩
    have hle : offset ≤ first := Nat.le_of_not_lt fun hlt => hfirst first hlt hmisplaced
    have hge : first ≤ offset := Nat.le_of_not_lt fun hlt => hleast offset hlt hoffset
    obtain rfl : offset = first := Nat.le_antisymm hle hge
    exact ⟨c, _, hc, rfl, herror, Problem.unexpectedChar_reports _ _ _, hposition⟩

/-- A no-break space, which trimming removes at the ends of a text, and behind it a digit: both are
misplaced, and the first is reported. -/
theorem tokenize_refuses_first_no_break_space :
    let chars := ['(', 'x', '1', '\u00a0', '2', ')']
    let scanned := (Scanner.ofString "\u00a0(x1\u00a02)").tokenize
    Misplaced chars 3 ∧ Misplaced chars 4 ∧ (∀ earlier < 3, ¬Misplaced chars earlier) ∧
      scanned.1 = .error (.unexpectedChar "\u00a0" 3 "(x1\u00a02)") ∧ scanned.2.position = 3 := by
  intro chars scanned
  have hchars : Text.trim "\u00a0(x1\u00a02)".toList = chars := by decide +kernel
  have hthird : Misplaced chars 3 := by decide
  have hearlier : ∀ earlier < 3, ¬Misplaced chars earlier := by decide
  have hrefused := (tokenize_refuses_first "\u00a0(x1\u00a02)").2 3
  rw [hchars] at hrefused
  obtain ⟨c, problem, hc, rfl, herror, -, hposition⟩ := hrefused hthird hearlier
  obtain rfl : '\u00a0' = c := Option.some.inj hc
  rw [Text.trimmed, hchars] at herror
  exact ⟨hthird, by decide, hearlier, herror, hposition⟩

end UntypedLambda.Scanner
