import UntypedLambda.Proofs.Misplaced
import UntypedLambda.Proofs.RoundTrip
import UntypedLambda.Proofs.ViablePrefix

/-!
# A term in parentheses among other tokens

Where the text of a term stands in parentheses, the tokens of that place spell the term, whatever
stands around it. The grammar derives an atom from them, and an atom can take the place of any other
that starts with a parenthesis. So what the tokens up to the parenthesis are the beginning of can be
continued with all of the atom, and the parser refuses no token inside.
-/

namespace UntypedLambda

section Replacement

variable {phrase : Phrase} {row earlier more atom : List Token} {opening : Token}

/-- Where the grammar derives an atom that starts with a parenthesis, it derives any other atom in
its place, with some of the tokens behind it. -/
theorem Derives.replace_opening (h : Derives phrase row) (hrow : row = earlier ++ opening :: more)
    (hopening : opening.kind = .opening) (hatom : Derives .atom atom) :
    ∃ others, others <:+ more ∧ Derives phrase (earlier ++ (atom ++ others)) := by
  have hother {token : Token} {kind : TokenKind} (hkind : token.kind = kind)
      (hne : kind ≠ .opening) : token ≠ opening := by
    rintro rfl
    exact hne (hkind.symm.trans hopening)
  have hparts {first others : List Token} (hfirst : Derives .atom first)
      (hothers : Derives .atoms others)
      (ihh : ∀ {earlier more : List Token}, first = earlier ++ opening :: more →
        ∃ rest, rest <:+ more ∧ Derives .atom (earlier ++ (atom ++ rest)))
      (iht : ∀ {earlier more : List Token}, others = earlier ++ opening :: more →
        ∃ rest, rest <:+ more ∧ Derives .atoms (earlier ++ (atom ++ rest)))
      {earlier more : List Token} (hrow : first ++ others = earlier ++ opening :: more) :
      ∃ rest first' others', rest <:+ more ∧ earlier ++ (atom ++ rest) = first' ++ others' ∧
        Derives .atom first' ∧ Derives .atoms others' := by
    rcases Scanner.append_eq_append_cons hrow with ⟨between, rfl, heq⟩ | ⟨between, heq, rfl⟩
    · obtain ⟨rest, hsuffix, hderives⟩ := iht heq
      exact ⟨rest, first, _, hsuffix, List.append_assoc _ _ _, hfirst, hderives⟩
    · obtain ⟨rest, ⟨dropped, hdropped⟩, hderives⟩ := ihh heq
      refine ⟨rest ++ others, _, others, ⟨dropped, ?_⟩, ?_, hderives, hothers⟩
      · rw [← hdropped, List.append_assoc]
      · simp only [List.append_assoc]
  induction h generalizing earlier more with
  | @var name isName =>
    have hmem : opening ∈ [name] := by
      rw [hrow]
      exact List.mem_append_right earlier List.mem_cons_self
    exact absurd (List.mem_singleton.mp hmem).symm (hother isName nofun)
  | @abstraction lambda param dot body isLambda isName isDot _ ih =>
    obtain _ | ⟨_, _ | ⟨_, _ | ⟨_, earlier⟩⟩⟩ := earlier
    · exact absurd (List.cons.inj hrow).1 (hother isLambda nofun)
    · exact absurd (List.cons.inj (List.cons.inj hrow).2).1 (hother isName nofun)
    · exact absurd (List.cons.inj (List.cons.inj (List.cons.inj hrow).2).2).1 (hother isDot nofun)
    · simp only [List.cons_append, List.cons.injEq] at hrow
      obtain ⟨rfl, rfl, rfl, hbody⟩ := hrow
      obtain ⟨others, hsuffix, hderives⟩ := ih hbody
      exact ⟨others, hsuffix, .abstraction isLambda isName isDot hderives⟩
  | @parentheses first last inside isOpening isClosing _ ih =>
    obtain _ | ⟨head, earlier⟩ := earlier
    · exact ⟨[], List.nil_suffix, by simpa using hatom⟩
    obtain ⟨rfl, hinside⟩ := List.cons.inj hrow
    rcases Scanner.append_eq_append_cons hinside with ⟨between, -, hlast⟩ | ⟨between, heq, rfl⟩
    · have hmem : opening ∈ [last] := hlast ▸ List.mem_append_right between List.mem_cons_self
      exact absurd (List.mem_singleton.mp hmem).symm (hother isClosing nofun)
    · obtain ⟨others, ⟨dropped, hdropped⟩, hderives⟩ := ih heq
      refine ⟨others ++ [last], ⟨dropped, by rw [← hdropped, List.append_assoc]⟩, ?_⟩
      have hgroup := Derives.parentheses isOpening isClosing hderives
      simpa using hgroup
  | noAtoms => exact absurd hrow (by simp)
  | moreAtoms head tail ihh iht =>
    obtain ⟨rest, first', others', hsuffix, heq, hfirst, hothers⟩ :=
      hparts head tail ihh iht hrow
    exact ⟨rest, hsuffix, heq ▸ .moreAtoms hfirst hothers⟩
  | expression head tail ihh iht =>
    obtain ⟨rest, first', others', hsuffix, heq, hfirst, hothers⟩ :=
      hparts head tail ihh iht hrow
    exact ⟨rest, hsuffix, heq ▸ .expression hfirst hothers⟩

end Replacement

namespace Parser

variable {earlier inner later behind : List Token} {opening eof token : Token} {expected : String}

/-- The parser refuses no token inside an atom that starts with a parenthesis. -/
theorem ComesTo.outside_atom
    (h : ComesTo ⟨none, []⟩ (earlier ++ opening :: (inner ++ later) ++ [eof])
      (.refused token expected behind))
    (hmore : ∀ token ∈ earlier ++ opening :: (inner ++ later), token.kind ≠ .endOfInput)
    (hspelled : Spelled (earlier ++ opening :: (inner ++ later))) (hend : eof.kind = .endOfInput)
    (hopening : opening.kind = .opening) (hatom : Derives .atom (opening :: inner)) :
    token ∈ earlier ∨ token = opening ∨ token ∈ later ++ [eof] := by
  obtain ⟨before, hsplit, ⟨rest, hfills, hdone⟩, hagain⟩ := h.refused
  rw [List.append_assoc, List.cons_append, List.append_assoc] at hsplit
  rcases Scanner.append_eq_append_cons hsplit with ⟨part, rfl, hpart⟩ | ⟨_, rfl, -⟩
  case inr => exact .inl (List.mem_append_right before List.mem_cons_self)
  obtain _ | ⟨first, part⟩ := part
  · exact .inr (.inl (List.cons.inj hpart).1.symm)
  obtain ⟨rfl, hinner⟩ := List.cons.inj hpart
  rcases Scanner.append_eq_append_cons hinner with ⟨_, -, hlater⟩ | ⟨other, rfl, -⟩
  · exact .inr (.inr (hlater ▸ List.mem_append_right _ List.mem_cons_self))
  -- The tokens before the refused one are accepted with others behind them, and so they are with
  -- the rest of the atom, to which the refused token belongs.
  have hrow {row : List Token} (hfrom : ∀ seen ∈ row,
      seen ∈ earlier ++ opening :: (part ++ token :: other ++ later) ∨ seen ∈ rest) :
      (∀ seen ∈ row, seen.kind ≠ .endOfInput) ∧ Spelled row := by
    obtain ⟨hrest, hgoes⟩ := hfills.spelled_and_more
    exact ⟨fun seen hseen => (hfrom seen hseen).elim (hmore seen) (hgoes seen),
      fun seen hseen => (hfrom seen hseen).elim (hspelled seen) (hrest seen)⟩
  obtain ⟨hgoes, hnamed⟩ := @hrow (earlier ++ opening :: part ++ rest) (by grind)
  obtain ⟨tree, htree⟩ := hdone eof hend
  rw [← List.append_assoc] at htree
  have hderives := (accepts_iff_derives hgoes hnamed).mp (accepts_of_comesTo hgoes hend htree)
  rw [List.append_assoc, List.cons_append] at hderives
  obtain ⟨others, hsuffix, hnew⟩ := hderives.replace_opening rfl hopening hatom
  have hothers : ∀ seen ∈ others, seen ∈ part ++ rest := hsuffix.subset
  obtain ⟨hgoes', hnamed'⟩ :=
    @hrow (earlier ++ (opening :: (part ++ token :: other) ++ others)) (by grind)
  obtain ⟨eof', tree', -, hcomes⟩ := ((accepts_iff_derives hgoes' hnamed').mpr hnew).comesTo
  have hagain' := hagain token (other ++ others ++ [eof']) rfl
  simp only [List.append_assoc, List.cons_append] at hcomes hagain'
  nomatch hcomes.unique hagain'

end Parser

namespace Scanner

variable {start : Nat} {text before after : List Char} {tokens : List Token} {c : Char}
  {kind : TokenKind} {t : Term}

/-- A scanner can stand anywhere in front of a text. -/
theorem exists_scanner (start : Nat) (text : List Char) :
    ∃ s : Scanner, s.position = start ∧ s.rest = text :=
  ⟨⟨List.replicate start ' ' ++ text, start, text, by simp, by simp⟩, rfl, rfl⟩

/-- A text is cut into tokens in one way. -/
theorem Lexes.unique {others : List Token} (h : Lexes start text tokens)
    (h' : Lexes start text others) : tokens = others := by
  obtain ⟨s, rfl, rfl⟩ := exists_scanner start text
  rw [← tokenize_eq_ok_iff_lexes] at h h'
  exact Except.ok.inj (h.symm.trans h')

/-- What is written as a single character is the token of this character. -/
theorem Written.eq_single {token : Token} (h : Written token [c])
    (hkind : singleKind? c = some kind) : token = ⟨kind, none, token.position⟩ := by
  generalize hspan : [c] = span at h
  cases h with
  | single hsingle =>
    obtain rfl := List.singleton_inj.mp hspan
    rw [Option.some.inj (hkind.symm.trans hsingle)]
  | name hname =>
    obtain ⟨first, others, hchars, hletter, -⟩ := isIdentifier_cases hname
    obtain ⟨rfl, -⟩ := List.cons.inj (hspan.trans hchars)
    nomatch hkind.symm.trans (singleKind?_of_isAlpha hletter)

/-- A character that is a token by itself is read as one where it stands, and the text is cut there
in front of it and behind it. -/
theorem Lexes.exists_single (h : Lexes start (before ++ c :: after) tokens)
    (hkind : singleKind? c = some kind) :
    ∃ earlier others, tokens = earlier ++ ⟨kind, none, (start + before.length : Nat)⟩ :: others ∧
      Lexes (start + before.length + 1) after others := by
  have hgoes {gap prior more : List Char} (hgap : ∀ d ∈ gap, isSpace d = true)
      (heq : gap = prior ++ c :: more) : False := by
    have hspace := hgap c (by simp [heq])
    rw [isSpace_of_singleKind? hkind] at hspace
    nomatch hspace
  generalize htext : before ++ c :: after = text at h
  induction h generalizing before with
  | ended hgap => exact (hgoes hgap htext.symm).elim
  | @token start gap span rest token others hgap place written stop tail ih =>
    rcases append_eq_append_cons htext.symm with ⟨more, rfl, hmore⟩ | ⟨more, heq, -⟩
    · rcases append_eq_append_cons hmore with ⟨more, rfl, rfl⟩ | ⟨more, rfl, rfl⟩
      · obtain ⟨earlier, others', rfl, hrest⟩ := ih rfl
        have hlength : start + (gap ++ (span ++ more)).length =
            start + gap.length + span.length + more.length := by
          simp only [List.length_append]
          omega
        rw [hlength]
        exact ⟨token :: earlier, others', rfl, hrest⟩
      · rcases written.single_or_name with ⟨rfl, rfl, -⟩ | ⟨_, _, -, -, hall⟩
        · rw [List.append_nil]
          refine ⟨[], others, ?_, tail⟩
          rw [List.nil_append, written.eq_single hkind, place]
        · have halphanum := hall c (by simp)
          rcases singleKind?_cases hkind with rfl | rfl | rfl | rfl | rfl <;> nomatch halphanum
    · exact (hgoes hgap heq).elim

/-- Up to the parenthesis behind it, the text of a term is read as tokens that spell the term. -/
theorem Lexes.exists_spells (hnames : ∀ name ∈ t.names, isIdentifier name = true)
    (h : Lexes start (t.spelling.toList ++ ')' :: after) tokens) :
    let stop : Nat := start + t.spelling.toList.length
    ∃ inside later, tokens = inside ++ ⟨.closing, none, stop⟩ :: later ∧ Spells t inside ∧
      Lexes (stop + 1) after later := by
  intro stop
  obtain ⟨-, later, -, hlater⟩ := h.exists_single rfl
  obtain ⟨s, hposition, hrest⟩ := exists_scanner start (t.spelling.toList ++ ')' :: after)
  have hstop : ∀ c ∈ (')' :: after).head?, c.isAlphanum = false := by simp
  obtain ⟨inside, between, hscans, hspells, hbehind⟩ :=
    Term.scans_spelling hnames [] hrest (List.forall_mem_nil _) hstop
  obtain ⟨passed, hpassed, -, hbetween, -⟩ := hscans.exists_passed
  have hplace : between.position = stop := by
    rw [hbehind, hrest] at hpassed
    rw [hbetween, hposition, ← List.append_cancel_right hpassed]
  have hclosing : Lexes between.position between.rest (⟨.closing, none, stop⟩ :: later) := by
    rw [hplace, hbehind]
    exact .token (List.forall_mem_nil _) rfl (.single rfl) nofun hlater
  have hrow := hscans.lexes hclosing
  rw [hposition, hrest] at hrow
  exact ⟨inside, later, h.unique hrow, hspells, hlater⟩

/-- Every name among the tokens of a text spells something. -/
theorem Lexes.spelled (h : Lexes start text tokens) : Spelled tokens := by
  intro token hmem hname
  have hstart : (List.replicate start ' ').length = start := List.length_replicate
  have hgoes : token.kind ≠ .endOfInput := by
    rw [hname]
    nofun
  obtain ⟨_, _, _, -, -, -, hvalue⟩ := h.standsIn hstart token hmem hgoes
  obtain ⟨name, hvalue, -⟩ := hvalue hname
  exact ⟨name, hvalue⟩

/-- Where the text of a term stands in parentheses, the parser refuses none of the characters behind
the first one. -/
theorem Lexes.refused_outside (hnames : ∀ name ∈ t.names, isIdentifier name = true)
    (h : Lexes start (before ++ '(' :: (t.spelling.toList ++ ')' :: after)) tokens) {token : Token}
    {expected : String} {behind : List Token}
    (hrefused : Parser.ComesTo ⟨none, []⟩ tokens (.refused token expected behind)) :
    token.position ≤ (start + before.length : Nat) ∨
      (start + before.length + t.spelling.toList.length + 2 : Nat) ≤ token.position := by
  obtain ⟨earlier, others, rfl, hinside⟩ := h.exists_single rfl
  obtain ⟨inside, later, rfl, hspells, hlater⟩ := hinside.exists_spells hnames
  obtain ⟨rest, rfl, -⟩ := hlater.exists_row
  let opening : Token := ⟨.opening, none, (start + before.length : Nat)⟩
  let closing : Token :=
    ⟨.closing, none, (start + before.length + 1 + t.spelling.toList.length : Nat)⟩
  let eof : Token := ⟨.endOfInput, none,
    (start + before.length + 1 + t.spelling.toList.length + 1 + after.length : Nat)⟩
  let row := earlier ++ opening :: ((inside ++ [closing]) ++ rest)
  have hrow : earlier ++ opening :: (inside ++ closing :: (rest ++ [eof])) = row ++ [eof] := by
    simp [row]
  have hgoes : ∀ seen ∈ row, seen.kind ≠ .endOfInput := by
    obtain ⟨row', heq, hgoes⟩ := h.exists_row
    rwa [(List.append_inj' (hrow.symm.trans heq) rfl).1]
  have hspelled : Spelled row := fun seen hseen =>
    h.spelled seen (hrow ▸ List.mem_append_left [eof] hseen)
  have hatom : Derives .atom (opening :: (inside ++ [closing])) := by
    have hreads : Reads (.after none) (inside ++ []) [closing] t := hspells.reads (.done t)
    rw [List.append_nil] at hreads
    have hgroup : Reads .atom (opening :: (inside ++ [closing])) [] t :=
      .parentheses rfl rfl hreads
    exact hgroup.derives
  rw [hrow] at hrefused
  rcases hrefused.outside_atom hgoes hspelled rfl rfl hatom with hearlier | rfl | hbehind
  · have hbefore := (List.pairwise_append.mp h.pairwise).2.2 token hearlier opening
      List.mem_cons_self
    exact .inl (Int.le_of_lt hbefore)
  · exact .inl (Int.le_refl _)
  · have hafter := hlater.le_position token hbehind
    exact .inr (by omega)

end Scanner

end UntypedLambda
