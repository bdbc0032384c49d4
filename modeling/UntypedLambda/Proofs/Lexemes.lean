import UntypedLambda.Proofs.Scanning

/-!
# Tokens and the characters that they are read from

A text can be tokenized exactly if it can be cut into spaces and tokens, where no name is followed
by a letter or digit. The cut text says all there is to say about the tokens: where each of them
stands, that only spaces stand between them, and that they spell the text. How a lambda is spelled
makes no difference to the tokens.
-/

namespace UntypedLambda

namespace Token

/-- Whether some characters spell a token. A lambda has two spellings. -/
def SpelledBy (token : Token) (span : List Char) : Prop :=
  match token.kind with
  | .lambda => span = ['\\'] ∨ span = ['λ']
  | _ => span = token.lexeme.toList

/-- Whether a token stands in a text at its position: it is spelled there, and a name is an
identifier that goes as far as it can. -/
def StandsIn (token : Token) (text : List Char) : Prop :=
  ∃ before span after, text = before ++ (span ++ after) ∧ token.position = before.length ∧
    token.SpelledBy span ∧ (token.kind = .name →
      ∃ name, token.value = some name ∧ isIdentifier name = true ∧
        ∀ c ∈ after.head?, c.isAlphanum = false)

/-- Whether the span of a token holds an offset. -/
def Covers (token : Token) (offset : Nat) : Prop :=
  token.position ≤ offset ∧ offset < token.position + token.lexeme.length

end Token

namespace Scanner

/-- An element of a list of two parts is in the first part or in the second. -/
theorem append_eq_append_cons {α : Type} {first second before after : List α} {c : α}
    (h : first ++ second = before ++ c :: after) :
    (∃ more, before = first ++ more ∧ second = more ++ c :: after) ∨
      ∃ more, first = before ++ c :: more ∧ after = more ++ second := by
  rcases List.append_eq_append_iff.mp h with ⟨more, hbefore, hsecond⟩ | ⟨more, hfirst, hafter⟩
  · exact .inl ⟨more, hbefore, hsecond⟩
  · rcases List.cons_eq_append_iff.mp hafter with ⟨rfl, hsecond⟩ | ⟨more, rfl, hafter⟩
    · exact .inl ⟨[], by simpa using hfirst.symm, hsecond⟩
    · exact .inr ⟨more, hfirst, (List.cons.inj hafter).2⟩

/-- The character, with a lambda in its canonical spelling. -/
def canonical (c : Char) : Char := if c = '\\' then 'λ' else c

/-- What does not tell the spellings of lambda apart is the same of the canonical spelling. -/
theorem apply_canonical {α : Type} (f : Char → α) (hsame : f 'λ' = f '\\') (c : Char) :
    f (canonical c) = f c := by
  unfold canonical
  split
  · next hc => rw [hc, hsame]
  · rfl

/-- A letter or digit is its own spelling. -/
theorem canonical_of_isAlphanum {c : Char} (h : c.isAlphanum = true) : canonical c = c := by
  refine if_neg ?_
  rintro rfl
  cases h

/-- What the tokens other than the end of input are written as. -/
inductive Written : Token → List Char → Prop where
  /-- A token of one character. -/
  | single {c : Char} {kind : TokenKind} {position : Int} (h : singleKind? c = some kind) :
      Written ⟨kind, none, position⟩ [c]
  /-- A name is written as it is. -/
  | name {name : String} {position : Int} (h : isIdentifier name = true) :
      Written ⟨.name, some name, position⟩ name.toList

/-- The tokens of a text that is cut into spaces and tokens. The text starts at an offset. -/
inductive Lexes : Nat → List Char → List Token → Prop where
  /-- Nothing but spaces is left. -/
  | ended {start : Nat} {gap : List Char} (hgap : ∀ c ∈ gap, isSpace c = true) :
      Lexes start gap [⟨.endOfInput, none, (start + gap.length : Nat)⟩]
  /-- Behind spaces there is a token. -/
  | token {start : Nat} {gap span rest : List Char} {token : Token} {others : List Token}
      (hgap : ∀ c ∈ gap, isSpace c = true)
      (place : token.position = (start + gap.length : Nat)) (written : Written token span)
      (stop : token.kind = .name → ∀ c ∈ rest.head?, c.isAlphanum = false)
      (tail : Lexes (start + gap.length + span.length) rest others) :
      Lexes start (gap ++ (span ++ rest)) (token :: others)

section Written

variable {token : Token} {span : List Char}

/-- A written token is not the end of input. -/
theorem Written.kind_ne (h : Written token span) : token.kind ≠ .endOfInput := by
  cases h with
  | single hkind => exact fun hend => singleKind?_ne_endOfInput _ (hkind.trans (congrArg some hend))
  | name _ => nofun

/-- A token is written as its lexeme, up to the spelling of a lambda. -/
theorem Written.map_canonical (h : Written token span) :
    span.map canonical = token.lexeme.toList := by
  cases h with
  | @single c kind position hkind =>
    rcases singleKind?_cases hkind with rfl | rfl | rfl | rfl | rfl <;>
    · obtain rfl := Option.some.inj hkind
      simp [canonical, Token.lexeme]
  | @name name position hname =>
    obtain ⟨-, -, -, -, hall⟩ := isIdentifier_cases hname
    exact (List.map_congr_left fun c hc => canonical_of_isAlphanum (hall c hc)).trans
      (List.map_id _)

/-- A token is spelled by the characters that it is written as. -/
theorem Written.spelledBy (h : Written token span) : token.SpelledBy span := by
  cases h with
  | @single c kind position hkind =>
    rcases singleKind?_cases hkind with rfl | rfl | rfl | rfl | rfl <;>
      obtain rfl := Option.some.inj hkind
    · exact .inl rfl
    · exact .inr rfl
    all_goals simp [Token.SpelledBy, Token.lexeme]
  | name _ => rfl

/-- A written name is an identifier. -/
theorem Written.isIdentifier (h : Written token span) (isName : token.kind = .name) :
    ∃ name, token.value = some name ∧ isIdentifier name = true := by
  cases h with
  | single hkind => exact absurd (hkind.trans (congrArg some isName)) (singleKind?_ne_name _)
  | name hname => exact ⟨_, rfl, hname⟩

/-- A token is as long as its lexeme. -/
theorem Written.length_eq (h : Written token span) : span.length = token.lexeme.length := by
  rw [← String.length_toList, ← h.map_canonical, List.length_map]

/-- A written token has characters, and none of them is a space. -/
theorem Written.span_ne_nil (h : Written token span) : span ≠ [] := by
  cases h with
  | single _ => exact List.cons_ne_nil _ _
  | name hname =>
    obtain ⟨first, others, hchars, -⟩ := isIdentifier_cases hname
    rw [hchars]
    exact List.cons_ne_nil first others

/-- A character of a token is the token, or all characters of the token are letters and digits. -/
theorem Written.single_or_name {first last : List Char} {c : Char}
    (h : Written token (first ++ c :: last)) :
    (first = [] ∧ last = [] ∧ singleKind? c = some token.kind) ∨
      ∃ head others, first ++ c :: last = head :: others ∧ head.isAlpha = true ∧
        ∀ d ∈ first ++ c :: last, d.isAlphanum = true := by
  generalize hspan : first ++ c :: last = span at h
  cases h with
  | single hkind =>
    rcases List.append_eq_singleton_iff.mp hspan with ⟨rfl, hcons⟩ | ⟨-, hnil⟩
    · obtain ⟨rfl, rfl⟩ := List.cons.inj hcons
      exact .inl ⟨rfl, rfl, hkind⟩
    · nomatch hnil
  | name hname => exact .inr (isIdentifier_cases hname)

/-- No character of a token is a space. -/
theorem Written.isSpace_eq_false (h : Written token span) : ∀ c ∈ span, isSpace c = false := by
  cases h with
  | single hkind => exact List.forall_mem_singleton.mpr (isSpace_of_singleKind? hkind)
  | name hname =>
    obtain ⟨-, -, -, -, hall⟩ := isIdentifier_cases hname
    exact fun c hc => isSpace_of_isAlphanum (hall c hc)

/-- A token is written with either spelling of lambda. -/
theorem Written.respell {other : List Char} (h : Written token span)
    (hother : other.map canonical = span.map canonical) : Written token other := by
  cases h with
  | @single c kind position hkind =>
    obtain ⟨d, rfl, hsame⟩ := List.map_eq_singleton_iff.mp hother
    refine .single ?_
    rw [← apply_canonical singleKind? rfl, hsame, apply_canonical singleKind? rfl, hkind]
  | @name name position hname =>
    obtain ⟨-, -, -, -, hall⟩ := isIdentifier_cases hname
    have hchars := Written.map_canonical (@Written.name name position hname)
    have hkept : ∀ c ∈ other, canonical c = c := by
      intro c hc
      refine canonical_of_isAlphanum ?_
      rw [← apply_canonical Char.isAlphanum rfl]
      refine hall _ ?_
      have hmem := List.mem_map_of_mem (f := canonical) hc
      rwa [hother, hchars] at hmem
    have hself : other.map canonical = other :=
      (List.map_congr_left hkept).trans (List.map_id _)
    have hsame : other = name.toList := hself.symm.trans (hother.trans hchars)
    rw [hsame]
    exact .name hname

end Written

section Lexes

variable {s : Scanner} {start : Nat} {text : List Char} {tokens : List Token}

/-- Skipping spaces cuts them off the rest of the text. -/
theorem exists_skipSpace (s : Scanner) :
    ∃ gap, s.rest = gap ++ s.skipSpace.rest ∧ (∀ c ∈ gap, isSpace c = true) ∧
      s.skipSpace.position = s.position + gap.length := by
  refine ⟨s.rest.takeWhile isSpace, ?_, fun c hc => List.mem_takeWhile_imp hc,
    position_takeWhile s isSpace⟩
  rw [skipSpace, rest_takeWhile, List.takeWhile_append_dropWhile]

/-- A character that is read over as the start of a token is none: behind spaces, it is no space, no
token by itself and no letter. It is reported where it stands, and the scanner stays there. -/
theorem exists_of_next_eq_error {after : Scanner} {problem : Problem}
    (h : s.next = (.error problem, after)) :
    ∃ gap c behind, s.rest = gap ++ c :: behind ∧ (∀ d ∈ gap, isSpace d = true) ∧
      isSpace c = false ∧ singleKind? c = none ∧ c.isAlpha = false ∧
      after.position = s.position + gap.length ∧
      problem = .unexpectedChar (String.singleton c) after.position s.source := by
  obtain ⟨gap, hskip, hgap, hposition⟩ := s.exists_skipSpace
  unfold next at h
  dsimp only at h
  split at h
  · cases h
  · next c behind starts =>
    have hspace : isSpace c = false := by
      have hstop := List.head?_dropWhile_not isSpace s.rest
      rwa [← rest_takeWhile, ← skipSpace, starts] at hstop
    split at h
    · cases h
    · next hsingle =>
      split at h
      · cases h
      · next hletter =>
        obtain ⟨⟨rfl⟩, rfl⟩ := Prod.mk.injEq .. ▸ h
        have hrest : s.rest = gap ++ c :: behind := starts ▸ hskip
        exact ⟨gap, c, behind, hrest, hgap, hspace, hsingle, (Bool.not_eq_true _).mp hletter,
          hposition, rfl⟩

/-- A token that is read stands behind spaces, and the scanner then stands behind the token. -/
theorem written_of_next {after : Scanner} {token : Token} (h : s.next = (.ok token, after))
    (goesOn : token.kind ≠ .endOfInput) :
    ∃ gap span, s.rest = gap ++ (span ++ after.rest) ∧ (∀ c ∈ gap, isSpace c = true) ∧
      token.position = (s.position + gap.length : Nat) ∧ Written token span ∧
      (token.kind = .name → ∀ c ∈ after.rest.head?, c.isAlphanum = false) ∧
      after.position = s.position + gap.length + span.length := by
  obtain ⟨gap, hskip, hgap, hposition⟩ := s.exists_skipSpace
  unfold next at h
  dsimp only at h
  split at h
  · obtain ⟨⟨rfl⟩, -⟩ := Prod.mk.injEq .. ▸ h
    exact absurd rfl goesOn
  · next c rest starts =>
    split at h
    · next kind hkind =>
      obtain ⟨⟨rfl⟩, rfl⟩ := Prod.mk.injEq .. ▸ h
      have hrest : s.skipSpace.rest = [c] ++ (s.skipSpace.forward 1).rest := by
        simp [forward, starts]
      refine ⟨gap, [c], hrest ▸ hskip, hgap, by rw [hposition], .single hkind, ?_, ?_⟩
      · exact fun hname => absurd (hkind.trans (congrArg some hname)) (singleKind?_ne_name c)
      · simp [forward, starts, hposition]
    · split at h
      · next letter =>
        obtain ⟨⟨rfl⟩, rfl⟩ := Prod.mk.injEq .. ▸ h
        have hrest : s.skipSpace.rest =
            s.skipSpace.readName.1.toList ++ s.skipSpace.readName.2.rest := by
          simp only [readName, rest_takeWhile]
          simp [takeWhile]
        refine ⟨gap, _, hrest ▸ hskip, hgap, by rw [hposition],
          .name (isIdentifier_readName starts letter), fun _ => ?_, ?_⟩
        · simp only [readName, rest_takeWhile]
          intro d hd
          have hstop := List.head?_dropWhile_not Char.isAlphanum s.skipSpace.rest
          rwa [hd] at hstop
        · simp only [readName, position_takeWhile, hposition]
          simp [takeWhile]
      · cases h

/-- The end of input is read where only spaces are left. -/
theorem lexes_of_end {after : Scanner} {eof : Token} (h : s.next = (.ok eof, after))
    (hend : eof.kind = .endOfInput) : Lexes s.position s.rest [eof] := by
  obtain ⟨gap, hskip, hgap, hposition⟩ := s.exists_skipSpace
  unfold next at h
  dsimp only at h
  split at h
  · next hnil =>
    obtain ⟨⟨rfl⟩, -⟩ := Prod.mk.injEq .. ▸ h
    rw [hskip, hnil, List.append_nil, hposition]
    exact .ended hgap
  · next c rest starts =>
    split at h
    · next kind hkind =>
      obtain ⟨⟨rfl⟩, -⟩ := Prod.mk.injEq .. ▸ h
      exact absurd (hkind.trans (congrArg some hend)) (singleKind?_ne_endOfInput c)
    · split at h
      · obtain ⟨⟨rfl⟩, -⟩ := Prod.mk.injEq .. ▸ h
        nomatch hend
      · cases h

/-- Tokens that are read before a text that is cut belong to the text that is cut. -/
theorem Scans.lexes {between : Scanner} {row : List Token} (h : Scans s row between)
    (hlast : Lexes between.position between.rest tokens) :
    Lexes s.position s.rest (row ++ tokens) := by
  induction h with
  | nothing s => exact hlast
  | @token s between after token others read goesOn tail ih =>
    obtain ⟨gap, span, hrest, hgap, hplace, hwritten, hstop, hposition⟩ :=
      written_of_next read goesOn
    rw [hrest]
    exact .token hgap hplace hwritten hstop (hposition ▸ ih hlast)

/-- A token that is written behind spaces is the next one. -/
theorem next_of_written {gap span rest : List Char} {token : Token}
    (hrest : s.rest = gap ++ (span ++ rest)) (hgap : ∀ c ∈ gap, isSpace c = true)
    (hplace : token.position = (s.position + gap.length : Nat)) (hwritten : Written token span)
    (hstop : token.kind = .name → ∀ c ∈ rest.head?, c.isAlphanum = false) :
    ∃ after, s.next = (.ok token, after) ∧ after.rest = rest ∧
      after.position = s.position + gap.length + span.length := by
  cases hwritten with
  | single hkind =>
    obtain rfl := hplace
    exact next_of_single hrest hgap hkind
  | name hname =>
    obtain rfl := hplace
    exact next_of_name hrest hgap hname (hstop rfl)

/-- The tokens of a text that is cut are read. -/
theorem Lexes.scans (h : Lexes start text tokens) (hposition : s.position = start)
    (hrest : s.rest = text) :
    ∃ row between eof after, Scans s row between ∧ between.next = (.ok eof, after) ∧
      eof.kind = .endOfInput ∧ tokens = row ++ [eof] := by
  induction h generalizing s with
  | @ended start gap hgap =>
    obtain ⟨after, hread⟩ := next_of_end hrest hgap
    rw [hposition] at hread
    exact ⟨[], s, _, after, .nothing s, hread, rfl, rfl⟩
  | @token start gap span rest token others hgap place written stop _ ih =>
    rw [← hposition] at place ih
    obtain ⟨next, hread, hnext, hplace⟩ := next_of_written hrest hgap place written stop
    obtain ⟨row, between, eof, after, hscans, hlast, hend, rfl⟩ := ih hplace hnext
    exact ⟨token :: row, between, eof, after, .token hread written.kind_ne hscans, hlast, hend, rfl⟩

/-- Tokenizing succeeds exactly if the rest of the text can be cut into spaces and tokens, and gives
these tokens. -/
theorem tokenize_eq_ok_iff_lexes :
    s.tokenize.1 = .ok tokens ↔ Lexes s.position s.rest tokens := by
  constructor
  · intro h
    obtain ⟨row, between, eof, hscans, hlast, hend, rfl⟩ :=
      tokenize_eq_ok_iff.mp (Prod.ext h rfl : s.tokenize = (.ok tokens, s.tokenize.2))
    exact hscans.lexes (lexes_of_end hlast hend)
  · intro h
    obtain ⟨row, between, eof, after, hscans, hlast, hend, rfl⟩ := h.scans rfl rfl
    exact congrArg Prod.fst (tokenize_eq_ok_iff.mpr ⟨row, between, eof, hscans, hlast, hend, rfl⟩)

/-- A text that is cut has one end of input, which comes last and stands at the end of the text. -/
theorem Lexes.exists_row (h : Lexes start text tokens) :
    ∃ row, tokens = row ++ [⟨.endOfInput, none, (start + text.length : Nat)⟩] ∧
      ∀ token ∈ row, token.kind ≠ .endOfInput := by
  induction h with
  | @ended start gap hgap => exact ⟨[], rfl, List.forall_mem_nil _⟩
  | @token start gap span rest token others hgap place written stop _ ih =>
    obtain ⟨row, rfl, hrow⟩ := ih
    refine ⟨token :: row, ?_, List.forall_mem_cons.mpr ⟨written.kind_ne, hrow⟩⟩
    simp only [List.length_append, List.cons_append, Nat.add_assoc]

/-- The end of input stands behind the text. -/
theorem Lexes.eq_endOfInput (h : Lexes start text tokens) {token : Token} (hmem : token ∈ tokens)
    (hend : token.kind = .endOfInput) :
    token = ⟨.endOfInput, none, (start + text.length : Nat)⟩ := by
  obtain ⟨row, rfl, hgoes⟩ := h.exists_row
  rcases List.mem_append.mp hmem with hearlier | hlast
  · exact absurd hend (hgoes token hearlier)
  · exact List.mem_singleton.mp hlast

/-- No token starts before the text. -/
theorem Lexes.le_position (h : Lexes start text tokens) :
    ∀ token ∈ tokens, (start : Int) ≤ token.position := by
  induction h with
  | @ended start gap hgap =>
    refine List.forall_mem_singleton.mpr ?_
    dsimp only
    omega
  | @token start gap span rest token others hgap place written stop _ ih =>
    refine List.forall_mem_cons.mpr ⟨by omega, fun other hother => ?_⟩
    have := ih other hother
    omega

/-- Each token starts before the tokens behind it. -/
theorem Lexes.pairwise (h : Lexes start text tokens) :
    tokens.Pairwise fun first second => first.position < second.position := by
  induction h with
  | ended hgap => exact List.pairwise_singleton _ _
  | @token start gap span rest token others hgap place written stop tail ih =>
    refine List.pairwise_cons.mpr ⟨fun other hother => ?_, ih⟩
    have hlength := List.length_pos_iff.mpr written.span_ne_nil
    have := tail.le_position other hother
    omega

/-- Every token before the end of input stands in the text. -/
theorem Lexes.standsIn (h : Lexes start text tokens) {before : List Char}
    (hbefore : before.length = start) :
    ∀ token ∈ tokens, token.kind ≠ .endOfInput → token.StandsIn (before ++ text) := by
  induction h generalizing before with
  | ended hgap => exact List.forall_mem_singleton.mpr fun goesOn => absurd rfl goesOn
  | @token start gap span rest token others hgap place written stop _ ih =>
    refine List.forall_mem_cons.mpr ⟨fun _ => ?_, fun other hother goesOn => ?_⟩
    · refine ⟨before ++ gap, span, rest, by simp, ?_, written.spelledBy, fun hname => ?_⟩
      · rw [place, List.length_append, hbefore]
      · obtain ⟨name, hvalue, hidentifier⟩ := written.isIdentifier hname
        exact ⟨name, hvalue, hidentifier, stop hname⟩
    · have hlength : (before ++ gap ++ span).length = start + gap.length + span.length := by
        simp only [List.length_append, hbefore]
      have hothers := ih hlength other hother goesOn
      rwa [List.append_assoc, List.append_assoc] at hothers

/-- What no token covers is a space. -/
theorem Lexes.isSpace_of_not_covers (h : Lexes start text tokens) {offset : Nat} {c : Char}
    (hc : text[offset]? = some c) (hcovers : ∀ token ∈ tokens, ¬token.Covers (start + offset)) :
    isSpace c = true := by
  induction h generalizing offset with
  | ended hgap => exact hgap c (List.mem_of_getElem? hc)
  | @token start gap span rest token others hgap place written stop _ ih =>
    obtain ⟨hfirst, hothers⟩ := List.forall_mem_cons.mp hcovers
    have hlength := written.length_eq
    by_cases hin : offset < gap.length
    · rw [List.getElem?_append_left hin] at hc
      exact hgap c (List.mem_of_getElem? hc)
    · have hout : gap.length + span.length ≤ offset := by
        by_contra hspan
        refine hfirst ⟨?_, ?_⟩ <;> omega
      rw [List.getElem?_append_right (by omega), List.getElem?_append_right (by omega)] at hc
      refine ih hc fun other hother => ?_
      have hsame : start + gap.length + span.length + (offset - gap.length - span.length) =
          start + offset := by omega
      rw [hsame]
      exact hothers other hother

/-- The lexemes spell the text without its spaces, with the canonical spelling of lambda. -/
theorem Lexes.flatMap_lexeme (h : Lexes start text tokens) :
    tokens.flatMap (fun token => token.lexeme.toList) =
      (text.filter fun c => !isSpace c).map canonical := by
  have hnone {gap : List Char} (hgap : ∀ c ∈ gap, isSpace c = true) :
      gap.filter (fun c => !isSpace c) = [] :=
    List.filter_eq_nil_iff.mpr fun c hc => by rw [hgap c hc]; decide
  induction h with
  | ended hgap => rw [hnone hgap]; rfl
  | @token start gap span rest token others hgap place written stop _ ih =>
    have hall : span.filter (fun c => !isSpace c) = span :=
      List.filter_eq_self.mpr fun c hc => by rw [written.isSpace_eq_false c hc]; rfl
    rw [List.flatMap_cons, ih, List.filter_append, List.filter_append, hnone hgap, hall,
      List.nil_append, List.map_append, written.map_canonical]

/-- A text with other spellings of lambda is cut in the same way. -/
theorem Lexes.respell {other : List Char} (h : Lexes start text tokens)
    (hother : other.map canonical = text.map canonical) : Lexes start other tokens := by
  have hspaces {gap gap' : List Char} (hgap : ∀ c ∈ gap, isSpace c = true)
      (hsame : gap'.map canonical = gap.map canonical) : ∀ c ∈ gap', isSpace c = true := by
    intro c hc
    have hmem := List.mem_map_of_mem (f := canonical) hc
    rw [hsame] at hmem
    obtain ⟨d, hd, heq⟩ := List.mem_map.mp hmem
    rw [← apply_canonical isSpace rfl, ← heq, apply_canonical isSpace rfl, hgap d hd]
  have hlength {span span' : List Char} (hsame : span'.map canonical = span.map canonical) :
      span.length = span'.length := by
    rw [← List.length_map canonical, ← hsame, List.length_map]
  induction h generalizing other with
  | @ended start gap hgap =>
    rw [hlength hother]
    exact .ended (hspaces hgap hother)
  | @token start gap span rest token others hgap place written stop _ ih =>
    rw [List.map_append, List.map_append] at hother
    obtain ⟨gap', tail', rfl, hgap', htail'⟩ := List.map_eq_append_iff.mp hother
    obtain ⟨span', rest', rfl, hspan', hrest'⟩ := List.map_eq_append_iff.mp htail'
    rw [hlength hgap'] at place ih
    rw [hlength hspan'] at ih
    refine .token (hspaces hgap hgap') place (written.respell hspan') (fun hname c hc => ?_)
      (ih hrest')
    have hhead := congrArg List.head? hrest'
    rw [List.head?_map, List.head?_map, hc] at hhead
    obtain ⟨d, hd, heq⟩ := Option.map_eq_some_iff.mp hhead.symm
    rw [← apply_canonical Char.isAlphanum rfl, ← heq, apply_canonical Char.isAlphanum rfl,
      stop hname d hd]

end Lexes

/-- Trimming does not depend on how a lambda is spelled. -/
theorem trim_map_canonical (text : List Char) :
    Text.trim (text.map canonical) = (Text.trim text).map canonical := by
  have hsame : Text.isBlank ∘ canonical = Text.isBlank :=
    funext fun c => apply_canonical Text.isBlank rfl c
  simp only [Text.trim, Text.trimWhile, Text.dropEndWhile, List.dropWhile_map, ← List.map_reverse,
    hsame]

/-- The tokens of a text lose nothing of it and invent nothing. The end of input comes last and
stands at the end of the trimmed text; every other token is spelled where it stands, behind the
tokens before it, and a name is an identifier that goes as far as it can; and all that is not
covered by a token is a space. Hence the lexemes spell the text without its spaces, and how its
lambdas are spelled makes no difference. -/
theorem tokenize_spans {text : String} {tokens : List Token}
    (h : (Scanner.ofString text).tokenize.1 = .ok tokens) :
    let chars := Text.trim text.toList
    (∃ row, tokens = row ++ [⟨.endOfInput, none, chars.length⟩] ∧
      ∀ token ∈ row, token.kind ≠ .endOfInput ∧ token.StandsIn chars) ∧
    tokens.Pairwise (fun first second => first.position < second.position) ∧
    (∀ (offset : Nat) c, chars[offset]? = some c → (∀ token ∈ tokens, ¬token.Covers offset) →
      c = ' ' ∨ c = '\t' ∨ c = '\r' ∨ c = '\n') ∧
    tokens.flatMap (fun token => token.lexeme.toList) =
      (chars.filter fun c => !isSpace c).map canonical ∧
    ∀ respelled : String, respelled.toList.map canonical = text.toList.map canonical →
      (Scanner.ofString respelled).tokenize.1 = .ok tokens := by
  intro chars
  have hlexes : Lexes 0 chars tokens := tokenize_eq_ok_iff_lexes.mp h
  obtain ⟨row, hrow, hmore⟩ := hlexes.exists_row
  refine ⟨⟨row, ?_, fun token htoken => ⟨hmore token htoken, ?_⟩⟩, hlexes.pairwise,
    fun offset c hc hcovers => ?_, hlexes.flatMap_lexeme, fun respelled hsame => ?_⟩
  · rw [hrow, Nat.zero_add]
  · have hmem : token ∈ tokens := hrow ▸ List.mem_append_left _ htoken
    have hbefore : ([] : List Char).length = 0 := rfl
    exact hlexes.standsIn hbefore token hmem (hmore token htoken)
  · have hspace := hlexes.isSpace_of_not_covers hc fun token htoken => by
      rw [Nat.zero_add]
      exact hcovers token htoken
    simpa [isSpace, or_assoc] using hspace
  · refine tokenize_eq_ok_iff_lexes.mpr (hlexes.respell ?_)
    change (Text.trim respelled.toList).map canonical = chars.map canonical
    rw [← trim_map_canonical, hsame, trim_map_canonical]

/-- A text with both spellings of lambda, a name with a digit, and blanks around and inside it; with
the spellings exchanged, its tokens are the same. -/
theorem tokenize_spans_both_lambdas :
    let tokens : List Token := [⟨.lambda, none, 0⟩, ⟨.name, some "x1", 1⟩, ⟨.dot, none, 3⟩,
      ⟨.opening, none, 4⟩, ⟨.name, some "x1", 5⟩, ⟨.lambda, none, 8⟩, ⟨.closing, none, 9⟩,
      ⟨.endOfInput, none, 10⟩]
    (Scanner.ofString " \\x1.(x1\tλ)\n").tokenize.1 = .ok tokens ∧
      tokens.Pairwise (fun first second => first.position < second.position) ∧
      (Scanner.ofString " λx1.(x1\t\\)\n").tokenize.1 = .ok tokens := by
  intro tokens
  have htokens : (Scanner.ofString " \\x1.(x1\tλ)\n").tokenize.1 = .ok tokens := by decide +kernel
  have hspans := tokenize_spans htokens
  exact ⟨htokens, hspans.2.1, hspans.2.2.2.2 _ (by decide +kernel)⟩

end Scanner

end UntypedLambda
