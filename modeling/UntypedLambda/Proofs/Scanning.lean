import Mathlib.Data.List.TakeWhile
import UntypedLambda.Token.Scanner

/-!
# What a scanner reads

A scanner that stands before some spaces and a token reads the token and then stands behind it; a
name has to be followed by another kind of character, as it is read as far as it goes. Reading
tokens one after the other up to the end of input is what tokenizing does, and the names among the
tokens are identifiers.
-/

namespace UntypedLambda

/-- Whether a text is an ASCII letter followed by ASCII letters and digits. -/
def isIdentifier (text : String) : Bool :=
  match text.toList with
  | [] => false
  | first :: others => first.isAlpha && others.all Char.isAlphanum

/-- A letter is a letter or digit. -/
theorem isAlphanum_of_isAlpha {c : Char} (h : c.isAlpha = true) : c.isAlphanum = true := by
  rw [Char.isAlphanum, h, Bool.true_or]

/-- An identifier starts with a letter. -/
theorem isIdentifier_cases {text : String} (h : isIdentifier text = true) :
    ∃ first others, text.toList = first :: others ∧ first.isAlpha = true ∧
      ∀ c ∈ text.toList, c.isAlphanum = true := by
  unfold isIdentifier at h
  split at h
  · cases h
  · next first others hchars =>
    rw [Bool.and_eq_true, List.all_eq_true] at h
    refine ⟨first, others, hchars, h.1, fun c hc => ?_⟩
    rw [hchars] at hc
    rcases List.mem_cons.mp hc with rfl | hc
    · exact isAlphanum_of_isAlpha h.1
    · exact h.2 c hc

namespace Scanner

variable {s : Scanner} {rest : List Char}

/-- A scanner starts with the trimmed text. -/
theorem rest_ofString (text : String) : (ofString text).rest = Text.trim text.toList := rfl

/-- A run of a class in front of another character is the longest one. -/
theorem takeWhile_run {p : Char → Bool} {run : List Char} (hrun : ∀ c ∈ run, p c = true)
    (hstop : ∀ c ∈ rest.head?, p c = false) : (run ++ rest).takeWhile p = run := by
  rw [List.takeWhile_append_of_pos hrun]
  cases rest with
  | nil => simp
  | cons c rest => simp [hstop c rfl]

/-- Behind a run of a class, another character stops dropping. -/
theorem dropWhile_run {p : Char → Bool} {run : List Char} (hrun : ∀ c ∈ run, p c = true)
    (hstop : ∀ c ∈ rest.head?, p c = false) : (run ++ rest).dropWhile p = rest := by
  rw [List.dropWhile_append_of_pos hrun]
  cases rest with
  | nil => rfl
  | cons c rest => simp [hstop c rfl]

/-- Behind the longest run of a class, the characters after it are left. -/
theorem rest_takeWhile (s : Scanner) (p : Char → Bool) :
    (s.takeWhile p).2.rest = s.rest.dropWhile p := by
  calc (s.takeWhile p).2.rest
      = (s.rest.takeWhile p ++ s.rest.dropWhile p).drop (s.rest.takeWhile p).length := by
        rw [List.takeWhile_append_dropWhile]
        rfl
    _ = s.rest.dropWhile p := List.drop_left

/-- Reading the longest run of a class moves over it. -/
theorem position_takeWhile (s : Scanner) (p : Char → Bool) :
    (s.takeWhile p).2.position = s.position + (s.rest.takeWhile p).length := by
  have hlength := (List.takeWhile_prefix (l := s.rest) p).length_le
  simp only [takeWhile, forward, List.length_take]
  omega

/-- No letter or digit is a space between tokens. -/
theorem isSpace_of_isAlphanum {c : Char} (h : c.isAlphanum = true) : isSpace c = false := by
  by_contra hspace
  simp only [isSpace, Bool.not_eq_false, Bool.or_eq_true, decide_eq_true_eq] at hspace
  rcases hspace with ((rfl | rfl) | rfl) | rfl <;> cases h

/-- Every space between tokens is a blank. -/
theorem isBlank_of_isSpace {c : Char} (h : isSpace c = true) : Text.isBlank c = true := by
  simp only [isSpace, Bool.or_eq_true, decide_eq_true_eq] at h
  rcases h with ((rfl | rfl) | rfl) | rfl <;> decide

/-- The character of a token is one of five. -/
theorem singleKind?_cases {c : Char} {kind : TokenKind} (h : singleKind? c = some kind) :
    c = '\\' ∨ c = 'λ' ∨ c = '.' ∨ c = '(' ∨ c = ')' := by
  unfold singleKind? at h
  split at h
  · next hlambda => exact hlambda.elim .inl fun hgreek => .inr (.inl hgreek)
  split at h
  · next hdot => exact .inr (.inr (.inl hdot))
  split at h
  · next hopening => exact .inr (.inr (.inr (.inl hopening)))
  split at h
  · next hclosing => exact .inr (.inr (.inr (.inr hclosing)))
  · cases h

/-- The character of a token is no space. -/
theorem isSpace_of_singleKind? {c : Char} {kind : TokenKind} (h : singleKind? c = some kind) :
    isSpace c = false := by
  rcases singleKind?_cases h with rfl | rfl | rfl | rfl | rfl <;> decide

/-- A letter is no token by itself. -/
theorem singleKind?_of_isAlpha {c : Char} (h : c.isAlpha = true) : singleKind? c = none := by
  cases hkind : singleKind? c with
  | none => rfl
  | some kind => rcases singleKind?_cases hkind with rfl | rfl | rfl | rfl | rfl <;> cases h

/-- No name is a single character token. -/
theorem singleKind?_ne_name (c : Char) : singleKind? c ≠ some .name := by
  unfold singleKind?
  repeat' split
  all_goals simp

/-- Skipping spaces stops in front of the first character that is none. -/
theorem rest_skipSpace {gap : List Char} (hrest : s.rest = gap ++ rest)
    (hgap : ∀ c ∈ gap, isSpace c = true)
    (hstop : ∀ c ∈ rest.head?, isSpace c = false) : s.skipSpace.rest = rest := by
  unfold skipSpace
  rw [rest_takeWhile, hrest, dropWhile_run hgap hstop]

/-- Skipping spaces moves over them. -/
theorem position_skipSpace {gap : List Char} (hrest : s.rest = gap ++ rest)
    (hgap : ∀ c ∈ gap, isSpace c = true)
    (hstop : ∀ c ∈ rest.head?, isSpace c = false) :
    s.skipSpace.position = s.position + gap.length := by
  unfold skipSpace
  rw [position_takeWhile, hrest, takeWhile_run hgap hstop]

/-- Behind spaces, the next token is the one of a single character. -/
theorem next_of_single {gap : List Char} {c : Char} {kind : TokenKind}
    (hrest : s.rest = gap ++ c :: rest) (hgap : ∀ d ∈ gap, isSpace d = true)
    (hkind : singleKind? c = some kind) :
    ∃ after, s.next = (.ok ⟨kind, none, (s.position + gap.length : Nat)⟩, after) ∧
      after.rest = rest ∧ after.position = s.position + gap.length + 1 := by
  have hstop : ∀ d ∈ (c :: rest).head?, isSpace d = false := by
    intro d hd
    obtain rfl := Option.some.inj hd
    exact isSpace_of_singleKind? hkind
  have hskip := rest_skipSpace hrest hgap hstop
  have hposition := position_skipSpace hrest hgap hstop
  refine ⟨s.skipSpace.forward 1, ?_, ?_, ?_⟩
  · simp only [next, hskip, hkind, hposition]
  · simp only [forward, hskip, List.drop_succ_cons, List.drop_zero]
  · simp [forward, hskip, hposition]

/-- Behind spaces, the next token is the identifier up to a character that cannot continue it. -/
theorem next_of_name {gap : List Char} {name : String}
    (hrest : s.rest = gap ++ (name.toList ++ rest)) (hgap : ∀ c ∈ gap, isSpace c = true)
    (hname : isIdentifier name = true) (hstop : ∀ c ∈ rest.head?, c.isAlphanum = false) :
    ∃ after, s.next = (.ok ⟨.name, some name, (s.position + gap.length : Nat)⟩, after) ∧
      after.rest = rest ∧ after.position = s.position + gap.length + name.toList.length := by
  obtain ⟨first, others, hchars, hletter, hall⟩ := isIdentifier_cases hname
  have hfirst : ∀ c ∈ (name.toList ++ rest).head?, isSpace c = false := by
    intro c hc
    rw [hchars] at hc
    obtain rfl := Option.some.inj hc
    exact isSpace_of_isAlphanum (isAlphanum_of_isAlpha hletter)
  have hskip := rest_skipSpace hrest hgap hfirst
  have hposition := position_skipSpace hrest hgap hfirst
  have hcons : s.skipSpace.rest = first :: (others ++ rest) := by
    rw [hskip, hchars, List.cons_append]
  have hvalue : s.skipSpace.readName.1 = name := by
    simp only [readName, takeWhile, hskip, takeWhile_run hall hstop, String.ofList_toList]
  refine ⟨s.skipSpace.readName.2, ?_, ?_, ?_⟩
  · unfold next
    dsimp only
    split
    · next hnil => rw [hcons] at hnil; cases hnil
    · next c _ hc =>
      rw [hcons] at hc
      obtain ⟨rfl, -⟩ := List.cons.inj hc
      rw [singleKind?_of_isAlpha hletter]
      dsimp only
      rw [if_pos hletter, hvalue, hposition]
  · change (s.skipSpace.takeWhile Char.isAlphanum).2.rest = rest
    rw [rest_takeWhile, hskip, dropWhile_run hall hstop]
  · change (s.skipSpace.takeWhile Char.isAlphanum).2.position = _
    rw [position_takeWhile, hskip, takeWhile_run hall hstop, hposition]

/-- Behind spaces at the end of the text, the next token is the end of input. -/
theorem next_of_end {gap : List Char} (hrest : s.rest = gap)
    (hgap : ∀ c ∈ gap, isSpace c = true) :
    ∃ after, s.next = (.ok ⟨.endOfInput, none, (s.position + gap.length : Nat)⟩, after) := by
  have hnil : s.rest = gap ++ [] := by rw [hrest, List.append_nil]
  have hskip := rest_skipSpace hnil hgap nofun
  have hposition := position_skipSpace hnil hgap nofun
  refine ⟨s.skipSpace, ?_⟩
  simp only [next, hskip, hposition]

/-- Reading a token stays in the text. -/
theorem text_next (s : Scanner) : s.next.2.text = s.text := by
  unfold next
  dsimp only
  split
  · rfl
  · split
    · rfl
    · split <;> rfl

/-- A scanner reads some tokens, none of which is the end of input, up to another place. -/
inductive Scans : Scanner → List Token → Scanner → Prop where
  /-- Nothing is read. -/
  | nothing (s : Scanner) : Scans s [] s
  /-- A token is read, and then others. -/
  | token {s between after : Scanner} {token : Token} {others : List Token}
      (read : s.next = (.ok token, between)) (goesOn : token.kind ≠ .endOfInput)
      (tail : Scans between others after) : Scans s (token :: others) after

/-- Tokens are read one row after the other. -/
theorem Scans.append {s between after : Scanner} {first second : List Token}
    (h : Scans s first between) (h' : Scans between second after) :
    Scans s (first ++ second) after := by
  induction h with
  | nothing s => exact h'
  | token read goesOn _ ih => exact .token read goesOn (ih h')

/-- One token is read. -/
theorem Scans.single {s after : Scanner} {token : Token} (read : s.next = (.ok token, after))
    (goesOn : token.kind ≠ .endOfInput) : Scans s [token] after :=
  .token read goesOn (.nothing after)

/-- Behind spaces, a token of one character is read. -/
theorem scans_single (gap : List Char) {c : Char} {kind : TokenKind}
    (hrest : s.rest = gap ++ c :: rest) (hgap : ∀ d ∈ gap, isSpace d = true)
    (hkind : singleKind? c = some kind) :
    ∃ token after, s.Scans [token] after ∧ token.kind = kind ∧ after.rest = rest := by
  obtain ⟨after, hread, hafter, -⟩ := next_of_single hrest hgap hkind
  have goesOn : kind ≠ .endOfInput := fun h => singleKind?_ne_endOfInput c (h ▸ hkind)
  exact ⟨_, after, .single hread goesOn, rfl, hafter⟩

/-- Behind spaces, an identifier is read up to a character that cannot continue it. -/
theorem scans_name (gap : List Char) {name : String}
    (hrest : s.rest = gap ++ (name.toList ++ rest)) (hgap : ∀ c ∈ gap, isSpace c = true)
    (hname : isIdentifier name = true)
    (hstop : ∀ c ∈ rest.head?, c.isAlphanum = false) :
    ∃ token after, s.Scans [token] after ∧ token.kind = .name ∧ token.value = some name ∧
      after.rest = rest := by
  obtain ⟨after, hread, hafter, -⟩ := next_of_name hrest hgap hname hstop
  have goesOn : TokenKind.name ≠ .endOfInput := nofun
  exact ⟨_, after, .single hread goesOn, rfl, rfl, hafter⟩

/-- At the end of the text, the end of input is read. -/
theorem next_end (hrest : s.rest = []) :
    ∃ token after, s.next = (.ok token, after) ∧ token.kind = .endOfInput := by
  obtain ⟨after, hread⟩ := next_of_end hrest (List.forall_mem_nil _)
  exact ⟨_, after, hread, rfl⟩

/-- What is read of a name that starts with a letter is an identifier. -/
theorem isIdentifier_readName {c : Char} (starts : s.rest = c :: rest) (letter : c.isAlpha = true) :
    isIdentifier s.readName.1 = true := by
  have hrun : s.rest.takeWhile Char.isAlphanum = c :: rest.takeWhile Char.isAlphanum := by
    rw [starts, List.takeWhile_cons, isAlphanum_of_isAlpha letter, if_pos rfl]
  have hothers : (rest.takeWhile Char.isAlphanum).all Char.isAlphanum = true :=
    List.all_eq_true.mpr fun d hd => List.mem_takeWhile_imp hd
  simp only [isIdentifier, readName, takeWhile, String.toList_ofList, hrun, letter, hothers,
    Bool.and_self]

/-- A name that is read is an identifier. -/
theorem isIdentifier_of_next {after : Scanner} {token : Token} (h : s.next = (.ok token, after))
    (isName : token.kind = .name) :
    ∃ name, token.value = some name ∧ isIdentifier name = true := by
  unfold next at h
  dsimp only at h
  split at h
  · obtain ⟨⟨rfl⟩, -⟩ := Prod.mk.injEq .. ▸ h
    cases isName
  · next c rest starts =>
    split at h
    · next kind hkind =>
      obtain ⟨⟨rfl⟩, -⟩ := Prod.mk.injEq .. ▸ h
      exact absurd (isName ▸ hkind) (singleKind?_ne_name c)
    · split at h
      · next letter =>
        obtain ⟨⟨rfl⟩, -⟩ := Prod.mk.injEq .. ▸ h
        exact ⟨_, rfl, isIdentifier_readName starts letter⟩
      · cases h

/-- The end of input is not among the tokens that are read before it. -/
theorem Scans.kind_ne {s after : Scanner} {tokens : List Token} (h : Scans s tokens after) :
    ∀ token ∈ tokens, token.kind ≠ .endOfInput := by
  induction h with
  | nothing s => nofun
  | token _ goesOn _ ih => exact List.forall_mem_cons.mpr ⟨goesOn, ih⟩

/-- The names that are read are identifiers. -/
theorem Scans.isIdentifier {s after : Scanner} {tokens : List Token} (h : Scans s tokens after) :
    ∀ token ∈ tokens, token.kind = .name →
      ∃ name, token.value = some name ∧ isIdentifier name = true := by
  induction h with
  | nothing s => nofun
  | token read _ _ ih => exact List.forall_mem_cons.mpr ⟨isIdentifier_of_next read, ih⟩

/-- Reading a token that is not the last one leaves the others. -/
theorem tokenizeOnto_of_next {after : Scanner} {token : Token} (read : List Token)
    (h : s.next = (.ok token, after)) (goesOn : token.kind ≠ .endOfInput) :
    tokenizeOnto read s = tokenizeOnto (token :: read) after := by
  rw [tokenizeOnto]
  split <;> simp_all

/-- Reading the end of input ends a row. -/
theorem tokenizeOnto_of_end {after : Scanner} {token : Token} (read : List Token)
    (h : s.next = (.ok token, after)) (ended : token.kind = .endOfInput) :
    tokenizeOnto read s = (.ok (token :: read).reverse, after) := by
  rw [tokenizeOnto]
  split <;> simp_all

/-- A character that starts no token ends the reading. -/
theorem tokenizeOnto_of_error {after : Scanner} {problem : Problem} (read : List Token)
    (h : s.next = (.error problem, after)) : tokenizeOnto read s = (.error problem, after) := by
  rw [tokenizeOnto]
  split <;> simp_all

/-- Tokenizing reads tokens up to the end of input. -/
theorem tokenizeOnto_of_scans {after : Scanner} {tokens : List Token} (h : Scans s tokens after)
    (read : List Token) : tokenizeOnto read s = tokenizeOnto (tokens.reverse ++ read) after := by
  induction h generalizing read with
  | nothing s => rfl
  | token hread goesOn _ ih => rw [tokenizeOnto_of_next read hread goesOn, ih]; simp

/-- What tokenizing gives was read up to the end of input. -/
theorem scans_of_tokenizeOnto {read row : List Token} {after : Scanner}
    (h : tokenizeOnto read s = (.ok row, after)) :
    ∃ tokens between eof, Scans s tokens between ∧ between.next = (.ok eof, after) ∧
      eof.kind = .endOfInput ∧ row = read.reverse ++ (tokens ++ [eof]) := by
  induction hlength : s.rest.length using Nat.strongRecOn generalizing s read with
  | _ length ih =>
    subst hlength
    cases hnext : s.next with
    | mk outcome between =>
      cases outcome with
      | error problem =>
        rw [tokenizeOnto_of_error read hnext] at h
        nomatch h
      | ok token =>
        by_cases ended : token.kind = .endOfInput
        · rw [tokenizeOnto_of_end read hnext ended] at h
          obtain ⟨⟨rfl⟩, rfl⟩ := Prod.mk.injEq .. ▸ h
          exact ⟨[], s, token, .nothing s, hnext, ended, by simp⟩
        · rw [tokenizeOnto_of_next read hnext ended] at h
          have hless := length_rest_next_lt hnext ended
          obtain ⟨tokens, last, eof, hscans, hlast, heof, rfl⟩ := ih _ hless h rfl
          exact ⟨token :: tokens, last, eof, .token hnext ended hscans, hlast, heof, by simp⟩

/-- Tokenizing succeeds exactly if tokens can be read up to the end of input, and gives them. -/
theorem tokenize_eq_ok_iff {row : List Token} {after : Scanner} :
    s.tokenize = (.ok row, after) ↔
      ∃ tokens between eof, Scans s tokens between ∧ between.next = (.ok eof, after) ∧
        eof.kind = .endOfInput ∧ row = tokens ++ [eof] := by
  constructor
  · exact scans_of_tokenizeOnto
  · rintro ⟨tokens, between, eof, hscans, hlast, heof, rfl⟩
    unfold tokenize
    rw [tokenizeOnto_of_scans hscans, tokenizeOnto_of_end _ hlast heof]
    simp

end Scanner

end UntypedLambda
