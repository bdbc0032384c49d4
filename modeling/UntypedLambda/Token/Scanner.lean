import UntypedLambda.Problem
import UntypedLambda.Text.Blank

/-!
# Scanning tokens

A scanner reads tokens off a trimmed text, from left to right. A lambda is written as a backslash
or as the Greek letter. A name is an ASCII letter followed by ASCII letters and digits, as many as
there are. Spaces, tabs and line ends separate tokens. Any other character is a problem, and the
scanner stays where it is.
-/

namespace UntypedLambda

/-- A place in a trimmed text. -/
structure Scanner where
  /-- The trimmed text. -/
  text : List Char
  /-- How many characters have been read. -/
  position : Nat
  /-- The characters that have not been read. -/
  rest : List Char
  /-- The characters up to the position have been read. -/
  rest_eq : rest = text.drop position
  /-- The position is in the text or at its end. -/
  position_le : position ≤ text.length

namespace Scanner

/-- The characters between tokens. -/
def isSpace (c : Char) : Bool := c = ' ' || c = '\t' || c = '\r' || c = '\n'

/-- The start of a text, trimmed. -/
def ofString (text : String) : Scanner :=
  ⟨Text.trim text.toList, 0, Text.trim text.toList, rfl, Nat.zero_le _⟩

/-- The trimmed text as a string. -/
def source (s : Scanner) : String := String.ofList s.text

/-- Reads some characters, or as many as there are. -/
def forward (s : Scanner) (count : Nat) : Scanner where
  text := s.text
  position := s.position + (s.rest.take count).length
  rest := s.rest.drop count
  rest_eq := by
    rw [← List.drop_drop, ← s.rest_eq, List.length_take]
    by_cases h : count ≤ s.rest.length
    · rw [Nat.min_eq_left h]
    · rw [Nat.min_eq_right (by omega), List.drop_length, List.drop_eq_nil_of_le (by omega)]
  position_le := by
    have unread : s.rest.length = s.text.length - s.position := by
      rw [s.rest_eq, List.length_drop]
    have := s.position_le
    rw [List.length_take]
    omega

/-- Whether everything has been read. -/
def atEnd (s : Scanner) : Bool := s.rest.isEmpty

/-- The next character, if there is one. -/
def peek (s : Scanner) : Option Char := s.rest.head?

/-- Reads one character, if there is one. -/
def advance (s : Scanner) : Option Char × Scanner := (s.peek, s.forward 1)

/-- Reads the longest run of characters of a class. -/
def takeWhile (s : Scanner) (p : Char → Bool) : List Char × Scanner :=
  let run := s.rest.takeWhile p
  (run, s.forward run.length)

/-- Reads the spaces up to the next token. -/
def skipSpace (s : Scanner) : Scanner := (s.takeWhile isSpace).2

/-- Reads the letters and digits up to the end of a name. -/
def readName (s : Scanner) : String × Scanner :=
  let (run, s) := s.takeWhile Char.isAlphanum
  (String.ofList run, s)

/-- The kind of a token that is a single character. -/
def singleKind? (c : Char) : Option TokenKind :=
  if c = '\\' ∨ c = 'λ' then some .lambda
  else if c = '.' then some .dot
  else if c = '(' then some .opening
  else if c = ')' then some .closing
  else none

/-- Reads the next token. The last token of a text is the end of input. -/
def next (s : Scanner) : Except Problem Token × Scanner :=
  let s := s.skipSpace
  match s.rest with
  | [] => (.ok ⟨.endOfInput, none, s.position⟩, s)
  | c :: _ =>
    match singleKind? c with
    | some kind => (.ok ⟨kind, none, s.position⟩, s.forward 1)
    | none =>
      if c.isAlpha then
        let (name, after) := s.readName
        (.ok ⟨.name, some name, s.position⟩, after)
      else (.error (.unexpectedChar (String.singleton c) s.position s.source), s)

/-- Reading on leaves a rest that is shorter by what was read. -/
theorem length_rest_forward (s : Scanner) (count : Nat) :
    (s.forward count).rest.length = s.rest.length - count := by
  simp [forward]

/-- Skipping spaces lengthens nothing. -/
theorem length_rest_skipSpace_le (s : Scanner) : s.skipSpace.rest.length ≤ s.rest.length := by
  simp only [skipSpace, takeWhile, length_rest_forward]
  omega

/-- No single character token is the end of input. -/
theorem singleKind?_ne_endOfInput (c : Char) : singleKind? c ≠ some .endOfInput := by
  unfold singleKind?
  repeat' split
  all_goals simp

/-- A name that starts with a letter is not empty. -/
theorem length_rest_readName_lt {s : Scanner} {c : Char} {rest : List Char}
    (starts : s.rest = c :: rest) (letter : c.isAlpha = true) :
    s.readName.2.rest.length < s.rest.length := by
  have alphanum : c.isAlphanum = true := by simp [Char.isAlphanum, letter]
  simp only [readName, takeWhile, length_rest_forward, starts, List.takeWhile_cons, alphanum,
    if_true, List.length_cons]
  omega

/-- A token other than the end of input takes at least one character. -/
theorem length_rest_next_lt {s after : Scanner} {token : Token}
    (read : s.next = (.ok token, after)) (more : token.kind ≠ .endOfInput) :
    after.rest.length < s.rest.length := by
  have skipped := length_rest_skipSpace_le s
  unfold next at read
  dsimp only at read
  split at read
  · obtain ⟨⟨rfl⟩, -⟩ := Prod.mk.injEq .. ▸ read
    exact absurd rfl more
  · next c rest starts =>
    have : 0 < s.skipSpace.rest.length := by simp [starts]
    split at read
    · obtain ⟨-, rfl⟩ := Prod.mk.injEq .. ▸ read
      rw [length_rest_forward]
      omega
    · split at read
      · next letter =>
        obtain ⟨-, rfl⟩ := Prod.mk.injEq .. ▸ read
        exact Nat.lt_of_lt_of_le (length_rest_readName_lt starts letter) skipped
      · cases read

/-- Reads all tokens up to and with the end of input, behind those read already. -/
def tokenizeOnto (read : List Token) (s : Scanner) : Except Problem (List Token) × Scanner :=
  match _step : s.next with
  | (.error problem, after) => (.error problem, after)
  | (.ok token, after) =>
    if _more : token.kind = .endOfInput then (.ok (token :: read).reverse, after)
    else tokenizeOnto (token :: read) after
termination_by s.rest.length
decreasing_by exact length_rest_next_lt _step _more

/-- Reads all tokens up to and with the end of input. -/
def tokenize (s : Scanner) : Except Problem (List Token) × Scanner := tokenizeOnto [] s

end Scanner

end UntypedLambda
