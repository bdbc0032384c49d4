import Mathlib.Order.Bounds.Basic
import UntypedLambda.Proofs.Misplaced

/-!
# A scanner under any calls

Whoever holds a scanner may call its operations in any order, also in the middle of a token and
after a problem was reported. No operation leaves the text or goes back in it, so every place that
is reached can be told from the text alone. From each of them a call for the next token has one of
three endings, and it goes on unless only spaces are left or a problem is reported; so tokenizing
ends, and it comes to what calls for the next token one after the other come to.
-/

namespace UntypedLambda.Scanner

/-- What can be asked of a scanner. -/
inductive Call where
  /-- To show the next character. -/
  | peek
  /-- To read one character. -/
  | advance
  /-- To read the spaces up to the next token. -/
  | skipSpace
  /-- To read letters and digits. -/
  | readName
  /-- To tell whether everything has been read. -/
  | atEnd
  /-- To read the next token. -/
  | next
  /-- To read all tokens. -/
  | tokenize

/-- The scanner after a call. -/
def Call.after (s : Scanner) : Call → Scanner
  | peek => s
  | advance => s.advance.2
  | skipSpace => s.skipSpace
  | readName => s.readName.2
  | atEnd => s
  | next => s.next.2
  | tokenize => s.tokenize.2

/-- The outcomes of calls for the next token, so many in a row, and the scanner after them. -/
def nexts : Nat → Scanner → List (Except Problem Token) × Scanner
  | 0, s => ([], s)
  | count + 1, s =>
    let (outcomes, after) := nexts count s.next.2
    (s.next.1 :: outcomes, after)

/-- Whether a scanner has come from another one: in the same text, and no further back. -/
structure Onward (s after : Scanner) : Prop where
  /-- The text is the same. -/
  text_eq : after.text = s.text
  /-- Nothing is unread again. -/
  position_le : s.position ≤ after.position

/-- The offset of the first character that has not been read and is no space. -/
def StartsAt (s : Scanner) (offset : Nat) : Prop :=
  IsLeast {place | s.position ≤ place ∧ ∃ c ∈ s.text[place]?, isSpace c = false} offset

/-- What a call for the next token can come to. -/
inductive Yields (s : Scanner) : Except Problem Token → Scanner → Prop where
  /-- Only spaces are left: the scanner goes to the end of the text and says that it is there. -/
  | ended {after : Scanner} (hspaces : ∀ c ∈ s.rest, isSpace c = true)
      (hend : after.position = s.text.length) :
      Yields s (.ok ⟨.endOfInput, none, s.text.length⟩) after
  /-- A token starts at the first character that is no space, and the scanner goes on. -/
  | token {token : Token} {after : Scanner} {offset : Nat} (hstart : s.StartsAt offset)
      (hkind : token.kind ≠ .endOfInput) (hplace : token.position = offset)
      (hgoes : s.position < after.position) : Yields s (.ok token) after
  /-- The first character that is no space starts no token. It is reported, the scanner stays in
  front of it, and it is reported by every further call. -/
  | refused {problem : Problem} {after : Scanner} {offset : Nat} {c : Char}
      (hstart : s.StartsAt offset) (hchar : s.text[offset]? = some c)
      (hnone : singleKind? c = none ∧ c.isAlpha = false)
      (hproblem : problem = .unexpectedChar (String.singleton c) offset s.source)
      (hstays : after.position = offset)
      (hagain : ∀ count, after.nexts count = (List.replicate count (.error problem), after)) :
      Yields s (.error problem) after

variable {s between after : Scanner} {row : List Token}

section Onward

/-- A scanner has come from itself. -/
theorem Onward.refl (s : Scanner) : Onward s s := ⟨rfl, Nat.le_refl _⟩

/-- What has come from a scanner that has come from another one has come from that one. -/
theorem Onward.trans (h : Onward s between) (h' : Onward between after) : Onward s after :=
  ⟨h'.text_eq.trans h.text_eq, Nat.le_trans h.position_le h'.position_le⟩

/-- Reading characters goes on. -/
theorem onward_forward (s : Scanner) (count : Nat) : Onward s (s.forward count) :=
  ⟨rfl, Nat.le_add_right _ _⟩

/-- Reading the next token goes on. -/
theorem onward_next (s : Scanner) : Onward s s.next.2 := by
  have hskip : Onward s s.skipSpace := onward_forward s _
  unfold next
  dsimp only
  split
  · exact hskip
  · split
    · exact hskip.trans (onward_forward _ 1)
    · split
      · exact hskip.trans (onward_forward _ _)
      · exact hskip

/-- Reading tokens goes on. -/
theorem Scans.onward (h : Scans s row between) : Onward s between := by
  induction h with
  | nothing s => exact .refl s
  | @token s between after token others read _ _ ih =>
    have hnext := s.onward_next
    rw [read] at hnext
    exact hnext.trans ih

/-- Tokenizing goes on, also where it ends with a problem. -/
theorem onward_tokenize (s : Scanner) : Onward s s.tokenize.2 := by
  obtain ⟨row, between, hscans, hend⟩ := s.exists_scans
  have hnext : s.tokenize.2 = between.next.2 := by
    rcases hend with ⟨eof, after, hnext, -, htokenize⟩ | ⟨problem, after, hnext, htokenize⟩ <;>
      rw [hnext, htokenize]
  exact hnext ▸ hscans.onward.trans between.onward_next

/-- Every call goes on. -/
theorem Call.onward (s : Scanner) (call : Call) : Onward s (Call.after s call) := by
  cases call with
  | peek => exact .refl s
  | advance => exact onward_forward s 1
  | skipSpace => exact onward_forward s _
  | readName => exact onward_forward s _
  | atEnd => exact .refl s
  | next => exact onward_next s
  | tokenize => exact onward_tokenize s

/-- Calls one after the other go on. -/
theorem onward_calls (s : Scanner) (calls : List Call) : Onward s (calls.foldl Call.after s) := by
  induction calls generalizing s with
  | nil => exact .refl s
  | cons call rest ih => exact (Call.onward s call).trans (ih _)

end Onward

section Next

/-- The place in a text is all there is to a scanner. -/
theorem eq_of_position (htext : s.text = after.text) (hposition : s.position = after.position) :
    s = after := by
  obtain ⟨text, position, rest, hrest, hle⟩ := s
  obtain ⟨text', position', rest', hrest', hle'⟩ := after
  obtain rfl : text = text' := htext
  obtain rfl : position = position' := hposition
  obtain rfl : rest = rest' := hrest.trans hrest'.symm
  rfl

/-- The characters that have not been read are those of the text from the position on. -/
theorem length_rest (s : Scanner) : s.rest.length = s.text.length - s.position := by
  rw [s.rest_eq, List.length_drop]

/-- Behind spaces, the first character that is none is the one that a token starts at. -/
theorem startsAt_of_rest {gap behind : List Char} {c : Char} (hrest : s.rest = gap ++ c :: behind)
    (hgap : ∀ d ∈ gap, isSpace d = true) (hc : isSpace c = false) :
    s.StartsAt (s.position + gap.length) ∧ s.text[s.position + gap.length]? = some c := by
  have hplace (count : Nat) : s.text[s.position + count]? = (gap ++ c :: behind)[count]? := by
    rw [← hrest, s.rest_eq, List.getElem?_drop]
  have hchar : s.text[s.position + gap.length]? = some c := by
    rw [hplace, List.getElem?_append_right (Nat.le_refl _), Nat.sub_self, List.getElem?_cons_zero]
  refine ⟨⟨⟨Nat.le_add_right _ _, c, hchar, hc⟩, ?_⟩, hchar⟩
  rintro place ⟨hle, d, hd, hnone⟩
  by_contra hless
  obtain ⟨count, rfl⟩ := Nat.exists_eq_add_of_le hle
  rw [hplace, List.getElem?_append_left (by omega)] at hd
  rw [hgap d (List.mem_of_getElem? hd)] at hnone
  nomatch hnone

/-- Where the end of input is read, the scanner stands behind spaces at the end of the text. -/
theorem yields_end {eof : Token} (h : s.next = (.ok eof, after)) (hend : eof.kind = .endOfInput) :
    s.Yields (.ok eof) after := by
  obtain ⟨gap, hskip, hgap, hposition⟩ := s.exists_skipSpace
  unfold next at h
  dsimp only at h
  split at h
  · next hnil =>
    obtain ⟨⟨rfl⟩, rfl⟩ := Prod.mk.injEq .. ▸ h
    have hrest : s.rest = gap := by rw [hskip, hnil, List.append_nil]
    have hplace : s.skipSpace.position = s.text.length := by
      have hlength := s.length_rest
      have hle := s.position_le
      rw [hrest] at hlength
      omega
    rw [hplace]
    exact .ended (hrest ▸ hgap) hplace
  · next c rest starts =>
    split at h
    · next kind hkind =>
      obtain ⟨⟨rfl⟩, -⟩ := Prod.mk.injEq .. ▸ h
      exact absurd (hkind.trans (congrArg some hend)) (singleKind?_ne_endOfInput c)
    · split at h
      · obtain ⟨⟨rfl⟩, -⟩ := Prod.mk.injEq .. ▸ h
        nomatch hend
      · cases h

/-- A token that is read starts at the first character that is no space. -/
theorem yields_token {token : Token} (h : s.next = (.ok token, after))
    (hgoes : token.kind ≠ .endOfInput) : s.Yields (.ok token) after := by
  obtain ⟨gap, span, hrest, hgap, hplace, hwritten, -, hposition⟩ := written_of_next h hgoes
  obtain ⟨c, others, rfl⟩ := List.exists_cons_of_ne_nil hwritten.span_ne_nil
  have hspace : isSpace c = false := hwritten.isSpace_eq_false c List.mem_cons_self
  have hpast : s.position < after.position := by
    rw [hposition, List.length_cons]
    omega
  exact .token (startsAt_of_rest hrest hgap hspace).1 hgoes hplace hpast

/-- A call that reports a problem is met by the next call with the same outcome. -/
theorem next_of_next_eq_error {problem : Problem} (h : s.next = (.error problem, after)) :
    after.next = (.error problem, after) := by
  obtain ⟨gap, c, behind, hrest, hgap, hspace, -, -, hposition, -⟩ := exists_of_next_eq_error h
  have hstop : ∀ d ∈ (c :: behind).head?, isSpace d = false := fun d hd => by
    obtain rfl := Option.some.inj hd
    exact hspace
  have hafter : s.skipSpace = after := by
    have htext := s.text_next
    rw [h] at htext
    exact eq_of_position htext.symm ((position_skipSpace hrest hgap hstop).trans hposition.symm)
  have hskip : after.skipSpace = after := by
    have hstay : after.rest = [] ++ c :: behind := hafter ▸ rest_skipSpace hrest hgap hstop
    exact eq_of_position rfl (position_skipSpace hstay (List.forall_mem_nil _) hstop)
  calc after.next = s.next := by
        unfold next
        rw [hskip, hafter]
    _ = (.error problem, after) := h

/-- A scanner that reports a problem and stays reports it as often as it is called. -/
theorem nexts_of_next_eq_error {problem : Problem} (h : s.next = (.error problem, s))
    (count : Nat) : s.nexts count = (List.replicate count (.error problem), s) := by
  induction count with
  | zero => rfl
  | succ count ih => rw [nexts, h, ih, List.replicate_succ]

/-- A character that starts no token is the first one that is no space, and it is reported again. -/
theorem yields_problem {problem : Problem} (h : s.next = (.error problem, after)) :
    s.Yields (.error problem) after := by
  obtain ⟨gap, c, behind, hrest, hgap, hspace, hkind, hletter, hposition, hproblem⟩ :=
    exists_of_next_eq_error h
  obtain ⟨hstart, hchar⟩ := startsAt_of_rest hrest hgap hspace
  exact .refused hstart hchar ⟨hkind, hletter⟩ (hposition ▸ hproblem) hposition
    (nexts_of_next_eq_error (next_of_next_eq_error h))

/-- A call for the next token has one of the three endings. -/
theorem yields_next (s : Scanner) : s.Yields s.next.1 s.next.2 := by
  cases hnext : s.next with
  | mk outcome after =>
    cases outcome with
    | error problem => exact yields_problem hnext
    | ok token =>
      by_cases hend : token.kind = .endOfInput
      · exact yields_end hnext hend
      · exact yields_token hnext hend

end Next

section Tokenize

/-- Each token that is read leaves fewer characters. -/
theorem Scans.length_le (h : Scans s row between) : row.length ≤ s.rest.length := by
  induction h with
  | nothing s => exact Nat.zero_le _
  | token read goesOn _ ih => exact Nat.lt_of_le_of_lt ih (length_rest_next_lt read goesOn)

/-- Tokens that are read are the outcomes of calls for the next token, as many as there are. -/
theorem Scans.nexts_eq (h : Scans s row between) (count : Nat) :
    s.nexts (row.length + count) =
      (row.map .ok ++ (between.nexts count).1, (between.nexts count).2) := by
  induction h with
  | nothing s => simp
  | @token s between after token others read goesOn _ ih =>
    rw [List.length_cons, Nat.add_right_comm, nexts, read, ih, List.map_cons, List.cons_append]

/-- Tokenizing is calling for the next token until one is the end of input or a problem is
reported, which takes one call more than there are characters left at most. -/
theorem tokenize_eq_nexts (s : Scanner) :
    ∃ row last after, s.nexts (row.length + 1) = (row.map .ok ++ [last], after) ∧
      row.length ≤ s.rest.length ∧ (∀ token ∈ row, token.kind ≠ .endOfInput) ∧
      ((∃ eof, last = .ok eof ∧ eof.kind = .endOfInput ∧
          s.tokenize = (.ok (row ++ [eof]), after)) ∨
        ∃ problem, last = .error problem ∧ s.tokenize = (.error problem, after)) := by
  obtain ⟨row, between, hscans, hend⟩ := s.exists_scans
  have hnexts : s.nexts (row.length + 1) = (row.map .ok ++ [between.next.1], between.next.2) :=
    hscans.nexts_eq 1
  refine ⟨row, _, _, hnexts, hscans.length_le, hscans.kind_ne, ?_⟩
  rcases hend with ⟨eof, after, hnext, hkind, htokenize⟩ | ⟨problem, after, hnext, htokenize⟩
  · exact .inl ⟨eof, congrArg Prod.fst hnext, hkind, by rw [htokenize, hnext]⟩
  · exact .inr ⟨problem, congrArg Prod.fst hnext, by rw [htokenize, hnext]⟩

end Tokenize

/-- After any calls a scanner stands in the trimmed text or at its end, and no further call takes it
back. There a call for the next token has one of three endings, and tokenizing ends, with what
calls for the next token one after the other come to up to the end of input or the first problem. -/
theorem calls_stay_in_text (text : String) (calls : List Call) :
    let chars := Text.trim text.toList
    let s := calls.foldl Call.after (.ofString text)
    s.text = chars ∧ s.position ≤ chars.length ∧
      (∀ further : List Call, s.position ≤ (further.foldl Call.after s).position) ∧
      s.Yields s.next.1 s.next.2 ∧
      ∃ row last after, s.nexts (row.length + 1) = (row.map .ok ++ [last], after) ∧
        row.length ≤ chars.length - s.position ∧ (∀ token ∈ row, token.kind ≠ .endOfInput) ∧
        ((∃ eof, last = .ok eof ∧ eof.kind = .endOfInput ∧
            s.tokenize = (.ok (row ++ [eof]), after)) ∨
          ∃ problem, last = .error problem ∧ s.tokenize = (.error problem, after)) := by
  intro chars s
  have htext : s.text = chars := (onward_calls (.ofString text) calls).text_eq
  have hlength : s.rest.length = chars.length - s.position := htext ▸ s.length_rest
  refine ⟨htext, htext ▸ s.position_le, fun further => (onward_calls s further).position_le,
    s.yields_next, ?_⟩
  rw [← hlength]
  exact s.tokenize_eq_nexts

/-- Tokenizing from inside a name stops in front of a digit, and so does a call after it. -/
example : ([.advance, .tokenize, .next].foldl Call.after (ofString " ab 1")).position = 3 := by
  decide +kernel

end UntypedLambda.Scanner
