import Mathlib.Algebra.Ring.Int.Defs
import Mathlib.Data.List.SplitBy
import UntypedLambda.Proofs.Lexemes
import UntypedLambda.Proofs.Literals
import UntypedLambda.Proofs.RoundTrip
import UntypedLambda.Proofs.SessionWork
import UntypedLambda.Proofs.TypedLine

/-!
# Parentheses in statements

A text that spells a term closes as many parentheses as it opens. Numbers in the text make no
difference, because a numeral closes what it opens, and a name has no parentheses. So a statement
that opens more parentheses than it closes is never accepted, neither as a definition nor as a
term.
-/

namespace UntypedLambda

namespace Text

/-- What a character adds to the number of open parentheses. -/
def delta (c : Char) : Int := if c = '(' then 1 else if c = ')' then -1 else 0

/-- How many more parentheses are opened than closed. -/
def net (text : List Char) : Int := (text.map delta).sum

@[simp]
theorem net_nil : net [] = 0 := rfl

@[simp]
theorem net_cons (c : Char) (text : List Char) : net (c :: text) = delta c + net text := by
  simp [net]

@[simp]
theorem net_append (first second : List Char) : net (first ++ second) = net first + net second := by
  simp [net]

/-- Every parenthesis counts. -/
theorem net_eq (text : List Char) : net text = text.count '(' - text.count ')' := by
  induction text with
  | nil => rfl
  | cons c rest ih =>
    rw [net_cons, ih, List.count_cons, List.count_cons]
    unfold delta
    by_cases hopening : c = '('
    · subst hopening
      simp
      omega
    · by_cases hclosing : c = ')'
      · subst hclosing
        simp
        omega
      · simp [hopening, hclosing]

/-- Nothing else counts. -/
theorem delta_eq_zero {c : Char} (hopening : c ≠ '(') (hclosing : c ≠ ')') : delta c = 0 := by
  rw [delta, if_neg hopening, if_neg hclosing]

/-- A class of characters to which no parenthesis belongs does not count. -/
theorem delta_of_class {p : Char → Bool} (hopening : p '(' = false) (hclosing : p ')' = false)
    {c : Char} (h : p c = true) : delta c = 0 := by
  refine delta_eq_zero ?_ ?_
  · rintro rfl
    nomatch h.symm.trans hopening
  · rintro rfl
    nomatch h.symm.trans hclosing

/-- Text without parentheses does not count. -/
theorem net_eq_zero {text : List Char} (h : ∀ c ∈ text, delta c = 0) : net text = 0 := by
  induction text with
  | nil => rfl
  | cons c rest ih =>
    have hrest := ih fun d hd => h d (List.mem_cons_of_mem c hd)
    rw [net_cons, h c List.mem_cons_self, hrest, Int.zero_add]

/-- Blanks do not count. -/
theorem net_trim (text : List Char) : net (trim text) = net text := by
  rw [net_eq, net_eq, count_trim (by decide), count_trim (by decide)]

end Text

/-- A statement is open if it opens more parentheses than it closes. -/
theorem Statement.isOpen_iff {text : String} : isOpen text = true ↔ 0 < Text.net text.toList := by
  rw [Text.net_eq, isOpen, decide_eq_true_iff]
  unfold Text.count
  omega

/-- A statement that is open has characters. -/
theorem Statement.isEmpty_of_isOpen {text : String} (h : isOpen text = true) :
    text.isEmpty = false := by
  rw [← Bool.not_eq_true, String.isEmpty_iff]
  rintro rfl
  exact absurd h (by decide)

/-- A statement that is open still has characters with a line behind it. -/
theorem Statement.isEmpty_join {text : String} (h : isOpen text = true) (line : String) :
    (join text line).isEmpty = false := by
  have hopening : 0 < text.toList.count '(' := Nat.zero_lt_of_lt (of_decide_eq_true h)
  have hcount : (join text line).toList.count '(' = (text ++ " " ++ line).toList.count '(' := by
    rw [join, Text.trimmed, String.toList_ofList, Text.count_trim (by decide)]
  rw [← Bool.not_eq_true, String.isEmpty_iff]
  intro hempty
  rw [hempty, String.toList_append, String.toList_append, List.count_append,
    List.count_append] at hcount
  have hnone : "".toList.count '(' = 0 := rfl
  omega

/-- What a token adds to the number of open parentheses. -/
def Token.delta (token : Token) : Int :=
  match token.kind with
  | .opening => 1
  | .closing => -1
  | _ => 0

namespace Scanner

/-- A token counts as what it is written as. -/
theorem Written.net_eq {token : Token} {span : List Char} (h : Written token span) :
    Text.net span = token.delta := by
  cases h with
  | @single c kind position hkind =>
    rcases singleKind?_cases hkind with rfl | rfl | rfl | rfl | rfl <;>
    · obtain rfl := Option.some.inj hkind
      rfl
  | @name name position hname =>
    obtain ⟨-, -, -, -, hall⟩ := isIdentifier_cases hname
    exact Text.net_eq_zero fun c hc => Text.delta_of_class (by decide) (by decide) (hall c hc)

/-- A text counts as its tokens. -/
theorem Lexes.net_eq {start : Nat} {text : List Char} {tokens : List Token}
    (h : Lexes start text tokens) : Text.net text = (tokens.map Token.delta).sum := by
  have hgap {gap : List Char} (hgap : ∀ c ∈ gap, isSpace c = true) : Text.net gap = 0 :=
    Text.net_eq_zero fun c hc => Text.delta_of_class (by decide) (by decide) (hgap c hc)
  induction h with
  | ended hspaces => exact hgap hspaces
  | token hspaces _ written _ _ ih =>
    rw [Text.net_append, Text.net_append, hgap hspaces, written.net_eq, ih, Int.zero_add,
      List.map_cons, List.sum_cons]

end Scanner

/-- A phrase closes what it opens. -/
theorem Reads.net_eq {sought : Sought} {tokens follow : List Token} {tree : Term}
    (h : Reads sought tokens follow tree) : (tokens.map Token.delta).sum = 0 := by
  induction h with
  | var isName _ => simp [Token.delta, isName]
  | abstraction isLambda isName _ isDot _ _ ih => simp [Token.delta, isLambda, isName, isDot, ih]
  | parentheses isOpening isClosing _ ih => simp [Token.delta, isOpening, isClosing, ih]
  | done _ => rfl
  | next _ _ ihh iht => simp [ihh, iht]

namespace Term

/-- A text that spells a term closes what it opens. -/
theorem net_of_parse {text : String} {t : Term} (h : Term.parse text = .ok t) :
    Text.net text.toList = 0 := by
  obtain ⟨tokens, between, eof, after, hscans, hlast, heof, hreads⟩ := parse_eq_ok_iff.mp h
  have htokenize : (Scanner.ofString text).tokenize = (.ok (tokens ++ [eof]), after) :=
    Scanner.tokenize_eq_ok_iff.mpr ⟨tokens, between, eof, hscans, hlast, heof, rfl⟩
  have hlexes := Scanner.tokenize_eq_ok_iff_lexes.mp (congrArg Prod.fst htokenize)
  have hend : eof.delta = 0 := by rw [Token.delta, heof]
  have hnet : Text.net (Text.trim text.toList) = ((tokens ++ [eof]).map Token.delta).sum :=
    hlexes.net_eq
  rw [Text.net_trim, List.map_append, List.sum_append, hreads.net_eq] at hnet
  simpa [hend] using hnet

/-- The parameters of a numeral are its only names. -/
theorem names_iterate {name : String} {n : Nat} (h : name ∈ (iterate "f" "x" n).names) :
    name = "f" ∨ name = "x" := by
  induction n with
  | zero => exact .inr (List.mem_singleton.mp h)
  | succ n ih =>
    rcases List.mem_cons.mp h with hfunction | hrest
    · exact .inl hfunction
    · exact ih hrest

/-- A numeral has no other names. -/
theorem names_numeral {name : String} {n : Nat} (h : name ∈ (numeral n).names) :
    name = "f" ∨ name = "x" := by
  rcases List.mem_cons.mp h with hfunction | hinner
  · exact .inl hfunction
  rcases List.mem_cons.mp hinner with hargument | hbody
  · exact .inr hargument
  · exact names_iterate hbody

/-- The names of a numeral are identifiers. -/
theorem isIdentifier_of_mem_numeral {n : Nat} :
    ∀ name ∈ (numeral n).names, isIdentifier name = true := fun name hname => by
  rcases names_numeral hname with rfl | rfl <;> decide

/-- The text of a numeral closes what it opens. -/
theorem net_render_numeral (n : Nat) : Text.net (numeral n).render.toList = 0 :=
  net_of_parse (parse_render_of_names isIdentifier_of_mem_numeral)

end Term

namespace Numeral

/-- The source of a numeral makes no difference to its parentheses. -/
theorem net_of_ofSource {source : Source} {t : Term} (h : ofSource source = .ok t) :
    Text.net t.render.toList = 0 := by
  rcases ofSource_cases source with ⟨n, hok⟩ | ⟨_, herror⟩
  · obtain rfl := Except.ok.inj (h.symm.trans hok)
    exact Term.net_render_numeral n
  · nomatch h.symm.trans herror

/-- What a run is replaced by counts as the run. -/
theorem net_of_expandRun {run part : List Char} (h : expandRun run = .ok part) :
    Text.net part = Text.net run := by
  unfold expandRun at h
  split at h
  · next hdigits =>
    split at h
    · next t ht =>
      obtain rfl := Except.ok.inj h
      have hrun : Text.net run = 0 := Text.net_eq_zero fun c hc =>
        Text.delta_of_class (by decide +kernel) (by decide +kernel)
          (List.all_eq_true.mp hdigits c hc)
      simp [net_of_ofSource ht, hrun, Text.delta]
    · nomatch h
  · obtain rfl := Except.ok.inj h
    rfl

/-- Replacing the runs one by one counts as the runs. -/
theorem net_of_mapM {pieces parts : List (List Char)} (h : pieces.mapM expandRun = .ok parts) :
    Text.net parts.flatten = Text.net pieces.flatten := by
  induction pieces generalizing parts with
  | nil =>
    obtain rfl := Except.ok.inj h
    rfl
  | cons piece pieces ih =>
    rw [List.mapM_cons] at h
    obtain ⟨part, hpart, hrest⟩ := except_bind_eq_ok.mp h
    obtain ⟨others, hothers, hall⟩ := except_bind_eq_ok.mp hrest
    obtain rfl := Except.ok.inj hall
    rw [List.flatten_cons, List.flatten_cons, Text.net_append, Text.net_append,
      net_of_expandRun hpart, ih hothers]

/-- Replacing the numbers of a text makes no difference to its parentheses. -/
theorem net_of_expandLiterals {text expanded : String} (h : expandLiterals text = .ok expanded) :
    Text.net expanded.toList = Text.net text.toList := by
  obtain ⟨parts, hparts, hjoined⟩ := except_bind_eq_ok.mp h
  obtain rfl := Except.ok.inj hjoined
  have hflatten : (runs text.toList).flatten = text.toList := List.flatten_splitBy _ _
  rw [String.toList_ofList, net_of_mapM hparts, hflatten]

end Numeral

namespace Session

/-- A text that is read closes what it opens. -/
theorem net_of_readLiterals {text : String} {t : Term} (h : readLiterals text = .ok t) :
    Text.net text.toList = 0 := by
  obtain ⟨expanded, hexpanded, hparse⟩ := except_bind_eq_ok.mp h
  rw [← Numeral.net_of_expandLiterals hexpanded]
  exact Term.net_of_parse hparse

/-- A name has no parentheses. -/
theorem net_of_isName {name : String} (h : isName name = .ok true) : Text.net name.toList = 0 := by
  unfold isName at h
  split at h
  · nomatch h
  · next token eof htokenize =>
    have hlexes := Scanner.tokenize_eq_ok_iff_lexes.mp htokenize
    have hname : token.kind = .name := of_decide_eq_true (Except.ok.inj h)
    obtain ⟨row, hrow, -⟩ := hlexes.exists_row
    have hlast := congrArg List.getLast? hrow
    rw [List.getLast?_concat] at hlast
    obtain rfl := Option.some.inj hlast
    have hnet : Text.net (Text.trim name.toList) = _ := hlexes.net_eq
    rw [Text.net_trim] at hnet
    simpa [Token.delta, hname] using hnet
  · nomatch h

/-- A definition that passes the checks closes what it opens. -/
theorem isOpen_of_admits {definitions : Definitions} {text name body : String} {term : Term}
    (hcut : Text.cut? ":=" text = some (name, body)) (h : definitions.Admits name body term) :
    Statement.isOpen text = false := by
  have hname := net_of_isName h.isName
  have hbody := net_of_readLiterals h.reads
  have htext : Text.net text.toList = 0 := by
    unfold Text.cut? at hcut
    obtain ⟨⟨first, second⟩, hparts, heq⟩ := Option.map_eq_some_iff.mp hcut
    obtain ⟨rfl, rfl⟩ := Prod.mk.inj heq
    rw [Text.trimmed, String.toList_ofList, String.toList_ofList, Text.net_trim] at hname
    rw [String.toList_ofList] at hbody
    rw [Text.eq_of_cutAt? hparts, Text.net_append, Text.net_append, hname, hbody]
    rfl
  rw [← Bool.not_eq_true, Statement.isOpen_iff]
  omega

/-- A term that is read closes what it opens, whatever is made of it. -/
theorem isOpen_of_read {text : String} {change : Term → Term} {term : Term}
    (h : (readLiterals text).map change = .ok term) : Statement.isOpen text = false := by
  have htext : Text.net text.toList = 0 := by
    cases hread : readLiterals text with
    | error fault =>
      rw [hread] at h
      nomatch h
    | ok literal => exact net_of_readLiterals hread
  rw [← Bool.not_eq_true, Statement.isOpen_iff]
  omega

end Session

end UntypedLambda
