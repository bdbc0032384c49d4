import UntypedLambda.Proofs.Arithmetic
import UntypedLambda.Proofs.NumberReplacement
import UntypedLambda.Proofs.QueueRun

/-!
# A number from its text to its display

A text of decimal digits is a number that stands alone. It is replaced by the text of its numeral,
which is read as the numeral; no definition is put into a numeral, and no step is left to be taken.
So the number that is shown behind the normal form is the one that was typed, without zeros in
front.
-/

namespace UntypedLambda

namespace Text

/-- Decimal digits without zeros in front. A zero is kept if there is nothing else. -/
def significant (digits : List Char) : List Char :=
  match digits.dropWhile (· = '0') with
  | [] => ['0']
  | first :: others => first :: others

section Digits

variable {c : Char} {digits : List Char}

/-- A decimal digit lies between zero and nine, and stands for its distance from zero. -/
theorem digit_bounds (h : c.isDigit = true) :
    48 ≤ c.toNat ∧ c.toNat - 48 < 10 ∧ (c.toNat - 48).digitChar = c := by
  have hbounds : 48 ≤ c.toNat ∧ c.toNat ≤ 57 := by
    simpa [Char.isDigit, UInt32.le_iff_toNat_le] using h
  have hless : c.toNat - 48 < 10 := by omega
  refine ⟨hbounds.1, hless, Char.toNat_inj.mp ?_⟩
  rw [Nat.toNat_digitChar_of_lt_ten hless]
  omega

/-- Digits behind a positive number are the last digits of the number that they make with it. -/
theorem toDigits_ofDigitChars_append (hdigits : ∀ c ∈ digits, c.isDigit = true) {value : Nat}
    (hvalue : 0 < value) :
    Nat.toDigits 10 (Nat.ofDigitChars 10 digits value) = Nat.toDigits 10 value ++ digits := by
  induction digits generalizing value with
  | nil => rw [Nat.ofDigitChars_nil, List.append_nil]
  | cons c digits ih =>
    obtain ⟨-, hless, hchar⟩ := digit_bounds (hdigits c List.mem_cons_self)
    have hrest : ∀ d ∈ digits, d.isDigit = true := fun d hd => hdigits d (List.mem_cons_of_mem c hd)
    have hone : Nat.toDigits 10 (10 * value + (c.toNat - 48)) = Nat.toDigits 10 value ++ [c] := by
      rw [← Nat.toDigits_append_toDigits (by decide) hvalue hless, Nat.toDigits_of_lt_base hless,
        hchar]
    calc Nat.toDigits 10 (Nat.ofDigitChars 10 (c :: digits) value)
        = Nat.toDigits 10 (Nat.ofDigitChars 10 digits (10 * value + (c.toNat - 48))) := by
          rw [Nat.ofDigitChars_cons]
          rfl
      _ = (Nat.toDigits 10 value ++ [c]) ++ digits := by rw [ih hrest (by omega), hone]
      _ = Nat.toDigits 10 value ++ c :: digits := by simp

/-- The decimal form of the number that digits spell is made of these digits, without zeros in
front. -/
theorem toDigits_ofDigitChars (hdigits : ∀ c ∈ digits, c.isDigit = true) :
    Nat.toDigits 10 (Nat.ofDigitChars 10 digits 0) = significant digits := by
  induction digits with
  | nil => rfl
  | cons c digits ih =>
    have hrest : ∀ d ∈ digits, d.isDigit = true := fun d hd => hdigits d (List.mem_cons_of_mem c hd)
    by_cases hzero : c = '0'
    · subst hzero
      have hkept : significant ('0' :: digits) = significant digits := by
        simp [significant]
      rw [Nat.ofDigitChars_cons, hkept, ← ih hrest]
      rfl
    · obtain ⟨hlower, hless, hchar⟩ := digit_bounds (hdigits c List.mem_cons_self)
      have hpositive : 0 < c.toNat - 48 := by
        have hne : c.toNat ≠ 48 := fun heq => hzero (Char.toNat_inj.mp heq)
        omega
      have hkept : significant (c :: digits) = c :: digits := by
        simp [significant, hzero]
      rw [Nat.ofDigitChars_cons, Nat.mul_zero, Nat.zero_add, hkept]
      change Nat.toDigits 10 (Nat.ofDigitChars 10 digits (c.toNat - 48)) = c :: digits
      rw [toDigits_ofDigitChars_append hrest hpositive, Nat.toDigits_of_lt_base hless, hchar]
      rfl

/-- The value of a decimal digit is looked up in the first interval. -/
theorem digitValue?_of_isDigit (h : c.isDigit = true) : digitValue? c = some (c.toNat - 48) := by
  obtain ⟨hlower, hless, -⟩ := digit_bounds h
  unfold digitValue? digitRanges
  rw [Ranges.offset?, if_neg (by omega), if_pos (by omega), Option.map_some,
    Nat.mod_eq_of_lt hless]

/-- A decimal digit is a digit. -/
theorem isDigit_of_isDigit (h : c.isDigit = true) : isDigit c = true := by
  rw [← digitValue?_isSome, digitValue?_of_isDigit h, Option.isSome_some]

/-- Decimal digits spell their decimal value. -/
theorem digitsValue_eq_ofDigitChars (hdigits : ∀ c ∈ digits, c.isDigit = true) :
    digitsValue digits = Nat.ofDigitChars 10 digits 0 := by
  rw [Nat.ofDigitChars_eq_foldl]
  refine List.foldl_ext _ _ 0 fun value c hc => ?_
  rw [digitValue?_of_isDigit (hdigits c hc)]
  rfl

/-- A text of decimal digits, if there are some and not too many, spells their value. -/
theorem readInteger?_digits (hne : digits ≠ []) (hdigits : ∀ c ∈ digits, c.isDigit = true)
    (hlength : digits.length ≤ maxDigits) :
    readInteger? digits = some ((Nat.ofDigitChars 10 digits 0 : Nat) : Int) := by
  have hmargin : ∀ c ∈ digits, isMargin c = false := fun c hc => by
    rw [isMargin, isBlank_of_isDigit (isDigit_of_isDigit (hdigits c hc)), Bool.false_and]
  have htrim : trimWhile isMargin digits = digits :=
    trimWhile_eq_self (fun c hc => hmargin c (List.mem_of_mem_head? hc))
      fun c hc => hmargin c (List.mem_of_getLast? hc)
  have hgroups : digits.splitOn '_' = [digits] :=
    List.splitOn_eq_singleton fun hmem => nomatch hdigits '_' hmem
  have hall : digits.all isDigit = true :=
    List.all_eq_true.mpr fun c hc => isDigit_of_isDigit (hdigits c hc)
  have hnatural : readNatural? digits = some (Nat.ofDigitChars 10 digits 0) := by
    unfold readNatural?
    simp [hgroups, hne, hall, hlength, digitsValue_eq_ofDigitChars hdigits]
  unfold readInteger?
  rw [htrim]
  split
  · nomatch hdigits '-' List.mem_cons_self
  · nomatch hdigits '+' List.mem_cons_self
  · rw [hnatural]
    rfl

end Digits

end Text

namespace Numeral

variable {digits : String} (hne : digits ≠ "") (hdigits : ∀ c ∈ digits.toList, c.isDigit = true)
  (hlength : digits.length ≤ Text.maxDigits)

include hne hdigits hlength

/-- A text of decimal digits is replaced by the numeral of their value. -/
theorem expandLiterals_digits :
    expandLiterals digits = .ok (String.ofList (block (Nat.ofDigitChars 10 digits.toList 0))) := by
  have hchars : digits.toList ≠ [] := fun hnil => hne (String.toList_eq_nil_iff.mp hnil)
  have hdigit : ∀ c ∈ digits.toList, Text.isDigit c = true := fun c hc =>
    Text.isDigit_of_isDigit (hdigits c hc)
  have hread := Text.readInteger?_digits hchars hdigits hlength
  have hsource : ofSource (.text (String.ofList digits.toList)) =
      .ok (.numeral (Nat.ofDigitChars 10 digits.toList 0)) := by
    unfold ofSource
    dsimp only
    rw [String.toList_ofList, hread]
    dsimp only
    rw [ofInt, if_neg (by omega), Int.toNat_natCast]
  rw [expandLiterals_eq_ok_iff, String.toList_ofList,
    expandChars_run hchars fun c hc => Text.isWord_of_isDigit (hdigit c hc)]
  unfold expandRun
  rw [if_pos (List.all_eq_true.mpr hdigit), hsource]
  dsimp only
  rw [Term.render_eq_spelling]
  rfl

end Numeral

namespace Term

/-- The text of a term whose names are identifiers is read as the term if it stands in
parentheses. -/
theorem parse_parentheses {t : Term} (hnames : ∀ name ∈ t.names, isIdentifier name = true) :
    Term.parse (String.ofList ('(' :: t.spelling.toList ++ [')'])) = .ok t := by
  have htrim :
      Text.trim ('(' :: t.spelling.toList ++ [')']) = '(' :: t.spelling.toList ++ [')'] := by
    refine Text.trim_eq_self (fun c hc => ?_) fun c hc => ?_
    · obtain rfl := Option.some.inj hc
      decide
    · rw [List.getLast?_concat] at hc
      obtain rfl := Option.some.inj hc
      decide
  have htext : (Scanner.ofString (String.ofList ('(' :: t.spelling.toList ++ [')']))).rest =
      [] ++ '(' :: ([] ++ (t.spelling.toList ++ [')'])) := by
    rw [Scanner.rest_ofString, String.toList_ofList, htrim]
    rfl
  obtain ⟨opening, s₁, hscans₁, hopening, hrest₁⟩ :=
    Scanner.scans_single [] htext (List.forall_mem_nil _) rfl
  obtain ⟨inside, s₂, hscans₂, hspells, hrest₂⟩ :=
    scans_spelling hnames [] hrest₁ (List.forall_mem_nil _) (by simp)
  obtain ⟨closing, s₃, hscans₃, hclosing, hrest₃⟩ :=
    Scanner.scans_single [] hrest₂ (List.forall_mem_nil _) rfl
  obtain ⟨eof, after, hlast, heof⟩ := Scanner.next_end hrest₃
  have hinside : Reads (.after none) (inside ++ []) [closing] t := hspells.reads (.done t)
  rw [List.append_nil] at hinside
  have hreads : Reads (.after none) (opening :: (inside ++ [closing]) ++ []) [] t :=
    .next (.parentheses hopening hclosing hinside) (.done t)
  rw [List.append_nil] at hreads
  exact parse_eq_ok_iff.mpr ⟨_, s₃, eof, after, hscans₁.append (hscans₂.append hscans₃), hlast,
    heof, hreads⟩

/-- No definition is put into a numeral. -/
theorem expand_numeral (definitions : Definitions) (n : Nat) :
    definitions.expand (numeral n) = numeral n := by
  refine Definitions.expandWithin_of_notMem (fun name _ hfree => ?_) _
  rw [freeNames_numeral] at hfree
  nomatch hfree

/-- A numeral is shown with its number. -/
theorem display_numeral (n : Nat) :
    (numeral n).display = (numeral n).render ++ " = " ++ toString n := by
  rw [display, number?_numeral]

end Term

namespace Session

/-- The oldest result is taken and shown. -/
theorem pop_of_results {s : Session} {result : Term} {results : List Term}
    (h : s.results = result :: results) : pop s = .ok result.display { s with results } := by
  unfold pop
  rw [Action.bind_of_ok (Action.get_eq_ok.mpr ⟨rfl, rfl⟩), h]
  rfl

/-- A text of decimal digits is read as the numeral of their value, whatever is defined. -/
theorem read_digits (s : Session) {digits : String} (hne : digits ≠ "")
    (hdigits : ∀ c ∈ digits.toList, c.isDigit = true) (hlength : digits.length ≤ Text.maxDigits) :
    s.read digits = .ok (.numeral (Nat.ofDigitChars 10 digits.toList 0)) := by
  unfold read readLiterals
  rw [Numeral.expandLiterals_digits hne hdigits hlength]
  change (Term.parse (String.ofList (Numeral.block _))).map s.definitions.expand = _
  rw [Numeral.block, Term.parse_parentheses Term.isIdentifier_of_mem_numeral]
  exact congrArg Except.ok (Term.expand_numeral s.definitions _)

/-- A number that is typed into a session where nothing waits and the budget is positive is
evaluated to its numeral. This is the newest result, and where it is the oldest as well, it is shown
with the digits that were typed, without zeros in front. -/
theorem number_evaluates (s : Session) {budget : Int} (hqueue : s.queue = [])
    (hbudget : s.calculus.budget = some budget) (hpositive : 1 ≤ budget) {digits : String}
    (hne : digits ≠ "") (hdigits : ∀ c ∈ digits.toList, c.isDigit = true)
    (hlength : digits.length ≤ 4300) (number : Option Int) (traced : Bool) :
    let n := Nat.ofDigitChars 10 digits.toList 0
    let shown := (Term.numeral n).render ++ " = " ++ toString n
    (toString n).toList = Text.significant digits.toList ∧
      ∃ t, (do add digits number; run traced : Action Session Unit) s = .ok () t ∧
        t.results = s.results ++ [.numeral n] ∧ t.queue = [] ∧ t.definitions = s.definitions ∧
        ∀ (u : Session) (rest : List Term), u.results = .numeral n :: rest →
          pop u = .ok shown { u with results := rest } := by
  intro n shown
  have hcut : Text.cut? ":=" digits = none := by
    rw [Text.cut?_eq_none_iff]
    intro hmark
    nomatch hdigits ':' (hmark.subset List.mem_cons_self)
  have hadd := add_of_read hcut (s.read_digits hne hdigits hlength) number
  have hform : s.calculus.normalForm (.numeral n) = .ok (.numeral n) := by
    unfold Calculus.normalForm Calculus.budgetOr
    rw [hbudget]
    have hfinishes : (Term.numeral n).FinishesIn 0 (.numeral n) := ⟨rfl, Term.step?_numeral n⟩
    exact Term.evaluate_eq_ok_iff.mpr ⟨0, by omega, hfinishes⟩
  have hevaluates : (s.queued digits number (.numeral n)).calculus.Evaluates
      (s.queued digits number (.numeral n)).queue [.numeral n] := by
    change s.calculus.Evaluates (s.queue ++ [⟨number, digits, .numeral n⟩]) _
    rw [hqueue]
    exact .cons hform .nil
  obtain ⟨t, hrun, hadvances⟩ := run_of_evaluates hevaluates traced
  refine ⟨?_, t, (Action.bind_of_ok hadd).trans hrun, hadvances.results, hadvances.queue,
    hadvances.definitions, fun u rest hresults => ?_⟩
  · rw [Nat.toString_eq_repr, Nat.toList_repr]
    exact Text.toDigits_ofDigitChars hdigits
  · rw [pop_of_results hresults, Term.display_numeral]

/-- A number with zeros in front that is typed into a new session. -/
theorem number_evaluates_seven :
    let s := start inputPath default true (.start true)
    let shown := (Term.numeral 7).render ++ " = " ++ "7"
    Text.significant "007".toList = ['7'] ∧
      ∃ t, (do add "007" none; run false : Action Session Unit) s = .ok () t ∧
        t.results = [.numeral 7] ∧ pop t = .ok shown { t with results := [] } := by
  intro s shown
  have hvalue : Nat.ofDigitChars 10 "007".toList 0 = 7 := by decide
  have hbudget : s.calculus.budget = some 1000 := rfl
  have hne : "007" ≠ "" := by decide
  have hdigits : ∀ c ∈ "007".toList, c.isDigit = true := List.all_eq_true.mp (by decide +kernel)
  obtain ⟨-, t, hrun, hresults, -, -, hpop⟩ :=
    number_evaluates s rfl hbudget (by decide) hne hdigits (by decide) none false
  rw [hvalue] at hresults hpop
  exact ⟨by decide, t, hrun, hresults, hpop t [] hresults⟩

end Session

end UntypedLambda
