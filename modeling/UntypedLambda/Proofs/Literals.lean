import Mathlib.Data.List.DropRight
import Mathlib.Data.List.SplitBy
import UntypedLambda.Action
import UntypedLambda.Numeral
import UntypedLambda.Proofs.CharacterClasses
import UntypedLambda.Proofs.Scanning
import UntypedLambda.Proofs.Spelling

/-!
# Where numbers are replaced

A text is cut wherever word characters and others meet, and each run is replaced by itself unless it
holds digits only. So a text can be expanded in parts, as long as no word goes on from one part to
the next, and a word with another character among its digits is kept. A name is such a word.
-/

namespace UntypedLambda

namespace Numeral

open Text

/-- The characters of a text whose numbers are replaced. -/
def expandChars (text : List Char) : Except Fault (List Char) :=
  ((runs text).mapM expandRun).map List.flatten

/-- The text that a number is replaced by: its numeral in parentheses. -/
def block (n : Nat) : List Char := '(' :: (Term.numeral n).spelling.toList ++ [')']

/-- Two texts put together, if there are both. -/
def joined (first second : Except Fault (List Char)) : Except Fault (List Char) := do
  return (← first) ++ (← second)

/-- A text is expanded by its characters. -/
theorem expandLiterals_eq (text : String) :
    expandLiterals text = (expandChars text.toList).map String.ofList := by
  unfold expandLiterals expandChars
  cases (runs text.toList).mapM expandRun <;> rfl

section Joined

variable (a b c : Except Fault (List Char))

/-- Texts can be put together from the left or from the right. -/
theorem joined_assoc : joined (joined a b) c = joined a (joined b c) := by
  cases a with
  | error fault => rfl
  | ok a =>
    cases b with
    | error fault => rfl
    | ok b =>
      cases c with
      | error fault => rfl
      | ok c => exact congrArg Except.ok (List.append_assoc a b c)

/-- The empty text adds nothing behind another. -/
theorem joined_nil : joined a (.ok []) = a := by
  cases a with
  | error fault => rfl
  | ok a => exact congrArg Except.ok (List.append_nil a)

variable {a b}

/-- Texts are put together if there are both. -/
theorem joined_eq_ok_iff {result : List Char} :
    joined a b = .ok result ↔ ∃ x y, a = .ok x ∧ b = .ok y ∧ x ++ y = result := by
  unfold joined
  simp [except_bind_eq_ok, pure, Except.pure]

end Joined

section Runs

variable {first second text : List Char}

/-- A run with a character that is no digit is kept. -/
theorem expandRun_of_not_digits {c : Char} (hmem : c ∈ text) (hc : isDigit c = false) :
    expandRun text = .ok text := by
  have hall : ¬text.all isDigit = true := fun hall => by
    rw [List.all_eq_true.mp hall c hmem] at hc
    nomatch hc
  unfold expandRun
  rw [if_neg hall]

/-- What a numeral is asked of is a natural number, or it is refused. -/
theorem ofSource_cases (source : Source) :
    (∃ n, ofSource source = .ok (.numeral n)) ∨
      ∃ shown, ofSource source = .error (notNatural shown) := by
  have hint (value : Int) :
      (∃ n, ofInt value = .ok (.numeral n)) ∨ ∃ shown, ofInt value = .error (notNatural shown) := by
    unfold ofInt
    split
    · exact .inr ⟨_, rfl⟩
    · exact .inl ⟨_, rfl⟩
  cases source with
  | integer value => exact hint value
  | truth value => exact .inr ⟨_, rfl⟩
  | fraction text => exact .inr ⟨_, rfl⟩
  | text text =>
    unfold ofSource
    dsimp only
    split
    · exact hint _
    · exact .inr ⟨_, rfl⟩

/-- A run of digits is replaced by a numeral in parentheses, or it is refused. -/
theorem expandRun_of_digits (hdigits : ∀ c ∈ text, isDigit c = true) :
    (∃ n, expandRun text = .ok (block n)) ∨
      ∃ shown, expandRun text = .error (notNatural shown) := by
  unfold expandRun
  rw [if_pos (List.all_eq_true.mpr hdigits)]
  rcases ofSource_cases (.text (String.ofList text)) with ⟨n, hok⟩ | ⟨shown, herror⟩
  · rw [hok]
    exact .inl ⟨n, by rw [block, ← Term.render_eq_spelling]⟩
  · rw [herror]
    exact .inr ⟨shown, rfl⟩

/-- A number is replaced by its numeral in parentheses. -/
theorem exists_block_of_digits {result : List Char} (hdigits : ∀ c ∈ text, isDigit c = true)
    (h : expandRun text = .ok result) : ∃ n, result = block n := by
  rcases expandRun_of_digits hdigits with ⟨n, hok⟩ | ⟨_, herror⟩
  · exact ⟨n, Except.ok.inj (h.symm.trans hok)⟩
  · nomatch h.symm.trans herror

/-- If numbers are not replaced, this is because one is refused. -/
theorem exists_notNatural {text : String} {fault : Fault} (h : expandLiterals text = .error fault) :
    ∃ shown, fault = notNatural shown := by
  have hrun {run : List Char} {fault : Fault} (h : expandRun run = .error fault) :
      ∃ shown, fault = notNatural shown := by
    by_cases hdigits : ∀ c ∈ run, isDigit c = true
    · rcases expandRun_of_digits hdigits with ⟨_, hok⟩ | ⟨shown, herror⟩
      · nomatch h.symm.trans hok
      · exact ⟨shown, Except.error.inj (h.symm.trans herror)⟩
    · obtain ⟨c, hmem, hc⟩ : ∃ c ∈ run, isDigit c = false := by simpa using hdigits
      nomatch h.symm.trans (expandRun_of_not_digits hmem hc)
  have hruns (row : List (List Char)) {fault : Fault} (h : row.mapM expandRun = .error fault) :
      ∃ shown, fault = notNatural shown := by
    induction row with
    | nil => nomatch h
    | cons run row ih =>
      rw [List.mapM_cons] at h
      rcases except_bind_eq_error.mp h with hfirst | ⟨_, -, hrest⟩
      · exact hrun hfirst
      · rcases except_bind_eq_error.mp hrest with hothers | ⟨_, -, hnone⟩
        · exact ih hothers
        · nomatch hnone
  rcases except_bind_eq_error.mp h with hparts | ⟨_, -, hnone⟩
  · exact hruns _ hparts
  · nomatch hnone

/-- A text that is a single run is replaced as a whole. -/
theorem expandChars_run (hne : text ≠ []) {word : Bool} (hall : ∀ c ∈ text, isWord c = word) :
    expandChars text = expandRun text := by
  have hchain : text.IsChain fun c d => isWord c == isWord d :=
    (List.pairwise_of_forall_mem_list fun c hc d hd =>
      beq_iff_eq.mpr ((hall c hc).trans (hall d hd).symm)).isChain
  unfold expandChars runs
  rw [List.splitBy_of_isChain hne hchain, List.mapM_cons, List.mapM_nil]
  cases expandRun text with
  | error fault => rfl
  | ok run => exact congrArg Except.ok (List.append_nil run)

/-- Characters that belong to no word are kept. -/
theorem expandChars_others (hall : ∀ c ∈ text, isWord c = false) :
    expandChars text = .ok text := by
  cases text with
  | nil => rfl
  | cons c rest =>
    have hdigit : isDigit c = false := by
      rw [← Bool.not_eq_true]
      intro hdigit
      have hword := hall c List.mem_cons_self
      rw [isWord_of_isDigit hdigit] at hword
      nomatch hword
    rw [expandChars_run (List.cons_ne_nil c rest) hall,
      expandRun_of_not_digits List.mem_cons_self hdigit]

/-- Where words and other characters meet, a text can be cut. -/
theorem expandChars_append_of_ne
    (h : ∀ c ∈ first.getLast?, ∀ d ∈ second.head?, isWord c ≠ isWord d) :
    expandChars (first ++ second) = joined (expandChars first) (expandChars second) := by
  have hruns : runs (first ++ second) = runs first ++ runs second :=
    List.splitBy_append fun c hc d hd => beq_eq_false_iff_ne.mpr (h c hc d hd)
  unfold expandChars
  rw [hruns, List.mapM_append]
  cases (runs first).mapM expandRun with
  | error fault => rfl
  | ok parts =>
    cases (runs second).mapM expandRun with
    | error fault => rfl
    | ok others => exact congrArg Except.ok List.flatten_append

/-- Characters that belong to no word are kept in front of a text. -/
theorem expandChars_others_append (hall : ∀ c ∈ first, isWord c = false) (second : List Char) :
    expandChars (first ++ second) = joined (.ok first) (expandChars second) := by
  let more := second.takeWhile fun c => !isWord c
  let rest := second.dropWhile fun c => !isWord c
  have hmore : ∀ c ∈ more, isWord c = false := fun c hc => by
    simpa using List.mem_takeWhile_imp hc
  have hsplit : second = more ++ rest := List.takeWhile_append_dropWhile.symm
  have hcut {before : List Char} (hbefore : ∀ c ∈ before, isWord c = false) :
      expandChars (before ++ rest) = joined (.ok before) (expandChars rest) := by
    rw [expandChars_append_of_ne, expandChars_others hbefore]
    intro c hc d hd
    have hword := List.head?_dropWhile_not (fun c => !isWord c) second
    rw [show (second.dropWhile fun c => !isWord c).head? = some d from hd] at hword
    rw [hbefore c (List.mem_of_getLast? hc)]
    simpa using hword
  rw [hsplit, hcut hmore, ← List.append_assoc, hcut, ← joined_assoc]
  · rfl
  · exact fun c hc => (List.mem_append.mp hc).elim (hall c) (hmore c)

/-- Whether no word goes on from one text to the next. -/
def Apart (first second : List Char) : Prop :=
  ∀ c ∈ first.getLast?, ∀ d ∈ second.head?, isWord c = true → isWord d = false

/-- The empty text is apart from every other. -/
theorem apart_nil (first : List Char) : Apart first [] := nofun

/-- A text can be expanded in parts that are apart. -/
theorem Apart.expandChars_append (h : Apart first second) :
    expandChars (first ++ second) = joined (expandChars first) (expandChars second) := by
  -- A run of other characters may go on over the cut, so it is split off the first part.
  let before := first.rdropWhile fun c => !isWord c
  let between := first.rtakeWhile fun c => !isWord c
  have hfirst : first = before ++ between := List.rdropWhile_append_rtakeWhile.symm
  have hbetween : ∀ c ∈ between, isWord c = false := fun c hc => by
    simpa using List.mem_rtakeWhile_imp hc
  have hbefore : ∀ c ∈ before.getLast?, isWord c = true := by
    intro c hc
    obtain ⟨hne, rfl⟩ := List.mem_getLast?_eq_getLast hc
    simpa using List.rdropWhile_last_not _ _ hne
  have hcut {tail : List Char} (htail : Apart first tail) :
      expandChars (first ++ tail) =
        joined (expandChars before) (joined (.ok between) (expandChars tail)) := by
    rw [hfirst, List.append_assoc, expandChars_append_of_ne, expandChars_others_append hbetween]
    intro c hc d hd
    have hword : isWord d = false := by
      cases hrun : between with
      | nil =>
        rw [hrun] at hd hfirst
        rw [List.append_nil] at hfirst
        exact htail c (hfirst ▸ hc) d hd (hbefore c hc)
      | cons e others =>
        rw [hrun] at hd
        exact hbetween d (by rw [hrun]; exact List.mem_of_mem_head? hd)
    rw [hbefore c hc, hword]
    exact Bool.false_ne_true.symm
  have hself := hcut (apart_nil first)
  rw [List.append_nil, show expandChars [] = .ok [] from rfl, joined_nil] at hself
  rw [hcut h, hself, joined_assoc]

/-- A word with a character that is no digit is kept. -/
theorem expandChars_word {c : Char} (hall : ∀ d ∈ text, isWord d = true) (hmem : c ∈ text)
    (hc : isDigit c = false) : expandChars text = .ok text := by
  rw [expandChars_run (List.ne_nil_of_mem hmem) hall, expandRun_of_not_digits hmem hc]

/-- A character that belongs to no word is kept between two texts. -/
theorem expandChars_mark {c : Char} (hc : isWord c = false) (before after : List Char) :
    expandChars (before ++ c :: after) =
      joined (expandChars before) (joined (.ok [c]) (expandChars after)) := by
  have hcut : Apart before (c :: after) := fun _ _ d hd _ => by
    obtain rfl := Option.some.inj hd
    exact hc
  have hself : ∀ d ∈ [c], isWord d = false := List.forall_mem_singleton.mpr hc
  rw [hcut.expandChars_append, ← List.singleton_append, expandChars_others_append hself]

/-- Whether a text ends in a number that stands alone. -/
def EndsInNumber (text : List Char) : Prop :=
  text.rtakeWhile isWord ≠ [] ∧ ∀ c ∈ text.rtakeWhile isWord, isDigit c = true

instance (text : List Char) : Decidable (EndsInNumber text) :=
  decidable_of_iff (text.rtakeWhile isWord ≠ [] ∧ (text.rtakeWhile isWord).all isDigit = true)
    (and_congr_right' List.all_eq_true)

/-- Whether a text starts with a number that stands alone. -/
def StartsWithNumber (text : List Char) : Prop :=
  text.takeWhile isWord ≠ [] ∧ ∀ c ∈ text.takeWhile isWord, isDigit c = true

/-- In front of its last word, a text can be cut. -/
theorem apart_rdropWhile (text second : List Char) : Apart (text.rdropWhile isWord) second := by
  intro c hc _ _ hword
  obtain ⟨hne, rfl⟩ := List.mem_getLast?_eq_getLast hc
  exact absurd hword (List.rdropWhile_last_not _ _ hne)

/-- Behind its first word, a text can be cut. -/
theorem apart_dropWhile (first text : List Char) : Apart first (text.dropWhile isWord) := by
  intro _ _ d hd _
  have hstop := List.head?_dropWhile_not isWord text
  rwa [show (text.dropWhile isWord).head? = some d from hd] at hstop

/-- A text is expanded in front of its last word and in this word. -/
theorem expandChars_last_word (text : List Char) :
    expandChars text =
      joined (expandChars (text.rdropWhile isWord)) (expandChars (text.rtakeWhile isWord)) := by
  rw [← (apart_rdropWhile text _).expandChars_append, List.rdropWhile_append_rtakeWhile]

/-- A text is expanded in its first word and behind it. -/
theorem expandChars_first_word (text : List Char) :
    expandChars text =
      joined (expandChars (text.takeWhile isWord)) (expandChars (text.dropWhile isWord)) := by
  rw [← (apart_dropWhile _ text).expandChars_append, List.takeWhile_append_dropWhile]

section Letter

variable {c : Char} (hc : isWord c = true) (hdigit : isDigit c = false)

include hc hdigit

/-- Around a character of a word that is no digit, the whole word is kept. -/
theorem expandChars_around (before after : List Char) :
    expandChars (before ++ c :: after) =
      joined (expandChars (before.rdropWhile isWord))
        (joined (.ok (before.rtakeWhile isWord ++ c :: after.takeWhile isWord))
          (expandChars (after.dropWhile isWord))) := by
  let word := before.rtakeWhile isWord ++ c :: after.takeWhile isWord
  have hsplit : before ++ c :: after =
      before.rdropWhile isWord ++ (word ++ after.dropWhile isWord) := by
    simp only [word, List.append_assoc, List.cons_append, List.takeWhile_append_dropWhile]
    rw [← List.append_assoc, List.rdropWhile_append_rtakeWhile]
  have hword : ∀ d ∈ word, isWord d = true := by
    intro d hd
    rcases List.mem_append.mp hd with hbefore | hafter
    · exact List.mem_rtakeWhile_imp hbefore
    · rcases List.mem_cons.mp hafter with rfl | hafter
      · exact hc
      · exact List.mem_takeWhile_imp hafter
  have hmem : c ∈ word := List.mem_append_right _ List.mem_cons_self
  rw [hsplit, (apart_rdropWhile before _).expandChars_append,
    (apart_dropWhile word after).expandChars_append, expandChars_word hword hmem hdigit]

/-- A letter joins the words around it and is kept, unless it touches a number. -/
theorem expandChars_letter {before after : List Char} (hbefore : ¬EndsInNumber before)
    (hafter : ¬StartsWithNumber after) :
    expandChars (before ++ c :: after) =
      joined (expandChars before) (joined (.ok [c]) (expandChars after)) := by
  have hkept {word : List Char} (hword : ∀ d ∈ word, isWord d = true)
      (hnumber : ¬(word ≠ [] ∧ ∀ d ∈ word, isDigit d = true)) : expandChars word = .ok word := by
    by_cases hne : word = []
    · rw [hne]
      rfl
    · obtain ⟨d, hmem, hd⟩ : ∃ d ∈ word, isDigit d = false := by simpa [hne] using hnumber
      exact expandChars_word hword hmem hd
  have hlast := hkept (fun _ => List.mem_rtakeWhile_imp) hbefore
  have hfirst := hkept (fun _ => List.mem_takeWhile_imp) hafter
  rw [expandChars_around hc hdigit, expandChars_last_word before, expandChars_first_word after,
    hlast, hfirst, joined_assoc, ← joined_assoc (.ok [c]), ← joined_assoc (.ok _)]
  rfl

end Letter

end Runs

end Numeral

end UntypedLambda
