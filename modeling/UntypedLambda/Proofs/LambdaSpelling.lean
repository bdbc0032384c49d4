import UntypedLambda.Proofs.Contraction
import UntypedLambda.Proofs.Lexemes
import UntypedLambda.Proofs.Literals
import UntypedLambda.Proofs.ReachableSession
import UntypedLambda.Proofs.Reading
import UntypedLambda.Proofs.TypedLine

/-!
# Texts with the other lambda

The scanner does not tell the spellings of lambda apart, but numbers are replaced before it reads
the text, and there the Greek letter belongs to a word while the backslash does not. So a text can
be written with Greek letters and spells the same term, unless a number stands directly at a
backslash. Behind a backslash, neither spelling is a term. In front of one, the number is replaced,
and in front of the Greek letter it is not, where it is no token.
-/

namespace UntypedLambda

/-- Trimming ends at characters that are no blanks. -/
theorem Text.trim_append_cons {c : Char} (hc : isBlank c = false) (before after : List Char) :
    trim (before ++ c :: after) =
      before.dropWhile isBlank ++ c :: dropEndWhile isBlank after := by
  have hstart : (before ++ c :: after).dropWhile isBlank =
      before.dropWhile isBlank ++ [c] ++ after := by
    induction before with
    | nil => simp [hc]
    | cons d before ih =>
      by_cases hd : isBlank d = true
      · simpa [hd] using ih
      · simp [hd]
  have hlast : ∀ d ∈ (before.dropWhile isBlank ++ [c]).getLast?, isBlank d = false := by
    simpa using hc
  unfold trim trimWhile
  rw [hstart, dropEndWhile_append hlast, List.append_assoc, List.singleton_append]

/-- Whether every lambda of a row has a name behind it. -/
def LambdasNamed (row : List Token) : Prop :=
  (row.IsChain fun first second => first.kind = .lambda → second.kind = .name) ∧
    ∀ last ∈ row.getLast?, last.kind ≠ .lambda

/-- Rows with names behind all lambdas can be put together. -/
theorem LambdasNamed.append {row row' : List Token} (h : LambdasNamed row)
    (h' : LambdasNamed row') : LambdasNamed (row ++ row') := by
  have hchain : (row ++ row').IsChain fun first second =>
      first.kind = .lambda → second.kind = .name :=
    List.isChain_append.mpr ⟨h.1, h'.1, fun first hfirst _ _ hkind =>
      absurd hkind (h.2 first hfirst)⟩
  refine ⟨hchain, fun last hlast => ?_⟩
  rw [List.getLast?_append] at hlast
  rcases Option.or_eq_some_iff.mp hlast with hlast' | ⟨-, hlast'⟩
  · exact h'.2 last hlast'
  · exact h.2 last hlast'

/-- A token that is no lambda needs no name behind it. -/
theorem lambdasNamed_singleton {token : Token} (h : token.kind ≠ .lambda) :
    LambdasNamed [token] :=
  ⟨List.isChain_singleton token, fun last hlast => by
    obtain rfl := Option.some.inj hlast
    exact h⟩

/-- In a row that the grammar derives, every lambda has a name behind it. -/
theorem Derives.lambdasNamed {phrase : Phrase} {row : List Token} (h : Derives phrase row) :
    LambdasNamed row := by
  have hother {token : Token} {kind : TokenKind} (hkind : token.kind = kind)
      (hne : kind ≠ .lambda) : LambdasNamed [token] :=
    lambdasNamed_singleton (hkind ▸ hne)
  induction h with
  | var isName => exact hother isName nofun
  | @abstraction lambda param dot body isLambda isName isDot _ ih =>
    have hparam : LambdasNamed [lambda, param] := by
      refine ⟨List.isChain_pair.mpr fun _ => isName, fun last hlast => ?_⟩
      obtain rfl : param = last := Option.some.inj hlast
      rw [isName]
      nofun
    exact hparam.append ((hother isDot nofun).append ih)
  | parentheses isOpening isClosing _ ih =>
    exact (hother isOpening nofun).append (ih.append (hother isClosing nofun))
  | noAtoms => exact ⟨List.isChain_nil, nofun⟩
  | moreAtoms _ _ ihh iht => exact ihh.append iht
  | expression _ _ ihh iht => exact ihh.append iht

namespace Scanner

variable {start : Nat} {tokens : List Token} {before after : List Char} {c : Char}

/-- Every character that is no space is part of a token, and the rest of the text is cut behind the
token. -/
theorem Lexes.exists_token (h : Lexes start (before ++ c :: after) tokens)
    (hc : isSpace c = false) :
    ∃ earlier token others prior first last rest next, tokens = earlier ++ token :: others ∧
      before = prior ++ first ∧ after = last ++ rest ∧ Written token (first ++ c :: last) ∧
      Lexes next rest others := by
  have hgoes {gap prior more : List Char} (hgap : ∀ d ∈ gap, isSpace d = true)
      (heq : gap = prior ++ c :: more) : False := by
    have hspace := hgap c (by simp [heq])
    rw [hc] at hspace
    nomatch hspace
  generalize htext : before ++ c :: after = text at h
  induction h generalizing before with
  | ended hgap => exact (hgoes hgap htext.symm).elim
  | @token start gap span rest token others hgap place written stop tail ih =>
    rcases append_eq_append_cons htext.symm with ⟨more, rfl, hmore⟩ | ⟨more, heq, -⟩
    · rcases append_eq_append_cons hmore with ⟨more, rfl, rfl⟩ | ⟨more, rfl, rfl⟩
      · obtain ⟨earlier, token', others', prior, first, last, rest, next, rfl, rfl, rfl, hwritten,
          hrest⟩ := ih rfl
        exact ⟨token :: earlier, token', others', gap ++ (span ++ prior), first, last, rest, next,
          rfl, by simp, rfl, hwritten, hrest⟩
      · exact ⟨[], token, others, gap, _, more, rest, _, rfl, rfl, rfl, written, tail⟩
    · exact (hgoes hgap heq).elim

/-- A digit is part of a name, so a letter or digit stands in front of it. -/
theorem Lexes.exists_isAlphanum (h : Lexes start (before ++ c :: after) tokens)
    (hc : Text.isDigit c = true) : ∃ last ∈ before.getLast?, last.isAlphanum = true := by
  have hspace : isSpace c = false := by
    rw [← Bool.not_eq_true]
    intro hspace
    nomatch (isBlank_of_isSpace hspace).symm.trans (Text.isBlank_of_isDigit hc)
  obtain ⟨_, token, _, prior, first, last, _, _, -, rfl, -, hwritten, -⟩ := h.exists_token hspace
  rcases hwritten.single_or_name with ⟨-, -, hkind⟩ | ⟨head, others, hchars, hletter, hall⟩
  · rcases singleKind?_cases hkind with rfl | rfl | rfl | rfl | rfl <;> nomatch hc
  · cases first with
    | nil =>
      obtain ⟨rfl, -⟩ := List.cons.inj hchars
      nomatch hc.symm.trans (Text.isDigit_of_isAlpha hletter)
    | cons head' others' =>
      have hne : head' :: others' ≠ [] := List.cons_ne_nil _ _
      refine ⟨(head' :: others').getLast hne, ?_, hall _ ?_⟩
      · rw [List.getLast?_append_of_ne_nil _ hne]
        exact List.getLast_mem_getLast? hne
      · exact List.mem_append_left _ (List.getLast_mem hne)

/-- A parenthesis that comes first is the first token. -/
theorem Lexes.exists_opening (h : Lexes start ('(' :: after) tokens) :
    ∃ token others, tokens = token :: others ∧ token.kind = .opening := by
  generalize htext : '(' :: after = text at h
  cases h with
  | ended hgap => nomatch hgap '(' (htext ▸ List.mem_cons_self)
  | @token _ gap span rest token others hgap _ written _ _ =>
    cases gap with
    | cons d gap =>
      obtain ⟨rfl, -⟩ := List.cons.inj htext
      nomatch hgap '(' List.mem_cons_self
    | nil =>
      refine ⟨token, others, rfl, ?_⟩
      cases written with
      | single hkind =>
        obtain ⟨rfl, -⟩ := List.cons.inj htext
        exact (Option.some.inj hkind).symm
      | name hname =>
        obtain ⟨head, _, hchars, hletter, -⟩ := isIdentifier_cases hname
        rw [hchars] at htext
        obtain ⟨rfl, -⟩ := List.cons.inj htext
        nomatch hletter

/-- Behind a lambda with a parenthesis directly behind it, there is no name. -/
theorem Lexes.not_lambdasNamed (h : Lexes start (before ++ '\\' :: '(' :: after) tokens) :
    ¬LambdasNamed tokens := by
  obtain ⟨earlier, token, others, _, first, last, rest, _, rfl, -, hafter, hwritten, hrest⟩ :=
    h.exists_token rfl
  rcases hwritten.single_or_name with ⟨-, rfl, hkind⟩ | ⟨-, -, -, -, hall⟩
  · have hlambda : token.kind = .lambda := (Option.some.inj hkind).symm
    rw [List.nil_append] at hafter
    rw [← hafter] at hrest
    obtain ⟨opening, others, rfl, hopening⟩ := hrest.exists_opening
    rintro ⟨hchain, -⟩
    have hname := (List.isChain_append_cons_cons.mp hchain).2.1 hlambda
    nomatch hname.symm.trans hopening
  · nomatch hall '\\' (by simp)

end Scanner

/-- Whether a text has a digit that no letter or digit stands in front of. -/
def Numeral.HasBareDigit (text : List Char) : Prop :=
  ∃ before c after, text = before ++ c :: after ∧ Text.isDigit c = true ∧
    ∀ last ∈ before.getLast?, last.isAlphanum = false

/-- A text with a digit that no letter or digit stands in front of is not cut into tokens. -/
theorem Numeral.HasBareDigit.not_lexes {text : List Char} (h : HasBareDigit text)
    {tokens : List Token} : ¬Scanner.Lexes 0 (Text.trim text) tokens := by
  obtain ⟨before, c, after, rfl, hc, hbefore⟩ := h
  intro hlexes
  rw [Text.trim_append_cons (Text.isBlank_of_isDigit hc)] at hlexes
  obtain ⟨last, hlast, halphanum⟩ := hlexes.exists_isAlphanum hc
  obtain ⟨skipped, hsplit⟩ := List.dropWhile_suffix (l := before) Text.isBlank
  have hmem : last ∈ before.getLast? := by
    rw [← hsplit, List.getLast?_append]
    exact Option.or_eq_some_iff.mpr (.inl hlast)
  nomatch halphanum.symm.trans (hbefore last hmem)

namespace Term

/-- A text spells a term if the tokens that it is cut into do. -/
theorem parse_eq_ok_iff_lexes {text : List Char} {tree : Term} :
    Term.parse (String.ofList text) = .ok tree ↔ ∃ row eof,
      Scanner.Lexes 0 (Text.trim text) (row ++ [eof]) ∧ eof.kind = .endOfInput ∧
        Reads (.after none) row [] tree := by
  have hlexes (tokens : List Token) :
      (Scanner.ofString (String.ofList text)).tokenize.1 = .ok tokens ↔
        Scanner.Lexes 0 (Text.trim text) tokens := by
    rw [Scanner.tokenize_eq_ok_iff_lexes]
    change Scanner.Lexes 0 (Text.trim (String.ofList text).toList) tokens ↔ _
    rw [String.toList_ofList]
  rw [parse_eq_ok_iff]
  constructor
  · rintro ⟨row, between, eof, after, hscans, hlast, hend, hreads⟩
    have htokenize := Scanner.tokenize_eq_ok_iff.mpr ⟨row, between, eof, hscans, hlast, hend, rfl⟩
    exact ⟨row, eof, (hlexes _).mp (congrArg Prod.fst htokenize), hend, hreads⟩
  · rintro ⟨row, eof, htokens, -, hreads⟩
    obtain ⟨row', between, eof', hscans, hlast, hend, heq⟩ :=
      Scanner.tokenize_eq_ok_iff.mp (Prod.ext ((hlexes _).mpr htokens) rfl)
    obtain ⟨rfl, -⟩ := List.append_inj' heq rfl
    exact ⟨row, between, eof', _, hscans, hlast, hend, hreads⟩

/-- A text spells the same term with other spellings of lambda. -/
theorem parse_respelled {text other : List Char}
    (h : other.map Scanner.canonical = text.map Scanner.canonical) :
    (Term.parse (String.ofList other)).toOption = (Term.parse (String.ofList text)).toOption := by
  have hof {text other : List Char} {tree : Term}
      (h : other.map Scanner.canonical = text.map Scanner.canonical)
      (hparse : Term.parse (String.ofList text) = .ok tree) :
      Term.parse (String.ofList other) = .ok tree := by
    obtain ⟨row, eof, hlexes, hend, hreads⟩ := parse_eq_ok_iff_lexes.mp hparse
    have htrim : (Text.trim other).map Scanner.canonical =
        (Text.trim text).map Scanner.canonical := by
      rw [← Scanner.trim_map_canonical, h, Scanner.trim_map_canonical]
    exact parse_eq_ok_iff_lexes.mpr ⟨row, eof, hlexes.respell htrim, hend, hreads⟩
  ext tree
  rw [toOption_eq_some, toOption_eq_some]
  exact ⟨hof h.symm, hof h⟩

/-- A text with a digit that no letter or digit stands in front of spells no term. -/
theorem parse_of_hasBareDigit {text : List Char} (h : Numeral.HasBareDigit text) (tree : Term) :
    Term.parse (String.ofList text) ≠ .ok tree := by
  intro hparse
  obtain ⟨row, eof, hlexes, -, -⟩ := parse_eq_ok_iff_lexes.mp hparse
  exact h.not_lexes hlexes

/-- A text with a parenthesis directly behind a lambda spells no term. -/
theorem parse_lambda_opening (before after : List Char) (tree : Term) :
    Term.parse (String.ofList (before ++ '\\' :: '(' :: after)) ≠ .ok tree := by
  intro hparse
  obtain ⟨row, eof, hlexes, hend, hreads⟩ := parse_eq_ok_iff_lexes.mp hparse
  have hopening : Text.dropEndWhile Text.isBlank ('(' :: after) =
      '(' :: Text.dropEndWhile Text.isBlank after := by
    have hlast : ∀ c ∈ ['('].getLast?, Text.isBlank c = false := fun c hc => by
      obtain rfl := Option.some.inj hc
      decide
    exact Text.dropEndWhile_append hlast after
  rw [Text.trim_append_cons (by decide), hopening] at hlexes
  have hlast : LambdasNamed [eof] := lambdasNamed_singleton (hend ▸ nofun)
  exact hlexes.not_lambdasNamed (hreads.derives.lambdasNamed.append hlast)

end Term

namespace Numeral

open Text
open Scanner (canonical)

/-- Whether a number stands alone directly in front of a character. -/
def NumberBefore (c : Char) (text : List Char) : Prop :=
  ∃ before after, text = before ++ c :: after ∧ EndsInNumber before

/-- A number directly in front of a character can be looked for at each place of a text. -/
instance (c : Char) (text : List Char) : Decidable (NumberBefore c text) :=
  decidable_of_iff (((List.range text.length).any fun i =>
      decide (text[i]? = some c ∧ EndsInNumber (text.take i))) = true) <| by
    rw [List.any_eq_true]
    constructor
    · rintro ⟨i, -, hplace⟩
      obtain ⟨hi, hnumber⟩ := of_decide_eq_true hplace
      obtain ⟨hlt, rfl⟩ := List.getElem?_eq_some_iff.mp hi
      exact ⟨text.take i, text.drop (i + 1), by simp, hnumber⟩
    · rintro ⟨before, after, rfl, hnumber⟩
      refine ⟨before.length, by simp, decide_eq_true ⟨by simp, ?_⟩⟩
      rwa [List.take_left]

/-- Whether a number stands alone directly behind a character. -/
def NumberBehind (c : Char) (text : List Char) : Prop :=
  ∃ before after, text = before ++ c :: after ∧ StartsWithNumber after

/-- The Greek letter belongs to a word, and is no digit. -/
theorem isWord_lambda : isWord 'λ' = true ∧ isDigit 'λ' = false := by decide +kernel

/-- The backslash belongs to no word. -/
theorem isWord_backslash : isWord '\\' = false := by decide +kernel

/-- The backslash is spelled as the Greek letter. -/
theorem canonical_backslash : canonical '\\' = 'λ' := rfl

/-- Any other character than a backslash is its own spelling. -/
theorem canonical_of_ne {c : Char} (h : c ≠ '\\') : canonical c = c := if_neg h

/-- A text without backslashes is its own spelling. -/
theorem map_canonical_of_notMem {text : List Char} (h : '\\' ∉ text) :
    text.map canonical = text :=
  (List.map_congr_left fun _ hc => canonical_of_ne (ne_of_mem_of_not_mem hc h)).trans
    (List.map_id text)

/-- A digit is no backslash. -/
theorem ne_backslash_of_isDigit {c : Char} (h : isDigit c = true) : c ≠ '\\' := by
  rintro rfl
  nomatch h

/-- What is done with the characters of texts that are put together is done with each text. -/
theorem map_joined (f : Char → Char) (a b : Except Fault (List Char)) :
    (joined a b).map (List.map f) = joined (a.map (List.map f)) (b.map (List.map f)) := by
  cases a with
  | error fault => rfl
  | ok a =>
    cases b with
    | error fault => rfl
    | ok b => exact congrArg Except.ok List.map_append

/-- The last word of a text goes back no further than a character that belongs to no word. -/
theorem rtakeWhile_append_cons {c : Char} (hc : isWord c = false) (before after : List Char) :
    (before ++ c :: after).rtakeWhile isWord = after.rtakeWhile isWord := by
  induction after using List.reverseRecOn with
  | nil => rw [List.rtakeWhile_concat, hc, if_neg Bool.false_ne_true, List.rtakeWhile_nil]
  | append_singleton after d ih =>
    rw [← List.cons_append, ← List.append_assoc, List.rtakeWhile_concat, List.rtakeWhile_concat, ih]

/-- Word characters at the end of a text belong to its last word. -/
theorem rtakeWhile_append_word {word : List Char} (hword : ∀ c ∈ word, isWord c = true)
    (before : List Char) :
    (before ++ word).rtakeWhile isWord = before.rtakeWhile isWord ++ word ∧
      (before ++ word).rdropWhile isWord = before.rdropWhile isWord := by
  induction word using List.reverseRecOn with
  | nil => simp
  | append_singleton word d ih =>
    obtain ⟨htake, hdrop⟩ := ih fun c hc => hword c (List.mem_append_left _ hc)
    have hd : isWord d = true := hword d (List.mem_append_right _ (List.mem_singleton_self d))
    rw [← List.append_assoc, List.rtakeWhile_concat, List.rdropWhile_concat, if_pos hd, if_pos hd,
      htake, hdrop]
    exact ⟨List.append_assoc _ _ _, rfl⟩

/-- A number in front of a mark stays one behind another text. -/
theorem NumberBefore.append_cons {c : Char} {text : List Char} (hc : isWord c = false)
    (h : NumberBefore c text) (earlier : List Char) : NumberBefore c (earlier ++ c :: text) := by
  obtain ⟨before, after, rfl, hnumber⟩ := h
  refine ⟨earlier ++ c :: before, after, by simp, ?_⟩
  rwa [EndsInNumber, rtakeWhile_append_cons hc]

/-- A number behind a mark stays one behind another text. -/
theorem NumberBehind.append_cons {c : Char} {text : List Char} (h : NumberBehind c text)
    (earlier : List Char) : NumberBehind c (earlier ++ c :: text) := by
  obtain ⟨before, after, rfl, hnumber⟩ := h
  exact ⟨earlier ++ c :: before, after, by simp, hnumber⟩

/-- If a text with Greek letters starts with a number, its first word is the same with
backslashes. -/
theorem takeWhile_map_canonical {text : List Char}
    (hdigits : ∀ c ∈ (text.map canonical).takeWhile isWord, isDigit c = true) :
    (text.map canonical).takeWhile isWord = text.takeWhile isWord := by
  induction text with
  | nil => rfl
  | cons c text ih =>
    rw [List.map_cons] at hdigits ⊢
    by_cases hmark : c = '\\'
    · rw [hmark, canonical_backslash, List.takeWhile_cons_of_pos isWord_lambda.1] at hdigits
      nomatch (hdigits 'λ' List.mem_cons_self).symm.trans isWord_lambda.2
    · rw [canonical_of_ne hmark] at hdigits ⊢
      by_cases hword : isWord c = true
      · rw [List.takeWhile_cons_of_pos hword] at hdigits
        rw [List.takeWhile_cons_of_pos hword, List.takeWhile_cons_of_pos hword,
          ih fun d hd => hdigits d (List.mem_cons_of_mem c hd)]
      · rw [List.takeWhile_cons_of_neg hword, List.takeWhile_cons_of_neg hword]

/-- With Greek letters, a text starts with a number only if it does so with backslashes. -/
theorem StartsWithNumber.of_map_canonical {text : List Char}
    (h : StartsWithNumber (text.map canonical)) : StartsWithNumber text := by
  rwa [StartsWithNumber, takeWhile_map_canonical h.2] at h

/-- If no number stands directly at a backslash, the numbers of the text are replaced alike with
both spellings of lambda. -/
theorem expandChars_respelled (text : List Char) (hbefore : ¬NumberBefore '\\' text)
    (hbehind : ¬NumberBehind '\\' text) :
    (expandChars (text.map canonical)).map (List.map canonical) =
      (expandChars text).map (List.map canonical) := by
  -- The text is cut at its first backslash, and the part behind it is shorter.
  induction hlength : text.length using Nat.strong_induction_on generalizing text with
  | _ n ih =>
    by_cases hmem : '\\' ∈ text
    · obtain ⟨before, after, rfl, hfirst⟩ := List.eq_append_cons_of_mem hmem
      have hleft : ¬EndsInNumber before := fun h => hbefore ⟨before, after, rfl, h⟩
      have hright : ¬StartsWithNumber (after.map canonical) := fun h =>
        hbehind ⟨before, after, rfl, h.of_map_canonical⟩
      have hshorter : after.length < n := by
        rw [← hlength, List.length_append, List.length_cons]
        omega
      have hrest := ih _ hshorter after (fun h => hbefore (h.append_cons isWord_backslash before))
        (fun h => hbehind (h.append_cons before)) rfl
      rw [List.map_append, List.map_cons, map_canonical_of_notMem hfirst, canonical_backslash,
        expandChars_letter isWord_lambda.1 isWord_lambda.2 hleft hright,
        expandChars_mark isWord_backslash, map_joined, map_joined, map_joined, map_joined, hrest]
      rfl
    · rw [map_canonical_of_notMem hmem]

variable {text : List Char}

/-- Behind a backslash, a number is replaced by a parenthesis. -/
theorem NumberBehind.exists_opening (h : NumberBehind '\\' text) {result : List Char}
    (hresult : expandChars text = .ok result) :
    ∃ before after, result = before ++ '\\' :: '(' :: after := by
  obtain ⟨before, after, rfl, hne, hdigits⟩ := h
  rw [expandChars_mark isWord_backslash, expandChars_first_word after,
    expandChars_run hne fun _ => List.mem_takeWhile_imp] at hresult
  obtain ⟨first, rest, -, hrest, rfl⟩ := joined_eq_ok_iff.mp hresult
  obtain ⟨mark, others, hmark, hothers, rfl⟩ := joined_eq_ok_iff.mp hrest
  obtain ⟨number, last, hnumber, -, rfl⟩ := joined_eq_ok_iff.mp hothers
  obtain ⟨n, rfl⟩ := exists_block_of_digits hdigits hnumber
  obtain rfl := Except.ok.inj hmark
  exact ⟨first, _, rfl⟩

/-- Behind a Greek letter, a number is kept. -/
theorem NumberBehind.hasBareDigit (h : NumberBehind '\\' text) {result : List Char}
    (hresult : expandChars (text.map canonical) = .ok result) : HasBareDigit result := by
  obtain ⟨before, after, rfl, hne, hdigits⟩ := h
  cases after with
  | nil => exact absurd rfl hne
  | cons d after =>
    have hword : isWord d = true := by
      by_contra hword
      exact hne (List.takeWhile_cons_of_neg hword)
    have hd : isDigit d = true :=
      hdigits d (by rw [List.takeWhile_cons_of_pos hword]; exact List.mem_cons_self)
    rw [List.map_append, List.map_cons, canonical_backslash, List.map_cons,
      canonical_of_ne (ne_backslash_of_isDigit hd),
      expandChars_around isWord_lambda.1 isWord_lambda.2, List.takeWhile_cons_of_pos hword]
      at hresult
    obtain ⟨first, rest, -, hrest, rfl⟩ := joined_eq_ok_iff.mp hresult
    obtain ⟨word, others, hkept, -, rfl⟩ := joined_eq_ok_iff.mp hrest
    obtain rfl := Except.ok.inj hkept
    refine ⟨first ++ ((before.map canonical).rtakeWhile isWord ++ ['λ']), d,
      (after.map canonical).takeWhile isWord ++ others, by simp, hd, ?_⟩
    simp

/-- No letter or digit is last in a text with Greek letters, if no word character is last in the
text with backslashes. -/
theorem not_isAlphanum_last {text result : List Char}
    (hlast : ∀ c ∈ text.getLast?, isWord c = false)
    (hresult : expandChars ((text.map canonical).rdropWhile isWord) = .ok result) :
    ∀ c ∈ (result ++ (text.map canonical).rtakeWhile isWord).getLast?, c.isAlphanum = false := by
  rcases List.eq_nil_or_concat text with rfl | ⟨earlier, c, rfl⟩
  · obtain rfl := Except.ok.inj hresult
    nofun
  rw [List.concat_eq_append] at hlast hresult ⊢
  have hc : isWord c = false := hlast c (by simp)
  rw [List.map_append, List.map_singleton] at hresult ⊢
  by_cases hmark : c = '\\'
  · rw [hmark, canonical_backslash, List.rtakeWhile_concat_pos _ _ _ isWord_lambda.1]
    simp
  · rw [canonical_of_ne hmark] at hresult ⊢
    have hword : ¬isWord c = true := Bool.not_eq_true _ ▸ hc
    rw [List.rdropWhile_concat_neg _ _ _ hword, expandChars_mark hc] at hresult
    obtain ⟨first, rest, -, hrest, rfl⟩ := joined_eq_ok_iff.mp hresult
    obtain rfl := Except.ok.inj hrest
    rw [List.rtakeWhile_concat_neg _ _ _ hword]
    have hother : c.isAlphanum = false := by
      rw [← Bool.not_eq_true]
      exact fun h => hword (isWord_of_isAlphanum h)
    simpa using hother

/-- In front of a Greek letter, a number is kept. -/
theorem NumberBefore.hasBareDigit (h : NumberBefore '\\' text) {result : List Char}
    (hresult : expandChars (text.map canonical) = .ok result) : HasBareDigit result := by
  obtain ⟨before, after, rfl, hne, hdigits⟩ := h
  -- A backslash in front of the number is a letter now, so the word may start further left.
  let earlier := (before.rdropWhile isWord).map canonical
  let number := before.rtakeWhile isWord
  have hsplit : before.map canonical = earlier ++ number := by
    have hkept : number.map canonical = number := map_canonical_of_notMem fun hmem =>
      ne_backslash_of_isDigit (hdigits _ hmem) rfl
    rw [← hkept, ← List.map_append, List.rdropWhile_append_rtakeWhile]
  have hnumber : ∀ c ∈ number, isWord c = true := fun _ => List.mem_rtakeWhile_imp
  obtain ⟨htake, hdrop⟩ := rtakeWhile_append_word hnumber earlier
  rw [List.map_append, List.map_cons, canonical_backslash, hsplit,
    expandChars_around isWord_lambda.1 isWord_lambda.2, htake, hdrop] at hresult
  obtain ⟨first, rest, hfirst, hrest, rfl⟩ := joined_eq_ok_iff.mp hresult
  obtain ⟨word, others, hkept, -, rfl⟩ := joined_eq_ok_iff.mp hrest
  obtain rfl := Except.ok.inj hkept
  obtain ⟨d, more, hcons⟩ := List.exists_cons_of_ne_nil hne
  refine ⟨first ++ earlier.rtakeWhile isWord, d,
    more ++ 'λ' :: (after.map canonical).takeWhile isWord ++ others, ?_, ?_, ?_⟩
  · simp [number, hcons]
  · exact hdigits d (by rw [hcons]; exact List.mem_cons_self)
  · refine not_isAlphanum_last (fun c hc => ?_) hfirst
    obtain ⟨hmem, rfl⟩ := List.mem_getLast?_eq_getLast hc
    simpa using List.rdropWhile_last_not _ _ hmem

end Numeral

namespace Session

/-- A text is read as its characters are, after their numbers have been replaced. -/
theorem toOption_read (s : Session) (text : List Char) :
    (s.read (String.ofList text)).toOption = (Numeral.expandChars text).toOption.bind fun chars =>
      (Term.parse (String.ofList chars)).toOption.map s.definitions.expand := by
  unfold read readLiterals
  rw [Numeral.expandLiterals_eq, String.toList_ofList]
  cases Numeral.expandChars text with
  | error fault => rfl
  | ok chars =>
    change ((Term.parse (String.ofList chars)).map s.definitions.expand).toOption =
      (Term.parse (String.ofList chars)).toOption.map s.definitions.expand
    cases Term.parse (String.ofList chars) <;> rfl

/-- A text is not read if no characters that it is replaced by spell a term. -/
theorem toOption_read_eq_none (s : Session) {text : List Char}
    (h : ∀ chars tree, Numeral.expandChars text = .ok chars →
      Term.parse (String.ofList chars) ≠ .ok tree) :
    (s.read (String.ofList text)).toOption = none := by
  rw [toOption_read]
  cases hchars : Numeral.expandChars text with
  | error fault => rfl
  | ok chars =>
    change (Term.parse (String.ofList chars)).toOption.map s.definitions.expand = none
    cases hparse : Term.parse (String.ofList chars) with
    | error fault => rfl
    | ok tree => exact absurd hparse (h chars tree hchars)

/-- With Greek letters in place of all backslashes, a text is read as the same term or fails as
well, unless a number stands alone directly in front of a backslash; then it fails. -/
theorem read_respelled (s : Session) (text : String) :
    let other := String.ofList (text.toList.map Scanner.canonical)
    (¬Numeral.NumberBefore '\\' text.toList →
        (s.read other).toOption = (s.read text).toOption) ∧
      (Numeral.NumberBefore '\\' text.toList → (s.read other).toOption = none) := by
  intro other
  have htext : String.ofList text.toList = text := String.ofList_toList
  refine ⟨fun hbefore => ?_, fun hbefore => ?_⟩
  · by_cases hbehind : Numeral.NumberBehind '\\' text.toList
    · have hread : (s.read text).toOption = none := by
        rw [← htext]
        refine s.toOption_read_eq_none fun chars tree hchars => ?_
        obtain ⟨before, after, rfl⟩ := hbehind.exists_opening hchars
        exact Term.parse_lambda_opening before after tree
      rw [hread]
      exact s.toOption_read_eq_none fun chars tree hchars =>
        Term.parse_of_hasBareDigit (hbehind.hasBareDigit hchars) tree
    · have hrespelled := Numeral.expandChars_respelled text.toList hbefore hbehind
      rw [← htext, toOption_read, toOption_read]
      cases hgreek : Numeral.expandChars (text.toList.map Scanner.canonical) <;>
        cases hchars : Numeral.expandChars text.toList <;> rw [hgreek, hchars] at hrespelled
      case error.error => rfl
      case error.ok => nomatch hrespelled
      case ok.error => nomatch hrespelled
      case ok.ok greek chars =>
        exact congrArg (Option.map _) (Term.parse_respelled (Except.ok.inj hrespelled))
  · exact s.toOption_read_eq_none fun chars tree hchars =>
      Term.parse_of_hasBareDigit (hbefore.hasBareDigit hchars) tree

/-- A text with numbers elsewhere than at its backslashes, and one that is not read with Greek
letters. -/
theorem read_respelled_numbers :
    let s := start inputPath default true (.start true)
    (¬Numeral.NumberBefore '\\' "\\x.x 1".toList ∧
        (s.read "λx.x 1").toOption = (s.read "\\x.x 1").toOption) ∧
      Numeral.NumberBefore '\\' "1\\x.x".toList ∧ (s.read "1λx.x").toOption = none := by
  intro s
  have hnone : ¬Numeral.NumberBefore '\\' "\\x.x 1".toList := by decide +kernel
  have hnumber : Numeral.NumberBefore '\\' "1\\x.x".toList := by decide +kernel
  exact ⟨⟨hnone, (read_respelled s "\\x.x 1").1 hnone⟩, hnumber,
    (read_respelled s "1\\x.x").2 hnumber⟩

/-- A number is applied to a function that starts with a backslash, and with the Greek letter the
text spells no term. -/
theorem read_number_before_lambda :
    let s := start inputPath default true (.start true)
    Reachable s ∧
      (s.read "1\\x.x").toOption = some (.app (.numeral 1) (.abs "x" (.var "x"))) ∧
      (s.read (String.ofList ("1\\x.x".toList.map Scanner.canonical))).toOption = none := by
  intro s
  exact ⟨.start _ _ _ _, by decide +kernel, by decide +kernel⟩

end Session

end UntypedLambda
