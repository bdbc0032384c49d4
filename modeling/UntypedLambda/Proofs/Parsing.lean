import UntypedLambda.Proofs.Completion

/-!
# The parser and the grammar

No turn changes the terms that the stack and the tokens before the end of input come to, and a turn
that refuses a token does so where they come to no term. Hence the parser reads the rows that the
grammar derives and no others, and reads a row as the term that it spells.
-/

namespace UntypedLambda.Parser

/-- The tokens before the first end of input. -/
def beforeEnd (left : List Token) : List Token :=
  left.takeWhile fun token => token.kind ≠ .endOfInput

variable {stack : Stack} {token : Token} {left rest : List Token} {tree : Term}

/-- Nothing is before an end of input that comes first. -/
theorem beforeEnd_of_end (h : token.kind = .endOfInput) : beforeEnd (token :: rest) = [] := by
  simp [beforeEnd, h]

/-- Any other token is before the end of input. -/
theorem beforeEnd_of_ne {kind : TokenKind} (hkind : token.kind = kind)
    (hmore : kind ≠ .endOfInput) : beforeEnd (token :: rest) = token :: beforeEnd rest := by
  simp [beforeEnd, hkind, hmore]

/-- The first token before the end of input is the first token, if there is one. -/
theorem eq_of_mem_head?_beforeEnd {seen : Token}
    (h : seen ∈ (beforeEnd (token :: rest)).head?) : seen = token ∧ token.kind ≠ .endOfInput := by
  by_cases hend : token.kind = .endOfInput
  · rw [beforeEnd_of_end hend] at h
    nomatch h
  · rw [beforeEnd_of_ne rfl hend] at h
    exact ⟨(Option.some.inj h).symm, hend⟩

/-- What the parser may conclude from a turn: the terms that the stack and the tokens come to are
known, or stay the same, or there are none. -/
def Decides (stack : Stack) (left : List Token) : Outcome → Prop
  | .done result => ∀ tree, Completes stack (beforeEnd left) tree ↔ result = tree
  | .more stack' left' => ∀ tree,
    Completes stack (beforeEnd left) tree ↔ Completes stack' (beforeEnd left') tree
  | .refused _ _ _ => ∀ tree, ¬ Completes stack (beforeEnd left) tree

/-- In front of a token that ends an application, the innermost expression has been read. -/
theorem completes_stop {kind : TokenKind} (hkind : token.kind = kind)
    (hstop : stops kind = true) : Completes stack (beforeEnd (token :: rest)) tree ↔
      ∃ inner, stack.tree = some inner ∧ Closes stack (beforeEnd (token :: rest)) inner tree := by
  refine completes_at_stop fun seen hseen => ?_
  rw [(eq_of_mem_head?_beforeEnd hseen).1, hkind]
  exact hstop

/-- Nothing is completed in front of a dot. -/
theorem not_completes_dot (h : token.kind = .dot) :
    ¬ Completes stack (beforeEnd (token :: rest)) tree := by
  rw [completes_stop h rfl, beforeEnd_of_ne h nofun]
  rintro ⟨inner, -, closes⟩
  have hclosing := closes.isClosing
  rw [h] at hclosing
  nomatch hclosing

/-- A body that is closed leaves the same terms. -/
theorem decides_closeBody {root : Option Term} {outer : List Pending} {param : String}
    {inner : Term} (hstop : stops token.kind = true) :
    Completes ⟨root, ⟨.abstraction param, some inner⟩ :: outer⟩ (beforeEnd (token :: rest)) tree ↔
      Completes (Stack.push ⟨root, outer⟩ (.abs param inner)) (beforeEnd (token :: rest)) tree := by
  -- A dot ends the body as well, although a body cannot end there.
  by_cases hdot : token.kind = .dot
  · exact iff_of_false (not_completes_dot hdot) (not_completes_dot hdot)
  rw [completes_stop rfl hstop]
  constructor
  · rintro ⟨read, hread, -, outside⟩
    obtain rfl : inner = read := Option.some.inj hread
    exact outside
  · intro outside
    refine ⟨inner, rfl, fun seen hseen => ?_, outside⟩
    obtain ⟨rfl, hmore⟩ := eq_of_mem_head?_beforeEnd hseen
    cases hkind : seen.kind <;> simp_all [stops]

/-- The lexeme of a name is what it spells. -/
theorem lexeme_of_spells (isName : token.kind = .name) {text : String}
    (spells : token.value = some text) : token.lexeme = text := by
  simp [Token.lexeme, isName, spells]

/-- Every turn decides what its stack comes to, or keeps it. -/
theorem Turns.decides {outcome : Outcome} (h : Turns stack left outcome) (hspelled : Spelled left) :
    Decides stack left outcome := by
  cases h with
  | @finish result token rest ended =>
    intro tree
    rw [beforeEnd_of_end ended, completes_outermost, reads_nil, Option.some.injEq]
  | @closeGroup root outer inner closing rest isClosing =>
    intro tree
    rw [completes_stop isClosing rfl, beforeEnd_of_ne isClosing nofun]
    constructor
    · rintro ⟨read, hread, closing', rest', heq, -, outside⟩
      obtain rfl : inner = read := Option.some.inj hread
      rwa [(List.cons.inj heq).2]
    · intro outside
      exact ⟨inner, rfl, closing, _, rfl, isClosing, outside⟩
  | closeBody stop => exact fun tree => decides_closeBody stop
  | @var _ name rest isName =>
    intro tree
    obtain ⟨text, spells⟩ := hspelled name List.mem_cons_self isName
    rw [beforeEnd_of_ne isName nofun, completes_var isName spells,
      lexeme_of_spells isName spells]
  | @openBody _ lambda param dot rest isLambda isName isDot =>
    intro tree
    obtain ⟨text, spells⟩ := hspelled param (by simp) isName
    rw [beforeEnd_of_ne isLambda nofun, beforeEnd_of_ne isName nofun,
      beforeEnd_of_ne isDot nofun, completes_lambda isLambda,
      lexeme_of_spells isName spells]
    constructor
    · rintro ⟨param', dot', text', rest', heq, -, spells', -, h⟩
      obtain ⟨rfl, htail⟩ := List.cons.inj heq
      obtain rfl := Option.some.inj (spells.symm.trans spells')
      rwa [(List.cons.inj htail).2]
    · exact fun h => ⟨param, dot, text, _, rfl, isName, spells, isDot, h⟩
  | @openGroup _ opening rest isOpening =>
    intro tree
    rw [beforeEnd_of_ne isOpening nofun, completes_opening isOpening]
  | refuseEnd stop goesOn =>
    intro tree
    rw [completes_stop rfl stop, beforeEnd_of_ne rfl goesOn]
    rintro ⟨_, -, closes⟩
    nomatch closes.1
  | @refuseGroup root outer inner token rest stop isOpen =>
    intro tree
    rw [completes_stop rfl stop]
    rintro ⟨_, -, closing, rest', heq, isClosing, -⟩
    obtain ⟨rfl, -⟩ := eq_of_mem_head?_beforeEnd (congrArg List.head? heq)
    exact isOpen isClosing
  | @refuseParam _ lambda token rest isLambda noName =>
    intro tree
    rw [beforeEnd_of_ne isLambda nofun, completes_lambda isLambda]
    rintro ⟨param, _, _, _, heq, isName, -⟩
    obtain ⟨rfl, -⟩ := eq_of_mem_head?_beforeEnd (congrArg List.head? heq)
    exact noName isName
  | @refuseDot _ lambda param token rest isLambda isName noDot =>
    intro tree
    rw [beforeEnd_of_ne isLambda nofun, beforeEnd_of_ne isName nofun,
      completes_lambda isLambda]
    rintro ⟨_, dot, _, _, heq, -, -, isDot, -⟩
    obtain ⟨rfl, -⟩ := eq_of_mem_head?_beforeEnd
      (congrArg List.head? (List.cons.inj heq).2)
    exact noDot isDot
  | refuseAtom unread stop =>
    intro tree
    rw [completes_stop rfl stop, unread]
    rintro ⟨_, hread, -⟩
    nomatch hread

/-- A turn leaves an end of input ahead. -/
theorem Turns.endAhead {stack' : Stack} {left' : List Token}
    (h : Turns stack left (.more stack' left')) (hend : EndAhead left) : EndAhead left' := by
  cases h with
  | closeGroup isClosing => exact hend.tail isClosing nofun
  | closeBody stop => exact hend
  | var isName => exact hend.tail isName nofun
  | openBody isLambda isName isDot =>
    have hparam := hend.tail isLambda nofun
    have hdot := hparam.tail isName nofun
    exact hdot.tail isDot nofun
  | openGroup isOpening => exact hend.tail isOpening nofun

/-- A turn leaves no other tokens than were left before. -/
theorem Turns.subset {stack' : Stack} {left' : List Token}
    (h : Turns stack left (.more stack' left')) : left' ⊆ left := by
  cases h <;> intro seen hseen <;> simp [hseen]

/-- A token that is refused was left, and what was expected is told without braces. -/
theorem Turns.refused {expected : String} {behind : List Token}
    (h : Turns stack left (.refused token expected behind)) :
    token ∈ left ∧ Template.Plain expected := by
  cases h <;> exact ⟨by simp, by decide +kernel⟩

/-- What comes of parsing on: a term that is the only one that the stack and the tokens come to, or
the report of one of the tokens that are left if they come to none. -/
def Settles (stack : Stack) (p : Parser) : EStateM.Result Fault Parser Term → Prop
  | .ok result p' => p'.tokens = p.tokens ∧
    ∀ tree, Completes stack (beforeEnd p.remaining) tree ↔ result = tree
  | .error fault _ =>
    (∃ token ∈ p.remaining, ∃ expected,
      fault.Reports (.unexpectedToken token expected p.source)) ∧
      ∀ tree, ¬ Completes stack (beforeEnd p.remaining) tree

/-- What settles a stack after a turn settles the stack before it. -/
theorem Settles.of_turn {stack' : Stack} {p p' : Parser} {result : EStateM.Result Fault Parser Term}
    (h : Settles stack' p' result) (htokens : p'.tokens = p.tokens) (hsource : p'.source = p.source)
    (hsubset : p'.remaining ⊆ p.remaining)
    (hsame : Decides stack p.remaining (.more stack' p'.remaining)) : Settles stack p result := by
  cases result with
  | ok tree q => exact ⟨h.1.trans htokens, fun tree' => (hsame tree').trans (h.2 tree')⟩
  | error fault q =>
    obtain ⟨⟨token, hmem, expected, hreports⟩, hnone⟩ := h
    rw [hsource] at hreports
    exact ⟨⟨token, hsubset hmem, expected, hreports⟩, fun tree => mt (hsame tree).mp (hnone tree)⟩

section Turns

variable {p p' : Parser}

/-- Parsing ends with a turn that reads the whole term. -/
theorem parseFrom_of_done (h : turn stack p = .ok (.done tree) p') :
    parseFrom stack p = .ok tree p' := by
  rw [parseFrom]
  split <;> simp_all

/-- Parsing goes on after a turn that leaves more to read. -/
theorem parseFrom_of_more {stack' : Stack} (h : turn stack p = .ok (.more stack') p') :
    parseFrom stack p = parseFrom stack' p' := by
  rw [parseFrom]
  split <;> simp_all

/-- Parsing fails with a turn that does. -/
theorem parseFrom_of_error {fault : Fault} (h : turn stack p = .error fault p') :
    parseFrom stack p = .error fault p' := by
  rw [parseFrom]
  split <;> simp_all

end Turns

/-- With an end of input ahead and no name that spells nothing, parsing on settles what the stack
and the tokens come to. -/
theorem parseFrom_settles (stack : Stack) (p : Parser) (hend : EndAhead p.remaining)
    (hspelled : Spelled p.remaining) : Settles stack p (parseFrom stack p) := by
  -- A turn can leave all tokens, but it always leaves less to do.
  induction hwork : workLeft stack p using Nat.strongRecOn generalizing stack p with
  | _ work ih =>
    subst hwork
    obtain ⟨outcome, hrule, hends⟩ := turn_endsIn stack hend
    cases outcome with
    | done result =>
      rw [parseFrom_of_done hends]
      exact ⟨rfl, hrule.decides hspelled⟩
    | more stack' left' =>
      obtain ⟨p', hturn, htokens, hsource, rfl⟩ := hends
      have hend' := hrule.endAhead hend
      have hspelled' : Spelled p'.remaining := fun token hmem =>
        hspelled token (hrule.subset hmem)
      have hrest := ih _ (workLeft_turn_lt hturn) stack' p' hend' hspelled' rfl
      rw [parseFrom_of_more hturn]
      exact hrest.of_turn htokens hsource hrule.subset (hrule.decides hspelled)
    | refused token expected behind =>
      obtain ⟨p', hturn, -⟩ := hends
      obtain ⟨hmem, hplain⟩ := hrule.refused
      have hname := hspelled.isNameless_eq_false hmem
      have hreports := Problem.unexpectedToken_reports hname hplain p.source
      rw [parseFrom_of_error hturn]
      exact ⟨⟨token, hmem, expected, hreports⟩, hrule.decides hspelled⟩

/-- No token among those that spell something is passed as a name that spells nothing. -/
theorem passedNameless_eq_false {p : Parser} (hspelled : Spelled p.tokens.toList) (start : Nat) :
    p.passedNameless start = false := by
  unfold passedNameless
  rw [Array.any_eq_false']
  intro token hmem
  rw [Array.mem_extract_iff_getElem] at hmem
  obtain ⟨k, hk, rfl⟩ := hmem
  rw [hspelled.isNameless_eq_false (Array.getElem_mem_toList _)]
  exact Bool.false_ne_true

/-- Parsing a whole row settles what it is read as. -/
theorem parse_settles {p : Parser} (hend : EndAhead p.remaining)
    (hspelled : Spelled p.tokens.toList) : Settles ⟨none, []⟩ p (parse p) := by
  have hleft : Spelled p.remaining := fun token hmem =>
    hspelled token (List.mem_of_mem_drop hmem)
  have hsettles := parseFrom_settles ⟨none, []⟩ p hend hleft
  unfold parse
  rw [Action.bind_of_ok (Action.get_eq_ok.mpr ⟨rfl, rfl⟩)]
  cases hfrom : parseFrom ⟨none, []⟩ p with
  | ok result p' =>
    rw [hfrom] at hsettles
    have hpassed : p'.passedNameless p.current = false :=
      passedNameless_eq_false (hsettles.1 ▸ hspelled) p.current
    rw [Action.bind_of_ok hfrom, Action.bind_of_ok (Action.get_eq_ok.mpr ⟨rfl, rfl⟩), hpassed]
    exact hsettles
  | error fault p' =>
    rw [hfrom] at hsettles
    rw [Action.bind_of_error hfrom]
    exact hsettles

/-- What the parser makes of a row of tokens. -/
def readRow (tokens : List Token) (source : String) : Except Fault Term :=
  Action.outcome (parse (ofTokens tokens source))

section Row

variable {tokens : List Token} {eof : Token}

/-- The tokens of a row without an end of input are those before the end of input behind it. -/
theorem beforeEnd_append_end (hmore : ∀ token ∈ tokens, token.kind ≠ .endOfInput)
    (hend : eof.kind = .endOfInput) : beforeEnd (tokens ++ [eof]) = tokens := by
  induction tokens with
  | nil => exact beforeEnd_of_end hend
  | cons token rest ih =>
    have hrest := ih fun seen hseen => hmore seen (List.mem_cons_of_mem token hseen)
    rw [List.cons_append, beforeEnd_of_ne rfl (hmore token List.mem_cons_self), hrest]

/-- An end of input is no name that spells nothing. -/
theorem spelled_append_end (hspelled : Spelled tokens) (hend : eof.kind = .endOfInput) :
    Spelled (tokens ++ [eof]) := by
  intro token hmem hname
  rcases List.mem_append.mp hmem with htoken | hlast
  · exact hspelled token htoken hname
  · rw [List.mem_singleton.mp hlast, hend] at hname
    nomatch hname

/-- An end of input behind a row is ahead. -/
theorem endAhead_append_end (tokens : List Token) (hend : eof.kind = .endOfInput) :
    EndAhead (tokens ++ [eof]) :=
  ⟨eof, List.mem_append_right tokens (List.mem_singleton_self eof), hend⟩

/-- Parsing a row with an end of input behind it settles what it is read as. -/
theorem row_settles (source : String) (hspelled : Spelled tokens) (hend : eof.kind = .endOfInput) :
    Settles ⟨none, []⟩ (ofTokens (tokens ++ [eof]) source)
      (parse (ofTokens (tokens ++ [eof]) source)) := by
  have hahead := endAhead_append_end tokens hend
  have hrow := spelled_append_end hspelled hend
  exact parse_settles hahead hrow

/-- A row with an end of input behind it is read as the only term that it spells, or a token of it
is reported if there is none. -/
theorem readRow_cases (source : String) (hmore : ∀ token ∈ tokens, token.kind ≠ .endOfInput)
    (hspelled : Spelled tokens) (hend : eof.kind = .endOfInput) :
    (∃ result, readRow (tokens ++ [eof]) source = .ok result ∧
      ∀ tree, Reads (.after none) tokens [] tree ↔ result = tree) ∨
    (∃ fault token expected, readRow (tokens ++ [eof]) source = .error fault ∧
      fault.Reports (.unexpectedToken token expected source) ∧
      ∀ tree, ¬ Reads (.after none) tokens [] tree) := by
  have hremaining : (ofTokens (tokens ++ [eof]) source).remaining = tokens ++ [eof] := rfl
  have hsettles := row_settles source hspelled hend
  unfold readRow
  cases hparse : parse (ofTokens (tokens ++ [eof]) source) with
  | ok result p' =>
    rw [hparse] at hsettles
    obtain ⟨-, honly⟩ := hsettles
    simp only [hremaining, beforeEnd_append_end hmore hend, completes_outermost] at honly
    exact .inl ⟨result, rfl, honly⟩
  | error fault p' =>
    rw [hparse] at hsettles
    obtain ⟨⟨token, -, expected, hreports⟩, hnone⟩ := hsettles
    simp only [hremaining, beforeEnd_append_end hmore hend, completes_outermost] at hnone
    exact .inr ⟨fault, token, expected, rfl, hreports, hnone⟩

/-- What is reported of a row is one of its tokens, or the end of input behind it. -/
theorem mem_of_readRow_eq_error {source : String} {fault : Fault} (hspelled : Spelled tokens)
    (hend : eof.kind = .endOfInput) (h : readRow (tokens ++ [eof]) source = .error fault) :
    ∃ token ∈ tokens ++ [eof], ∃ expected,
      fault.Reports (.unexpectedToken token expected source) := by
  have hsettles := row_settles source hspelled hend
  unfold readRow at h
  cases hparse : parse (ofTokens (tokens ++ [eof]) source) with
  | ok result p' =>
    rw [hparse] at h
    nomatch h
  | error reported p' =>
    rw [hparse] at h hsettles
    obtain rfl : reported = fault := Except.error.inj h
    exact hsettles.1

/-- A row with an end of input behind it is read as the term that it spells, with applications from
the left and bodies that reach as far as they can. It is read exactly if the grammar derives it;
every other row ends with the report of an unexpected token. -/
theorem readRow_follows_grammar (source : String)
    (hmore : ∀ token ∈ tokens, token.kind ≠ .endOfInput) (hspelled : Spelled tokens)
    (hend : eof.kind = .endOfInput) :
    (∀ tree, readRow (tokens ++ [eof]) source = .ok tree ↔
      Reads (.after none) tokens [] tree) ∧
    ((∃ tree, readRow (tokens ++ [eof]) source = .ok tree) ↔ Derives .expression tokens) ∧
    (¬ Derives .expression tokens → ∃ fault token expected,
      readRow (tokens ++ [eof]) source = .error fault ∧
        fault.Reports (.unexpectedToken token expected source)) := by
  have hreads : ∀ tree, readRow (tokens ++ [eof]) source = .ok tree ↔
      Reads (.after none) tokens [] tree := by
    intro tree
    rcases readRow_cases source hmore hspelled hend with
      ⟨result, hok, honly⟩ | ⟨fault, _, _, herror, -, hnone⟩
    · rw [hok, honly tree, Except.ok.injEq]
    · rw [herror]
      exact iff_of_false nofun (hnone tree)
  refine ⟨hreads, ?_, ?_⟩
  · rw [← exists_reads_iff hspelled]
    exact exists_congr hreads
  · intro hderives
    rcases readRow_cases source hmore hspelled hend with
      ⟨result, -, honly⟩ | ⟨fault, token, expected, herror, hreports, -⟩
    · exact absurd ((exists_reads_iff hspelled).mp ⟨result, (honly result).mpr rfl⟩) hderives
    · exact ⟨fault, token, expected, herror, hreports⟩

end Row

/-- A row of tokens in which the body of an abstraction goes on behind a parenthesis. -/
def greedyRow : List Token :=
  [⟨.lambda, none, 0⟩, ⟨.name, some "x", 1⟩, ⟨.dot, none, 2⟩, ⟨.opening, none, 3⟩,
    ⟨.name, some "y", 4⟩, ⟨.closing, none, 5⟩, ⟨.name, some "x", 7⟩]

/-- The row is read into the body as far as it goes. -/
theorem readRow_greedyRow :
    let eof : Token := ⟨.endOfInput, none, 8⟩
    let tree := .abs "x" (.app (.var "y") (.var "x"))
    readRow (greedyRow ++ [eof]) "λx.(y) x" = .ok tree ∧ Derives .expression greedyRow := by
  intro eof tree
  have hmore : ∀ token ∈ greedyRow, token.kind ≠ .endOfInput := by decide
  have hspelled : Spelled greedyRow := by simp [Spelled, greedyRow]
  have hend : eof.kind = .endOfInput := rfl
  have hgrammar := readRow_follows_grammar "λx.(y) x" hmore hspelled hend
  have hinside : Reads (.after none) [⟨.name, some "y", 4⟩]
      [⟨.closing, none, 5⟩, ⟨.name, some "x", 7⟩] (.var "y") :=
    .next (.var rfl rfl) (.done _)
  have hlast : Reads (.after (some (extend none (.var "y")))) [⟨.name, some "x", 7⟩] []
      (.app (.var "y") (.var "x")) :=
    .next (.var rfl rfl) (.done _)
  have hopening : (⟨.opening, none, 3⟩ : Token).kind = .opening := rfl
  have hbody := Reads.next (.parentheses hopening rfl hinside) hlast
  have hends : BodyEnds [] := nofun
  have hatom : Reads .atom greedyRow [] tree := .abstraction rfl rfl rfl rfl hends hbody
  have hrow : Reads (.after none) (greedyRow ++ []) [] tree := .next hatom (.done tree)
  have hread : readRow (greedyRow ++ [eof]) "λx.(y) x" = .ok tree := (hgrammar.1 tree).mpr hrow
  exact ⟨hread, hgrammar.2.1.mp ⟨tree, hread⟩⟩

end UntypedLambda.Parser
