import Mathlib.Logic.Relation
import UntypedLambda.Proofs.Parsing

/-!
# Where a row is refused

A run of the parser depends on no more of a row than it has come to, so other tokens can stand
behind those that it has passed. What is still being read can always be brought to an end: the
innermost expression gets a variable if there is nothing of it yet, and every open parenthesis is
closed. Hence the tokens before a refused one are the beginning of a row that is read, while nothing
makes up for the refused token, whatever stands behind it.
-/

namespace UntypedLambda.Parser

open Relation (ReflTransGen)

/-- A turn leads from a stack and the tokens that are left to others. -/
def Goes (here there : Stack × List Token) : Prop :=
  Turns here.1 here.2 (.more there.1 there.2)

/-- Whether there is no turn after an outcome. -/
def Outcome.IsFinal : Outcome → Prop
  | .more _ _ => False
  | _ => True

/-- What comes of a stack and the tokens that are left, after all turns. -/
def ComesTo (stack : Stack) (left : List Token) (outcome : Outcome) : Prop :=
  ∃ there, ReflTransGen Goes (stack, left) there ∧ Turns there.1 there.2 outcome ∧ outcome.IsFinal

/-- What the parser returns for a final outcome. -/
def Returns (p : Parser) : Outcome → EStateM.Result Fault Parser Term → Prop
  | .done tree, result => ∃ p', result = .ok tree p'
  | .more _ _, _ => False
  | .refused token expected behind, result =>
    ∃ p', result = .error (Problem.unexpectedToken token expected p.source).fault p' ∧
      p'.tokens = p.tokens ∧ p'.remaining = token :: behind

/-- Whether the parser reads a row without an end of input up to the end of input behind it. -/
def Accepts (row : List Token) : Prop :=
  (∀ token ∈ row, token.kind ≠ .endOfInput) ∧
    ∃ eof source tree p', eof.kind = .endOfInput ∧
      parseFrom ⟨none, []⟩ (ofTokens (row ++ [eof]) source) = .ok tree p'

/-- Whether the first token of a row ends an application. -/
def StopsAt (left : List Token) : Prop :=
  ∃ token rest, left = token :: rest ∧ stops token.kind = true

section Runs

variable {stack stack' : Stack} {left left' : List Token} {outcome other : Outcome}

/-- A turn has one outcome. -/
theorem Turns.unique (h : Turns stack left outcome) (h' : Turns stack left other) :
    outcome = other := by
  -- The kind of the first token and the innermost expression tell the rules apart.
  cases h <;> cases h' <;> simp_all [stops, Stack.tree]

/-- All turns together have one outcome. -/
theorem ComesTo.unique (h : ComesTo stack left outcome) (h' : ComesTo stack left other) :
    outcome = other := by
  have hright : Relator.RightUnique Goes := fun here there there' hgoes hgoes' => by
    obtain ⟨hstack, hleft⟩ := Outcome.more.inj (hgoes.unique hgoes')
    exact Prod.ext hstack hleft
  have hlast {here there : Stack × List Token} {outcome : Outcome}
      (hleads : ReflTransGen Goes here there) (hturn : Turns here.1 here.2 outcome)
      (hfinal : outcome.IsFinal) : here = there := by
    rcases hleads.cases_head with hsame | ⟨next, hgoes, -⟩
    · exact hsame
    · rw [hturn.unique hgoes] at hfinal
      exact hfinal.elim
  obtain ⟨here, hleads, hturn, hfinal⟩ := h
  obtain ⟨there, hleads', hturn', hfinal'⟩ := h'
  have hsame : here = there := by
    rcases ReflTransGen.total_of_right_unique hright hleads hleads' with hon | hback
    · exact hlast hon hturn hfinal
    · exact (hlast hback hturn' hfinal').symm
  subst hsame
  exact hturn.unique hturn'

/-- What comes of a later place comes of an earlier one. -/
theorem ComesTo.of_leads (hleads : ReflTransGen Goes (stack, left) (stack', left'))
    (h : ComesTo stack' left' outcome) : ComesTo stack left outcome := by
  obtain ⟨there, hon, hturn, hfinal⟩ := h
  exact ⟨there, hleads.trans hon, hturn, hfinal⟩

/-- With an end of input ahead, parsing on comes to something and returns it. -/
theorem parseFrom_comesTo (stack : Stack) (p : Parser) (hend : EndAhead p.remaining) :
    ∃ outcome, ComesTo stack p.remaining outcome ∧ Returns p outcome (parseFrom stack p) := by
  -- As for what is settled, the induction is on the work that is left.
  induction hwork : workLeft stack p using Nat.strongRecOn generalizing stack p with
  | _ work ih =>
    subst hwork
    obtain ⟨outcome, hrule, hends⟩ := turn_endsIn stack hend
    cases outcome with
    | done tree =>
      rw [parseFrom_of_done hends]
      exact ⟨_, ⟨_, .refl, hrule, trivial⟩, p, rfl⟩
    | more stack' left' =>
      obtain ⟨p', hturn, htokens, hsource, rfl⟩ := hends
      obtain ⟨outcome, hcomes, hreturns⟩ :=
        ih _ (workLeft_turn_lt hturn) stack' p' (hrule.endAhead hend) rfl
      rw [parseFrom_of_more hturn]
      have hgoes : Goes (stack, p.remaining) (stack', p'.remaining) := hrule
      refine ⟨outcome, hcomes.of_leads (.single hgoes), ?_⟩
      cases outcome with
      | done tree => exact hreturns
      | more _ _ => exact hreturns
      | refused token expected behind =>
        obtain ⟨q, herror, hsame, hremaining⟩ := hreturns
        exact ⟨q, hsource ▸ herror, hsame.trans htokens, hremaining⟩
    | refused token expected behind =>
      obtain ⟨p', hturn, htokens, -, hremaining⟩ := hends
      rw [parseFrom_of_error hturn]
      exact ⟨_, ⟨_, .refl, hrule, trivial⟩, p', rfl, htokens, hremaining⟩

/-- A row that comes to a term is accepted. -/
theorem accepts_of_comesTo {row : List Token} {eof : Token} {tree : Term}
    (hmore : ∀ token ∈ row, token.kind ≠ .endOfInput) (hend : eof.kind = .endOfInput)
    (h : ComesTo ⟨none, []⟩ (row ++ [eof]) (.done tree)) : Accepts row := by
  have hahead := endAhead_append_end row hend
  obtain ⟨outcome, hcomes, hreturns⟩ :=
    parseFrom_comesTo ⟨none, []⟩ (ofTokens (row ++ [eof]) "") hahead
  obtain rfl : outcome = .done tree := hcomes.unique h
  obtain ⟨p', hok⟩ := hreturns
  exact ⟨hmore, eof, "", tree, p', hend, hok⟩

/-- An accepted row comes to a term. -/
theorem Accepts.comesTo {row : List Token} (h : Accepts row) :
    ∃ eof tree, eof.kind = .endOfInput ∧ ComesTo ⟨none, []⟩ (row ++ [eof]) (.done tree) := by
  obtain ⟨-, eof, source, tree, p', hend, hok⟩ := h
  have hahead := endAhead_append_end row hend
  obtain ⟨outcome, hcomes, hreturns⟩ :=
    parseFrom_comesTo ⟨none, []⟩ (ofTokens (row ++ [eof]) source) hahead
  rw [hok] at hreturns
  cases outcome with
  | done result => exact ⟨eof, result, hend, hcomes⟩
  | more _ _ => exact hreturns.elim
  | refused _ _ _ =>
    obtain ⟨_, herror, -⟩ := hreturns
    nomatch herror

/-- If every name spells something, the accepted rows are those that the grammar derives. -/
theorem accepts_iff_derives {row : List Token} (hmore : ∀ token ∈ row, token.kind ≠ .endOfInput)
    (hspelled : Spelled row) : Accepts row ↔ Derives .expression row := by
  have hsettles (eof : Token) (source : String) (hend : eof.kind = .endOfInput) :
      Settles ⟨none, []⟩ (ofTokens (row ++ [eof]) source)
        (parseFrom ⟨none, []⟩ (ofTokens (row ++ [eof]) source)) :=
    parseFrom_settles _ _ (endAhead_append_end row hend) (spelled_append_end hspelled hend)
  have hremaining (eof : Token) (source : String) :
      (ofTokens (row ++ [eof]) source).remaining = row ++ [eof] := rfl
  rw [← exists_reads_iff hspelled]
  constructor
  · rintro ⟨-, eof, source, tree, p', hend, hok⟩
    have hread := hsettles eof source hend
    rw [hok] at hread
    have htree := (hread.2 tree).mpr rfl
    rw [hremaining, beforeEnd_append_end hmore hend, completes_outermost] at htree
    exact ⟨tree, htree⟩
  · rintro ⟨tree, htree⟩
    let eof : Token := ⟨.endOfInput, none, 0⟩
    have hread := hsettles eof "" rfl
    cases hparse : parseFrom ⟨none, []⟩ (ofTokens (row ++ [eof]) "") with
    | ok result p' => exact ⟨hmore, eof, "", result, p', rfl, hparse⟩
    | error fault p' =>
      rw [hparse] at hread
      have hnone := hread.2 tree
      rw [hremaining, beforeEnd_append_end hmore rfl, completes_outermost] at hnone
      exact absurd htree hnone

end Runs

section Other

variable {stack stack' : Stack} {left left' : List Token}

/-- A turn passes some tokens, whatever is behind them; or it passes none, and then it goes the same
way in front of every token that ends an application. -/
theorem Turns.passes (h : Turns stack left (.more stack' left')) :
    (∃ token passed, left = token :: (passed ++ left') ∧
      ∀ other, Turns stack (token :: (passed ++ other)) (.more stack' other)) ∨
    (left = left' ∧ StopsAt left ∧ stack'.tree.isSome = true ∧
      ∀ other, StopsAt other → Turns stack other (.more stack' other)) := by
  cases h with
  | @closeGroup _ _ _ closing _ isClosing =>
    exact .inl ⟨closing, [], rfl, fun _ => .closeGroup isClosing⟩
  | closeBody stop =>
    refine .inr ⟨rfl, ⟨_, _, rfl, stop⟩, ?_, ?_⟩
    · rw [tree_push, Option.isSome_some]
    · rintro _ ⟨_, _, rfl, stop'⟩
      exact .closeBody stop'
  | @var _ name _ isName => exact .inl ⟨name, [], rfl, fun _ => .var isName⟩
  | @openBody _ lambda param dot _ isLambda isName isDot =>
    exact .inl ⟨lambda, [param, dot], rfl, fun _ => .openBody isLambda isName isDot⟩
  | @openGroup _ opening _ isOpening =>
    exact .inl ⟨opening, [], rfl, fun _ => .openGroup isOpening⟩

/-- Turns one after the other pass some tokens and then go the same way in front of others. If
something has been read of the innermost expression, it may have been left in front of a token that
ends an application, and then the others have to begin with such a token. -/
theorem leads_passes {here there : Stack × List Token} (h : ReflTransGen Goes here there) :
    ∃ passed, here.2 = passed ++ there.2 ∧
      ∀ other, (there.1.tree.isSome = true → StopsAt there.2 → StopsAt other) →
        ReflTransGen Goes (here.1, passed ++ other) (there.1, other) := by
  induction h with
  | refl => exact ⟨[], rfl, fun _ _ => .refl⟩
  | @tail between there hleads hgoes ih =>
    obtain ⟨passed, heq, hother⟩ := ih
    rcases hgoes.passes with ⟨token, more, hleft, hturn⟩ | ⟨hleft, hstops, htree, hturn⟩
    · refine ⟨passed ++ token :: more, by rw [heq, hleft]; simp, fun other _ => ?_⟩
      rw [List.append_assoc, List.cons_append]
      refine (hother _ fun _ ⟨first, rest, hfirst, hstop⟩ => ?_).tail (hturn other)
      obtain ⟨rfl, -⟩ := List.cons.inj (hleft.symm.trans hfirst)
      exact ⟨token, _, rfl, hstop⟩
    · refine ⟨passed, by rw [heq, hleft], fun other hfollows => ?_⟩
      have hstops' : StopsAt other := hfollows htree (hleft ▸ hstops)
      exact (hother other fun _ _ => hstops').tail (hturn other hstops')

/-- A token is refused for its kind, whatever is behind it. -/
theorem Turns.refuses {token : Token} {expected : String} {behind : List Token}
    (h : Turns stack left (.refused token expected behind)) :
    ∃ passed, left = passed ++ token :: behind ∧
      ∀ token' behind', token'.kind = token.kind →
        Turns stack (passed ++ token' :: behind') (.refused token' expected behind') := by
  cases h with
  | refuseEnd stop goesOn =>
    exact ⟨[], rfl, fun _ _ hkind => .refuseEnd (hkind ▸ stop) (hkind ▸ goesOn)⟩
  | refuseGroup stop isOpen =>
    exact ⟨[], rfl, fun _ _ hkind => .refuseGroup (hkind ▸ stop) (hkind ▸ isOpen)⟩
  | @refuseParam _ lambda _ _ isLambda noName =>
    exact ⟨[lambda], rfl, fun _ _ hkind => .refuseParam isLambda (hkind ▸ noName)⟩
  | @refuseDot _ lambda param _ _ isLambda isName noDot =>
    exact ⟨[lambda, param], rfl, fun _ _ hkind => .refuseDot isLambda isName (hkind ▸ noDot)⟩
  | refuseAtom unread stop =>
    exact ⟨[], rfl, fun _ _ hkind => .refuseAtom unread (hkind ▸ stop)⟩

/-- Whether a row begins with a token that ends an application depends on kinds only. -/
theorem StopsAt.replaced {passed behind : List Token} {token token' : Token}
    (h : StopsAt (passed ++ token :: behind)) (hkind : token'.kind = token.kind)
    (behind' : List Token) : StopsAt (passed ++ token' :: behind') := by
  obtain ⟨first, rest, heq, hstop⟩ := h
  cases passed with
  | nil => exact ⟨token', behind', rfl, by rw [hkind, (List.cons.inj heq).1, hstop]⟩
  | cons head others => exact ⟨head, _, rfl, (List.cons.inj heq).1 ▸ hstop⟩

end Other

section Completion

variable {stack : Stack} {eof : Token}

/-- A name, to be put in where one is missing. -/
def anyName : Token := ⟨.name, some "x", 0⟩

/-- A dot, to be put in where one is missing. -/
def anyDot : Token := ⟨.dot, none, 0⟩

/-- A closing parenthesis, to be put in where one is missing. -/
def anyClosing : Token := ⟨.closing, none, 0⟩

/-- The closing parentheses that some openers ask for. -/
def closings : List Opener → List Token
  | [] => []
  | .parenthesis :: outer => anyClosing :: closings outer
  | .abstraction _ :: outer => closings outer

/-- Whether some tokens are all of those that are put in. -/
def Fills (rest : List Token) : Prop :=
  ∀ token ∈ rest, token = anyName ∨ token = anyDot ∨ token = anyClosing

/-- Tokens that bring all that is still being read to an end. -/
def ending (stack : Stack) : List Token :=
  (if stack.tree.isSome then [] else [anyName]) ++ closings (stack.inner.map Pending.opener)

/-- Tokens that are put in spell something and do not end the input. -/
theorem Fills.spelled_and_more {rest : List Token} (h : Fills rest) :
    Spelled rest ∧ ∀ token ∈ rest, token.kind ≠ .endOfInput := by
  refine ⟨fun token hmem hname => ?_, fun token hmem => ?_⟩
  · rcases h token hmem with rfl | rfl | rfl
    · exact ⟨"x", rfl⟩
    · nomatch hname
    · nomatch hname
  · rcases h token hmem with rfl | rfl | rfl <;> nofun

/-- What brings the rest to an end is put in. -/
theorem fills_ending (stack : Stack) : Fills (ending stack) := by
  have hclosings (openers : List Opener) : Fills (closings openers) := by
    induction openers with
    | nil => exact nofun
    | cons opener outer ih =>
      cases opener with
      | parenthesis => exact List.forall_mem_cons.mpr ⟨.inr (.inr rfl), ih⟩
      | abstraction param => exact ih
  unfold ending
  by_cases htree : stack.tree.isSome = true
  · rw [if_pos htree]
    exact hclosings _
  · rw [if_neg htree]
    exact List.forall_mem_cons.mpr ⟨.inl rfl, hclosings _⟩

/-- Closing parentheses and the end of input end an application. -/
theorem stopsAt_closings (openers : List Opener) (hend : eof.kind = .endOfInput) :
    StopsAt (closings openers ++ [eof]) := by
  induction openers with
  | nil => exact ⟨eof, [], rfl, by rw [hend]; rfl⟩
  | cons opener outer ih =>
    cases opener with
    | parenthesis => exact ⟨_, _, rfl, rfl⟩
    | abstraction param => exact ih

/-- An atom that is added changes no opener. -/
theorem openers_push (stack : Stack) (atom : Term) :
    (stack.push atom).inner.map Pending.opener = stack.inner.map Pending.opener := by
  obtain ⟨root, _ | ⟨pending, outer⟩⟩ := stack <;> rfl

/-- If something has been read of the innermost expression, closing parentheses bring all that is
still being read to an end. -/
theorem comesTo_closings {openers : List Opener}
    (hopeners : stack.inner.map Pending.opener = openers) (htree : stack.tree.isSome = true)
    (hend : eof.kind = .endOfInput) :
    ∃ tree, ComesTo stack (closings openers ++ [eof]) (.done tree) := by
  induction openers generalizing stack with
  | nil =>
    obtain ⟨root, inner⟩ := stack
    obtain rfl := List.map_eq_nil_iff.mp hopeners
    obtain ⟨tree, rfl⟩ := Option.isSome_iff_exists.mp htree
    exact ⟨tree, _, .refl, .finish hend, trivial⟩
  | cons _ openers ih =>
    obtain ⟨root, pending⟩ := stack
    obtain ⟨⟨opener, read⟩, outer, rfl, rfl, houter⟩ := List.map_eq_cons_iff.mp hopeners
    obtain ⟨inner, rfl⟩ := Option.isSome_iff_exists.mp htree
    have hrest (atom : Term) :
        ∃ tree, ComesTo (Stack.push ⟨root, outer⟩ atom) (closings openers ++ [eof])
          (.done tree) :=
      ih ((openers_push _ atom).trans houter) (by rw [tree_push, Option.isSome_some])
    cases opener with
    | parenthesis =>
      obtain ⟨tree, hcomes⟩ := hrest inner
      exact ⟨tree, hcomes.of_leads (.single (.closeGroup rfl))⟩
    | abstraction param =>
      obtain ⟨tree, hcomes⟩ := hrest (.abs param inner)
      obtain ⟨first, rest, heq, hstop⟩ := stopsAt_closings openers hend
      rw [closings]
      rw [heq] at hcomes ⊢
      exact ⟨tree, hcomes.of_leads (.single (.closeBody hstop))⟩

/-- All that is still being read can be brought to an end. -/
theorem comesTo_ending (stack : Stack) (hend : eof.kind = .endOfInput) :
    ∃ tree, ComesTo stack (ending stack ++ [eof]) (.done tree) := by
  unfold ending
  by_cases htree : stack.tree.isSome = true
  · rw [if_pos htree, List.nil_append]
    exact comesTo_closings rfl htree hend
  · rw [if_neg htree]
    obtain ⟨tree, hcomes⟩ := comesTo_closings (openers_push stack (.var "x"))
      (by rw [tree_push, Option.isSome_some]) hend
    exact ⟨tree, hcomes.of_leads (.single (.var rfl))⟩

/-- In place of a refused token, others can be put in that bring all that is still being read to an
end. They end an application where the refused token does and something has been read. -/
theorem Turns.repaired {left passed behind : List Token} {token : Token} {expected : String}
    (h : Turns stack left (.refused token expected behind))
    (hleft : left = passed ++ token :: behind) :
    ∃ rest, Fills rest ∧ ∀ eof : Token, eof.kind = .endOfInput →
      (∃ tree, ComesTo stack (passed ++ (rest ++ [eof])) (.done tree)) ∧
        (stack.tree.isSome = true → StopsAt left → StopsAt (passed ++ (rest ++ [eof]))) := by
  have hnone (heq : token :: behind = passed ++ token :: behind) :
      ∃ rest, Fills rest ∧ ∀ eof : Token, eof.kind = .endOfInput →
        (∃ tree, ComesTo stack (passed ++ (rest ++ [eof])) (.done tree)) ∧
          (stack.tree.isSome = true → StopsAt left → StopsAt (passed ++ (rest ++ [eof]))) := by
    obtain rfl : passed = [] := List.self_eq_append_left.mp heq
    refine ⟨_, fills_ending stack, fun eof hend => ⟨comesTo_ending stack hend, fun htree _ => ?_⟩⟩
    rw [ending, if_pos htree]
    exact stopsAt_closings _ hend
  cases h with
  | refuseEnd stop goesOn => exact hnone hleft
  | refuseGroup stop isOpen => exact hnone hleft
  | refuseAtom unread stop => exact hnone hleft
  | @refuseParam _ lambda _ _ isLambda noName =>
    obtain rfl : [lambda] = passed := List.append_cancel_right hleft
    refine ⟨anyName :: anyDot :: ending (stack.open (.abstraction "x")), ?_, fun eof hend => ?_⟩
    · exact List.forall_mem_cons.mpr
        ⟨.inl rfl, List.forall_mem_cons.mpr ⟨.inr (.inl rfl), fills_ending _⟩⟩
    · obtain ⟨tree, hcomes⟩ := comesTo_ending (stack.open (.abstraction "x")) hend
      refine ⟨⟨tree, hcomes.of_leads (.single (.openBody isLambda rfl rfl))⟩, ?_⟩
      rintro - ⟨_, _, heq, hstop⟩
      exact ⟨lambda, _, rfl, (List.cons.inj heq).1 ▸ hstop⟩
  | @refuseDot _ lambda param _ _ isLambda isName noDot =>
    obtain rfl : [lambda, param] = passed := List.append_cancel_right hleft
    refine ⟨anyDot :: ending (stack.open (.abstraction param.lexeme)), ?_, fun eof hend => ?_⟩
    · exact List.forall_mem_cons.mpr ⟨.inr (.inl rfl), fills_ending _⟩
    · obtain ⟨tree, hcomes⟩ := comesTo_ending (stack.open (.abstraction param.lexeme)) hend
      refine ⟨⟨tree, hcomes.of_leads (.single (.openBody isLambda isName rfl))⟩, ?_⟩
      rintro - ⟨_, _, heq, hstop⟩
      exact ⟨lambda, _, rfl, (List.cons.inj heq).1 ▸ hstop⟩

end Completion

section Refusal

variable {tokens left : List Token} {eof token : Token} {source expected : String} {fault : Fault}
  {p p' : Parser}

/-- The report of an unexpected token comes from a turn that refuses it, where the parser stands. -/
theorem comesTo_of_parse (hahead : EndAhead p.remaining) (hparse : parse p = .error fault p')
    (hreports : fault.Reports (.unexpectedToken token expected source)) :
    p'.tokens = p.tokens ∧ ∃ expected' behind, p'.remaining = token :: behind ∧
      ComesTo ⟨none, []⟩ p.remaining (.refused token expected' behind) := by
  obtain ⟨outcome, hcomes, hreturns⟩ := parseFrom_comesTo ⟨none, []⟩ p hahead
  unfold parse at hparse
  rw [Action.bind_of_ok (Action.get_eq_ok.mpr ⟨rfl, rfl⟩)] at hparse
  cases outcome with
  | done tree =>
    obtain ⟨q, hok⟩ := hreturns
    rw [Action.bind_of_ok hok, Action.bind_of_ok (Action.get_eq_ok.mpr ⟨rfl, rfl⟩)] at hparse
    obtain ⟨report, rfl, -⟩ := hreports
    by_cases hpassed : q.passedNameless p.current = true
    · rw [if_pos hpassed] at hparse
      nomatch hparse
    · rw [if_neg hpassed] at hparse
      nomatch hparse
  | more _ _ => exact hreturns.elim
  | refused seen wanted behind =>
    obtain ⟨q, herror, htokens, hremaining⟩ := hreturns
    rw [Action.bind_of_error herror] at hparse
    obtain ⟨rfl, rfl⟩ := EStateM.Result.error.inj hparse
    obtain ⟨rfl, -, -⟩ := Problem.unexpectedToken.inj (Problem.eq_of_fault_reports hreports)
    exact ⟨htokens, wanted, behind, hremaining, hcomes⟩

/-- A row that is not read comes to a token that is refused, and this token is reported. -/
theorem exists_refused (hspelled : Spelled tokens) (hend : eof.kind = .endOfInput)
    (h : readRow (tokens ++ [eof]) source = .error fault) :
    ∃ token expected wanted behind, fault.Reports (.unexpectedToken token expected source) ∧
      ComesTo ⟨none, []⟩ (tokens ++ [eof]) (.refused token wanted behind) := by
  obtain ⟨token, -, expected, hreports⟩ := mem_of_readRow_eq_error hspelled hend h
  have hahead : EndAhead (ofTokens (tokens ++ [eof]) source).remaining :=
    endAhead_append_end tokens hend
  unfold readRow at h
  cases hparse : parse (ofTokens (tokens ++ [eof]) source) with
  | ok tree p =>
    rw [hparse] at h
    nomatch h
  | error reported p =>
    rw [hparse] at h
    obtain rfl : reported = fault := Except.error.inj h
    obtain ⟨-, wanted, behind, -, hcomes⟩ := comesTo_of_parse hahead hparse hreports
    exact ⟨token, expected, wanted, behind, hreports, hcomes⟩

/-- Where a token of a row is refused, the tokens before it are the beginning of a row that comes to
a term, and with a token of its kind behind them they are refused again. -/
theorem ComesTo.refused {behind : List Token}
    (h : ComesTo ⟨none, []⟩ left (.refused token expected behind)) :
    ∃ before, left = before ++ token :: behind ∧
      (∃ rest, Fills rest ∧ ∀ eof : Token, eof.kind = .endOfInput →
        ∃ tree, ComesTo ⟨none, []⟩ (before ++ (rest ++ [eof])) (.done tree)) ∧
      ∀ token' behind', token'.kind = token.kind →
        ComesTo ⟨none, []⟩ (before ++ token' :: behind') (.refused token' expected behind') := by
  obtain ⟨⟨stack, here⟩, hleads, hturn, -⟩ := h
  obtain ⟨earlier, hsplit, hother⟩ := leads_passes hleads
  obtain ⟨passed, hleft, hrefuses⟩ := hturn.refuses
  obtain ⟨rest, hfills, hrepaired⟩ := hturn.repaired hleft
  dsimp only at hsplit hleft hother hrefuses hrepaired
  refine ⟨earlier ++ passed, ?_, ⟨rest, hfills, fun eof hend => ?_⟩, fun token' behind' hkind => ?_⟩
  · rw [hsplit, hleft, List.append_assoc]
  · obtain ⟨⟨tree, hcomes⟩, hstops⟩ := hrepaired eof hend
    rw [List.append_assoc]
    exact ⟨tree, hcomes.of_leads (hother _ hstops)⟩
  · rw [List.append_assoc]
    refine ⟨_, hother _ fun _ hstops => ?_, hrefuses token' behind' hkind, trivial⟩
    rw [hleft] at hstops
    exact hstops.replaced hkind behind'

/-- A token of a row is refused only where it stands. -/
theorem ComesTo.mem_of_refused {behind : List Token}
    (h : ComesTo ⟨none, []⟩ left (.refused token expected behind)) : token ∈ left := by
  obtain ⟨before, rfl, -⟩ := h.refused
  exact List.mem_append_right before List.mem_cons_self

/-- An unexpected token is reported as early as possible. The parser stands at the reported token;
the tokens before it are the beginning of a row that is accepted, and with the reported token behind
them they are the beginning of none. If the end of input is reported, the tokens before it are not
accepted. -/
theorem reports_earliest (hmore : ∀ token ∈ tokens, token.kind ≠ .endOfInput)
    (hend : eof.kind = .endOfInput)
    (hparse : parse (ofTokens (tokens ++ [eof]) source) = .error fault p')
    (hreports : fault.Reports (.unexpectedToken token expected source)) :
    ∃ before behind, tokens ++ [eof] = before ++ token :: behind ∧
      p'.current = before.length ∧
      (∃ rest, Spelled rest ∧ Accepts (before ++ rest)) ∧
      (∀ rest, ¬ Accepts (before ++ token :: rest)) ∧
      (token.kind = .endOfInput → ¬ Accepts before) := by
  have hrow : (ofTokens (tokens ++ [eof]) source).remaining = tokens ++ [eof] := rfl
  have hahead : EndAhead (ofTokens (tokens ++ [eof]) source).remaining :=
    endAhead_append_end tokens hend
  obtain ⟨htokens, wanted, behind, hremaining, hcomes⟩ := comesTo_of_parse hahead hparse hreports
  rw [hrow] at hcomes
  obtain ⟨before, hsplit, ⟨rest, hfills, hdone⟩, hagain⟩ := hcomes.refused
  have hlength := congrArg List.length hsplit
  rw [List.length_append, List.length_append, List.length_singleton, List.length_cons] at hlength
  have hbefore : ∀ token ∈ before, token.kind ≠ .endOfInput := by
    have hstart : before <+: tokens :=
      List.prefix_of_prefix_length_le ⟨_, hsplit.symm⟩ (List.prefix_append tokens [eof]) (by omega)
    exact fun token hmem => hmore token (hstart.subset hmem)
  have hplace : p'.current = before.length := by
    have hleft := congrArg List.length hremaining
    rw [remaining, htokens, List.length_drop, List.length_cons] at hleft
    have hsize : (ofTokens (tokens ++ [eof]) source).tokens.toList.length =
        tokens.length + 1 := by simp [ofTokens]
    omega
  refine ⟨before, behind, hsplit, hplace, ⟨rest, hfills.spelled_and_more.1, ?_⟩,
    fun others haccepts => ?_, fun hkind haccepts => ?_⟩
  · obtain ⟨tree, htree⟩ := hdone eof hend
    refine accepts_of_comesTo ?_ hend (by rwa [List.append_assoc])
    intro token hmem
    exact (List.mem_append.mp hmem).elim (hbefore token) (hfills.spelled_and_more.2 token)
  · obtain ⟨eof', tree, -, hcomes'⟩ := haccepts.comesTo
    rw [List.append_assoc] at hcomes'
    cases hcomes'.unique (hagain token (others ++ [eof']) rfl)
  · obtain ⟨eof', tree, hend', hcomes'⟩ := haccepts.comesTo
    cases hcomes'.unique (hagain eof' [] (hend'.trans hkind.symm))

end Refusal

/-- A row that is read, and no longer is with a closing parenthesis behind it. -/
def abstractionRow : List Token :=
  [⟨.lambda, none, 0⟩, ⟨.name, some "x", 1⟩, ⟨.dot, none, 2⟩, ⟨.name, some "x", 3⟩]

/-- The closing parenthesis is reported, after the abstraction has been closed in front of it. -/
theorem reports_earliest_abstractionRow :
    let closing : Token := ⟨.closing, none, 4⟩
    ∃ fault p', parse (ofTokens (abstractionRow ++ [closing] ++ [⟨.endOfInput, none, 5⟩]) "λx.x)") =
        .error fault p' ∧
      fault.Reports (.unexpectedToken closing "expected end of input" "λx.x)") ∧
      (∃ rest, Spelled rest ∧ Accepts (abstractionRow ++ rest)) ∧
      ∀ rest, ¬ Accepts (abstractionRow ++ closing :: rest) := by
  intro closing
  have hevaluated : (match parse (ofTokens
      (abstractionRow ++ [closing] ++ [⟨.endOfInput, none, 5⟩]) "λx.x)") with
      | .error (.report report) p' => some (report.problem, p'.current)
      | _ => none) =
        some (.unexpectedToken closing "expected end of input" "λx.x)", 4) := by
    decide +kernel
  have hmore : ∀ token ∈ abstractionRow ++ [closing], token.kind ≠ .endOfInput := by decide
  split at hevaluated
  · next report p' hparse =>
    obtain ⟨hproblem, hcurrent⟩ := Prod.mk.inj (Option.some.inj hevaluated)
    have hreports : (Fault.report report).Reports
        (.unexpectedToken closing "expected end of input" "λx.x)") := ⟨report, rfl, hproblem⟩
    obtain ⟨before, behind, hsplit, hplace, haccepts, hnone, -⟩ :=
      reports_earliest hmore rfl hparse hreports
    rw [List.append_assoc] at hsplit
    have hbefore : abstractionRow = before :=
      (List.append_inj hsplit (hcurrent.symm.trans hplace)).1
    rw [hbefore]
    rw [hbefore] at hparse
    exact ⟨_, p', hparse, hreports, haccepts, hnone⟩
  · nomatch hevaluated

end UntypedLambda.Parser
