import Mathlib.Data.Nat.Find
import UntypedLambda.Proofs.Parsing

/-!
# The parser stays in its row

The parser moves past tokens one by one, and past no end of input. It stops at a token that it
reports, or where no token is left; and it returns a term at an end of input only. As every turn
leaves less to do, a run has an end, whatever the row. With an end of input ahead the parser cannot
run off the row, and without one it cannot return a term.
-/

namespace UntypedLambda.Parser

/-- Whether a parser has moved on to another place, past tokens that do not end the input. -/
structure Moves (p p' : Parser) : Prop where
  /-- The tokens stay. -/
  tokens : p'.tokens = p.tokens
  /-- The source stays. -/
  source : p'.source = p.source
  /-- The tokens between the places do not end the input. -/
  passed : ∃ passed, p.remaining = passed ++ p'.remaining ∧
    p'.current = p.current + passed.length ∧ ∀ token ∈ passed, token.kind ≠ .endOfInput

/-- Whether a parser that ended with a fault had to: no token is left, or the next token is the one
that is reported. -/
def Stopped (p : Parser) (fault : Fault) : Prop :=
  (fault = .defect .outOfRange ∧ p.remaining = []) ∨
    ∃ token expected, p.remaining.head? = some token ∧ Template.Plain expected ∧
      fault = (Problem.unexpectedToken token expected p.source).fault

/-- An action that moves on past tokens that do not end the input, and ends with a fault only where
it has to stop. -/
structure Careful {α : Type} (act : Action Parser α) : Prop where
  /-- The action moves on. -/
  moves : ∀ p, Moves p (Action.state (act p))
  /-- The action stops where it has to. -/
  stopped : ∀ p fault p', act p = .error fault p' → Stopped p' fault

variable {p p' q : Parser} {token : Token} {rest : List Token}

section Moves

/-- A parser that stays moves past nothing. -/
theorem Moves.refl (p : Parser) : Moves p p := ⟨rfl, rfl, [], rfl, rfl, nofun⟩

/-- A parser moves on from where it has moved to. -/
theorem Moves.trans (h : Moves p q) (h' : Moves q p') : Moves p p' := by
  obtain ⟨first, hfirst, hplace, hnone⟩ := h.passed
  obtain ⟨second, hsecond, hplace', hnone'⟩ := h'.passed
  refine ⟨h'.tokens.trans h.tokens, h'.source.trans h.source, first ++ second, ?_, ?_, ?_⟩
  · rw [hfirst, hsecond, List.append_assoc]
  · rw [hplace', hplace, List.length_append, Nat.add_assoc]
  · exact List.forall_mem_append.mpr ⟨hnone, hnone'⟩

/-- A parser moves past a token that does not end the input. -/
theorem Moves.moved (h : p.remaining = token :: rest) (hmore : token.kind ≠ .endOfInput) :
    Moves p p.moved :=
  ⟨rfl, rfl, [token], by rw [remaining_moved h]; exact h, rfl, List.forall_mem_singleton.mpr hmore⟩

/-- A parser moves onward. -/
theorem Moves.le (h : Moves p p') : p.current ≤ p'.current := by
  obtain ⟨passed, -, hplace, -⟩ := h.passed
  omega

end Moves

section Careful

variable {α β : Type}

/-- Looking at a token where there may be none. -/
theorem peek_of_nil (h : p.remaining = []) : peek p = .error (.defect .outOfRange) p := by
  have hnone : p.tokens[p.current]? = none := by
    rw [← Array.getElem?_toList, ← List.head?_drop, ← remaining, h, List.head?_nil]
  unfold peek tokenAt
  rw [hnone]

/-- An action that stays where it is and can fail at the end of the row only. -/
theorem Careful.of_stays {act : Action Parser α}
    (h : ∀ p, (∃ a, act p = .ok a p) ∨
      act p = .error (.defect .outOfRange) p ∧ p.remaining = []) : Careful act := by
  refine ⟨fun p => ?_, fun p fault p' hfault => ?_⟩
  · rcases h p with ⟨a, hok⟩ | ⟨herror, -⟩
    · rw [hok]
      exact .refl p
    · rw [herror]
      exact .refl p
  · rcases h p with ⟨a, hok⟩ | ⟨herror, hnil⟩
    · nomatch hok.symm.trans hfault
    · obtain ⟨rfl, rfl⟩ := EStateM.Result.error.inj (herror.symm.trans hfault)
      exact .inl ⟨rfl, hnil⟩

/-- A careful action moves to the place where it ends. -/
theorem Careful.moves_to {act : Action Parser α} (h : Careful act)
    {result : EStateM.Result Fault Parser α} (hact : act p = result) :
    Moves p (Action.state result) :=
  hact ▸ h.moves p

/-- Giving a value is careful. -/
theorem Careful.pure (a : α) : Careful (Pure.pure a : Action Parser α) :=
  .of_stays fun _ => .inl ⟨a, rfl⟩

/-- Careful actions are careful one after the other. -/
theorem Careful.bind {first : Action Parser α} {next : α → Action Parser β} (h : Careful first)
    (hnext : ∀ a, Careful (next a)) : Careful (first >>= next) := by
  refine ⟨fun p => ?_, fun p fault p' hfault => ?_⟩
  · have hmoves := h.moves p
    cases hfirst : first p with
    | ok a q =>
      rw [hfirst] at hmoves
      rw [Action.bind_of_ok hfirst]
      exact hmoves.trans ((hnext a).moves q)
    | error fault q =>
      rw [hfirst] at hmoves
      rw [Action.bind_of_error hfirst]
      exact hmoves
  · rcases Action.bind_eq_error.mp hfault with hfirst | ⟨a, q, -, hrest⟩
    · exact h.stopped p fault p' hfirst
    · exact (hnext a).stopped q fault p' hrest

/-- Looking at the next token is careful. -/
theorem careful_peek : Careful peek := by
  refine .of_stays fun p => ?_
  cases h : p.remaining with
  | nil => exact .inr ⟨peek_of_nil h, rfl⟩
  | cons token rest => exact .inl ⟨token, peek_of_remaining h⟩

/-- Looking back fails only where no token is left. -/
theorem careful_previous : Careful previous := by
  refine .of_stays fun p => ?_
  unfold previous tokenAt
  cases hseen : p.tokens[(if p.current = 0 then p.tokens.size else p.current) - 1]? with
  | some token => exact .inl ⟨token, rfl⟩
  | none =>
    have hout : p.tokens.size ≤ (if p.current = 0 then p.tokens.size else p.current) - 1 :=
      Array.getElem?_eq_none_iff.mp hseen
    have hlength : p.tokens.toList.length = p.tokens.size := Array.length_toList
    have hend : p.tokens.toList.length ≤ p.current := by
      split at hout <;> omega
    exact .inr ⟨rfl, List.drop_eq_nil_of_le hend⟩

/-- Checking the next token is careful. -/
theorem careful_check (kind : TokenKind) : Careful (check kind) :=
  careful_peek.bind fun _ => .pure _

/-- Moving past the next token is careful, since it is not done at the end of input. -/
theorem careful_advance : Careful advance := by
  have hcases (p : Parser) : advance p = previous p ∨
      (advance p = .error (.defect .outOfRange) p ∧ p.remaining = []) ∨
      ∃ token rest, p.remaining = token :: rest ∧ token.kind ≠ .endOfInput ∧
        advance p = .ok token p.moved := by
    cases h : p.remaining with
    | nil =>
      have hcheck : atEnd p = .error (.defect .outOfRange) p :=
        Action.bind_of_error (peek_of_nil h)
      exact .inr (.inl ⟨Action.bind_of_error hcheck, rfl⟩)
    | cons token rest =>
      by_cases hend : token.kind = .endOfInput
      · have hcheck : atEnd p = .ok true p := by
          rw [atEnd, check_of_remaining h, decide_eq_true hend]
        refine .inl ?_
        unfold advance
        rw [Action.bind_of_ok hcheck, if_pos rfl]
      · exact .inr (.inr ⟨token, rest, rfl, hend, advance_of_remaining h hend⟩)
  refine ⟨fun p => ?_, fun p fault p' hfault => ?_⟩
  · rcases hcases p with hback | ⟨herror, -⟩ | ⟨token, rest, h, hmore, hok⟩
    · rw [hback]
      exact careful_previous.moves p
    · rw [herror]
      exact .refl p
    · rw [hok]
      exact .moved h hmore
  · rcases hcases p with hback | ⟨herror, hnil⟩ | ⟨token, rest, h, hmore, hok⟩
    · exact careful_previous.stopped p fault p' (hback ▸ hfault)
    · obtain ⟨rfl, rfl⟩ := EStateM.Result.error.inj (herror.symm.trans hfault)
      exact .inl ⟨rfl, hnil⟩
    · cases hok.symm.trans hfault

/-- Accepting a token is careful. -/
theorem careful_accept (kinds : List TokenKind) : Careful (accept kinds) := by
  induction kinds with
  | nil => exact .pure false
  | cons kind kinds ih =>
    refine (careful_check kind).bind fun holds => ?_
    split
    · exact careful_advance.bind fun _ => .pure true
    · exact ih

/-- Rejecting the next token stops in front of it. -/
theorem careful_reject {expected : String} (hplain : Template.Plain expected) :
    Careful (reject expected : Action Parser α) := by
  have hstops (p : Parser) : ∃ fault, (reject expected : Action Parser α) p = .error fault p ∧
      Stopped p fault := by
    cases h : p.remaining with
    | nil => exact ⟨_, Action.bind_of_error (peek_of_nil h), .inl ⟨rfl, h⟩⟩
    | cons token rest =>
      have hhead : p.remaining.head? = some token := by rw [h, List.head?_cons]
      exact ⟨_, reject_of_remaining h expected, .inr ⟨token, expected, hhead, hplain, rfl⟩⟩
  refine ⟨fun p => ?_, fun p fault p' hfault => ?_⟩
  · obtain ⟨fault, herror, -⟩ := hstops p
    rw [herror]
    exact .refl p
  · obtain ⟨other, herror, hstopped⟩ := hstops p
    obtain ⟨rfl, rfl⟩ := EStateM.Result.error.inj (herror.symm.trans hfault)
    exact hstopped

/-- Consuming a token is careful. -/
theorem careful_consume (kind : TokenKind) {expected : String}
    (hplain : Template.Plain expected) : Careful (consume kind expected) := by
  refine (careful_check kind).bind fun holds => ?_
  split
  · exact careful_advance
  · exact careful_reject hplain

/-- Ending an expression is careful. -/
theorem careful_close (stack : Stack) (tree : Term) : Careful (close stack tree) := by
  unfold close
  split
  · refine (careful_check _).bind fun ended => ?_
    split
    · exact .pure _
    · exact careful_reject (by decide +kernel)
  · exact (careful_consume _ (by decide +kernel)).bind fun _ => .pure _
  · exact .pure _

/-- Reading an atom is careful. -/
theorem careful_atom (stack : Stack) : Careful (atom stack) := by
  refine (careful_accept _).bind fun isLambda => ?_
  split
  · exact (careful_consume _ (by decide +kernel)).bind fun _ =>
      (careful_consume _ (by decide +kernel)).bind fun _ => .pure _
  refine (careful_accept _).bind fun isName => ?_
  split
  · exact careful_previous.bind fun _ => .pure _
  refine (careful_accept _).bind fun isOpening => ?_
  split
  · exact .pure _
  · exact careful_reject (by decide +kernel)

/-- A turn is careful. -/
theorem careful_turn (stack : Stack) : Careful (turn stack) := by
  unfold turn
  split
  · exact careful_atom stack
  · refine careful_peek.bind fun token => ?_
    split
    · exact careful_close stack _
    · exact careful_atom stack

end Careful

section Done

/-- Whether an action of a turn never ends the whole term. -/
def GoesOn (act : Action Parser Turn) : Prop := ∀ p tree p', act p ≠ .ok (.done tree) p'

/-- What a sequence ends in is what its last action ends in. -/
theorem GoesOn.bind {α : Type} (first : Action Parser α) {next : α → Action Parser Turn}
    (h : ∀ a, GoesOn (next a)) : GoesOn (first >>= next) := by
  intro p tree p' hdone
  obtain ⟨a, q, -, hlast⟩ := Action.bind_eq_ok.mp hdone
  exact h a q tree p' hlast

/-- A stack is no whole term. -/
theorem goesOn_more (stack : Stack) : GoesOn (pure (.more stack)) := by
  intro p tree p' hdone
  nomatch hdone

/-- What is rejected is no whole term. -/
theorem goesOn_reject (expected : String) : GoesOn (reject expected) :=
  .bind _ fun _ => .bind _ fun _ _ _ _ hdone => nomatch hdone

/-- No atom is the whole term. -/
theorem goesOn_atom (stack : Stack) : GoesOn (atom stack) := by
  refine .bind _ fun isLambda => ?_
  split
  · exact .bind _ fun _ => .bind _ fun _ => goesOn_more _
  refine .bind _ fun isName => ?_
  split
  · exact .bind _ fun _ => goesOn_more _
  refine .bind _ fun isOpening => ?_
  split
  · exact goesOn_more _
  · exact goesOn_reject _

/-- The whole term has been read only where the next token is the end of input, and the parser stays
in front of it. -/
theorem eq_of_turn_done {stack : Stack} {tree : Term} (h : turn stack p = .ok (.done tree) p') :
    p' = p ∧ ∃ token, p.tokens[p.current]? = some token ∧ token.kind = .endOfInput := by
  unfold turn at h
  cases htree : stack.tree with
  | none =>
    rw [htree] at h
    exact absurd h (goesOn_atom stack p tree p')
  | some read =>
    rw [htree] at h
    obtain ⟨token, q, hpeek, hclose⟩ := Action.bind_eq_ok.mp h
    obtain ⟨hseen, rfl⟩ := peek_eq_ok.mp hpeek
    split at hclose
    · unfold close at hclose
      obtain ⟨root, inner⟩ := stack
      rcases inner with _ | ⟨⟨opener, inner⟩, outer⟩
      · obtain ⟨ended, q, hcheck, hdone⟩ := Action.bind_eq_ok.mp hclose
        obtain ⟨seen, hfound, hkind, rfl⟩ := check_eq_ok.mp hcheck
        cases ended with
        | true => exact ⟨(Action.pure_eq_ok.mp hdone).2.symm, seen, hfound, of_decide_eq_true hkind⟩
        | false => exact absurd hdone (goesOn_reject _ p tree p')
      · cases opener with
        | parenthesis => exact absurd hclose (GoesOn.bind _ (fun _ => goesOn_more _) p tree p')
        | abstraction param => exact absurd hclose (goesOn_more _ p tree p')
    · exact absurd hclose (goesOn_atom stack p tree p')

end Done

section Runs

variable {stack stack' : Stack} {tree : Term} {places : List Nat}
  {result : EStateM.Result Fault Parser Term}

/-- A run of the parser: one turn after the other, up to the first that returns a term or fails. The
indices at which the turns start are listed. -/
inductive Run : Stack → Parser → List Nat → EStateM.Result Fault Parser Term → Prop where
  /-- A turn reads the whole term. -/
  | done {stack : Stack} {p p' : Parser} {tree : Term} (h : turn stack p = .ok (.done tree) p') :
      Run stack p [p.current] (.ok tree p')
  /-- A turn fails. -/
  | failed {stack : Stack} {p p' : Parser} {fault : Fault} (h : turn stack p = .error fault p') :
      Run stack p [p.current] (.error fault p')
  /-- A turn leaves more to read, and another follows. -/
  | more {stack stack' : Stack} {p p' : Parser} {places : List Nat}
      {result : EStateM.Result Fault Parser Term} (h : turn stack p = .ok (.more stack') p')
      (tail : Run stack' p' places result) : Run stack p (p.current :: places) result

/-- Every run ends, after no more turns than there is work left, and one. -/
theorem exists_run (stack : Stack) (p : Parser) :
    ∃ places, Run stack p places (parseFrom stack p) ∧ places.length ≤ workLeft stack p + 1 := by
  -- A turn that ends a body passes no token, so the work counts what is still being read as well.
  induction hwork : workLeft stack p using Nat.strongRecOn generalizing stack p with
  | _ work ih =>
    subst hwork
    cases hturn : turn stack p with
    | error fault p' =>
      rw [parseFrom_of_error hturn]
      exact ⟨_, .failed hturn, Nat.le_add_left 1 _⟩
    | ok outcome p' =>
      cases outcome with
      | done tree =>
        rw [parseFrom_of_done hturn]
        exact ⟨_, .done hturn, Nat.le_add_left 1 _⟩
      | more stack' =>
        have hless := workLeft_turn_lt hturn
        obtain ⟨places, hrun, hlength⟩ := ih _ hless stack' p' rfl
        rw [parseFrom_of_more hturn]
        refine ⟨_, .more hturn hrun, ?_⟩
        rw [List.length_cons]
        omega

/-- A run moves on, and no turn of it starts outside of the places that it moves over. -/
theorem Run.moves (h : Run stack p places result) :
    Moves p (Action.state result) ∧
      ∀ place ∈ places, p.current ≤ place ∧ place ≤ (Action.state result).current := by
  induction h with
  | @done stack p p' tree h =>
    have hmoves : Moves p p' := (careful_turn stack).moves_to h
    exact ⟨hmoves, List.forall_mem_singleton.mpr ⟨Nat.le_refl _, hmoves.le⟩⟩
  | @failed stack p p' fault h =>
    have hmoves : Moves p p' := (careful_turn stack).moves_to h
    exact ⟨hmoves, List.forall_mem_singleton.mpr ⟨Nat.le_refl _, hmoves.le⟩⟩
  | @more stack stack' p p' places result h tail ih =>
    have hmoves : Moves p p' := (careful_turn stack).moves_to h
    obtain ⟨hrest, hplaces⟩ := ih
    have hall := hmoves.trans hrest
    refine ⟨hall, List.forall_mem_cons.mpr ⟨⟨Nat.le_refl _, hall.le⟩, fun place hplace => ?_⟩⟩
    exact ⟨Nat.le_trans hmoves.le (hplaces place hplace).1, (hplaces place hplace).2⟩

/-- A run that fails has to stop where it does. -/
theorem Run.stopped {fault : Fault} (h : Run stack p places (.error fault p')) :
    Stopped p' fault := by
  generalize hresult : EStateM.Result.error fault p' = result at h
  induction h with
  | done _ => nomatch hresult
  | @failed stack p q other h =>
    obtain ⟨rfl, rfl⟩ := EStateM.Result.error.inj hresult
    exact (careful_turn stack).stopped p fault p' h
  | more _ _ ih => exact ih hresult

/-- A run that returns a term ends in front of an end of input. -/
theorem Run.ended {tree : Term} (h : Run stack p places (.ok tree p')) :
    ∃ token, p'.tokens[p'.current]? = some token ∧ token.kind = .endOfInput := by
  generalize hresult : EStateM.Result.ok tree p' = result at h
  induction h with
  | @done stack p q other h =>
    obtain ⟨rfl, rfl⟩ := EStateM.Result.ok.inj hresult
    obtain ⟨rfl, hend⟩ := eq_of_turn_done h
    exact hend
  | failed _ => nomatch hresult
  | more _ _ ih => exact ih hresult

end Runs

section Ends

/-- Whether an index is that of the first end of input that is left. -/
structure FirstEnd (p : Parser) (eof : Nat) : Prop where
  /-- The index is not behind the place. -/
  ahead : p.current ≤ eof
  /-- There is an end of input. -/
  found : ∃ token, p.tokens[eof]? = some token ∧ token.kind = .endOfInput
  /-- There is none before it. -/
  first : ∀ index token, p.current ≤ index → index < eof → p.tokens[index]? = some token →
    token.kind ≠ .endOfInput

/-- The tokens that are left are those from the place on. -/
theorem getElem?_remaining (p : Parser) (index : Nat) :
    p.remaining[index]? = p.tokens[p.current + index]? := by
  rw [remaining, List.getElem?_drop, Array.getElem?_toList]

/-- No parser moves past the first end of input. -/
theorem Moves.le_eof (h : Moves p p') {eof : Nat} (hfirst : p.FirstEnd eof) : p'.current ≤ eof := by
  obtain ⟨passed, hsplit, hplace, hnone⟩ := h.passed
  obtain ⟨token, hfound, hend⟩ := hfirst.found
  have hahead := hfirst.ahead
  refine Nat.le_of_not_lt fun hpast => ?_
  have hinside : eof - p.current < passed.length := by omega
  have hindex : p.remaining[eof - p.current]? = some token := by
    rw [getElem?_remaining, Nat.add_sub_cancel' hahead, hfound]
  rw [hsplit, List.getElem?_append_left hinside] at hindex
  exact hnone token (List.mem_of_getElem? hindex) hend

/-- A parser that has moved on to an end of input is at the first one. -/
theorem Moves.eq_eof (h : Moves p p') {eof : Nat} (hfirst : p.FirstEnd eof)
    (hended : ∃ token, p'.tokens[p'.current]? = some token ∧ token.kind = .endOfInput) :
    p'.current = eof := by
  obtain ⟨token, hfound, hend⟩ := hended
  rw [h.tokens] at hfound
  refine Nat.le_antisymm (h.le_eof hfirst) (Nat.le_of_not_lt fun hbefore => ?_)
  exact hfirst.first p'.current token h.le hbefore hfound hend

/-- An end of input that is left has a first one before it, or is the first. -/
theorem exists_firstEnd {index : Nat} (hahead : p.current ≤ index)
    (hfound : p.tokens[index]? = some token) (hend : token.kind = .endOfInput) :
    ∃ eof, p.FirstEnd eof := by
  classical
  have hsome : ∃ index, p.current ≤ index ∧
      ∃ token, p.tokens[index]? = some token ∧ token.kind = .endOfInput :=
    ⟨index, hahead, token, hfound, hend⟩
  obtain ⟨hleast, hfirst⟩ := Nat.find_spec hsome
  refine ⟨Nat.find hsome, hleast, hfirst, fun earlier token hle hlt hseen hkind => ?_⟩
  exact Nat.find_min hsome hlt ⟨hle, token, hseen, hkind⟩

/-- A run that fails is at the token that it reports, or behind all tokens. -/
theorem Run.reports {stack : Stack} {places : List Nat} {fault : Fault}
    (h : Run stack p places (.error fault p')) (hspelled : Spelled p.tokens.toList) :
    (fault = .defect .outOfRange ∧ p.tokens.size ≤ p'.current) ∨
      ∃ token expected, p.tokens[p'.current]? = some token ∧
        fault.Reports (.unexpectedToken token expected p.source) := by
  have hmoves : Moves p p' := h.moves.1
  rw [← hmoves.tokens, ← hmoves.source]
  rcases h.stopped with ⟨hfault, hnil⟩ | ⟨token, expected, hhead, hplain, rfl⟩
  · have hsize : p'.tokens.toList.length ≤ p'.current := List.drop_eq_nil_iff.mp hnil
    rw [Array.length_toList] at hsize
    exact .inl ⟨hfault, hsize⟩
  · have hseen : p'.tokens[p'.current]? = some token := by
      rw [← hhead, List.head?_eq_getElem?, getElem?_remaining, Nat.add_zero]
    have hmem : token ∈ p.tokens.toList :=
      Array.mem_toList_iff.mpr (Array.mem_of_getElem? (hmoves.tokens ▸ hseen))
    have hname : token.isNameless = false := hspelled.isNameless_eq_false hmem
    exact .inr ⟨token, expected, hseen, Problem.unexpectedToken_reports hname hplain p'.source⟩

end Ends

section Row

/-- If every name spells something, parsing is a run. -/
theorem parse_eq_parseFrom (hspelled : Spelled p.tokens.toList) :
    parse p = parseFrom ⟨none, []⟩ p := by
  unfold parse
  rw [Action.bind_of_ok (Action.get_eq_ok.mpr ⟨rfl, rfl⟩)]
  cases hfrom : parseFrom ⟨none, []⟩ p with
  | error fault p' => exact Action.bind_of_error hfrom
  | ok tree p' =>
    obtain ⟨places, hrun, -⟩ := exists_run ⟨none, []⟩ p
    rw [hfrom] at hrun
    have hpassed : p'.passedNameless p.current = false :=
      passedNameless_eq_false (hrun.moves.1.tokens ▸ hspelled) p.current
    rw [Action.bind_of_ok hfrom, Action.bind_of_ok (Action.get_eq_ok.mpr ⟨rfl, rfl⟩), hpassed]
    rfl

/-- Parsing from any place of a row is a run: it ends, after at most two turns for each token that
is left and one more, and every turn starts between the first place and the last. If an end of input
is left, the parser never comes behind the first one: it returns a term at this end of input, or
reports the token that it stands at. If none is left, it returns no term: it reports the token that
it stands at, or has come behind all tokens. -/
theorem parse_within_row (hspelled : Spelled p.tokens.toList) :
    (∃ places, Run ⟨none, []⟩ p places (parse p) ∧
      places.length ≤ 2 * (p.tokens.size - p.current) + 1 ∧
      ∀ place ∈ places, p.current ≤ place ∧ place ≤ (Action.state (parse p)).current) ∧
    ((∃ index token, p.current ≤ index ∧ p.tokens[index]? = some token ∧
        token.kind = .endOfInput) →
      ∃ eof, p.FirstEnd eof ∧
        ((∃ tree p', parse p = .ok tree p' ∧ p'.current = eof) ∨
          ∃ fault p' token expected, parse p = .error fault p' ∧ p'.current ≤ eof ∧
            p.tokens[p'.current]? = some token ∧
            fault.Reports (.unexpectedToken token expected p.source))) ∧
    ((∀ index token, p.current ≤ index → p.tokens[index]? = some token →
        token.kind ≠ .endOfInput) →
      ∃ fault p', parse p = .error fault p' ∧
        ((fault = .defect .outOfRange ∧ p.tokens.size ≤ p'.current) ∨
          ∃ token expected, p.tokens[p'.current]? = some token ∧
            fault.Reports (.unexpectedToken token expected p.source))) := by
  obtain ⟨places, hrun, hlength⟩ := exists_run ⟨none, []⟩ p
  rw [← parse_eq_parseFrom hspelled] at hrun
  have hwork : workLeft ⟨none, []⟩ p = 2 * (p.tokens.size - p.current) := rfl
  refine ⟨⟨places, hrun, by omega, hrun.moves.2⟩, ?_, ?_⟩
  · rintro ⟨index, token, hahead, hfound, hend⟩
    obtain ⟨eof, hfirst⟩ := exists_firstEnd hahead hfound hend
    refine ⟨eof, hfirst, ?_⟩
    cases hparse : parse p with
    | ok tree p' =>
      rw [hparse] at hrun
      have hmoves : Moves p p' := hrun.moves.1
      exact .inl ⟨tree, p', rfl, hmoves.eq_eof hfirst hrun.ended⟩
    | error fault p' =>
      rw [hparse] at hrun
      have hle : p'.current ≤ eof := Moves.le_eof hrun.moves.1 hfirst
      obtain ⟨last, hlast, -⟩ := hfirst.found
      have hinside : eof < p.tokens.size := (Array.getElem?_eq_some_iff.mp hlast).1
      rcases hrun.reports hspelled with ⟨-, hout⟩ | ⟨seen, expected, hseen, hreports⟩
      · omega
      · exact .inr ⟨fault, p', seen, expected, rfl, hle, hseen, hreports⟩
  · intro hnone
    cases hparse : parse p with
    | ok tree p' =>
      rw [hparse] at hrun
      have hmoves : Moves p p' := hrun.moves.1
      obtain ⟨token, hfound, hend⟩ := hrun.ended
      rw [hmoves.tokens] at hfound
      exact absurd hend (hnone p'.current token hmoves.le hfound)
    | error fault p' =>
      rw [hparse] at hrun
      exact ⟨fault, p', rfl, hrun.reports hspelled⟩

/-- A row with two ends of input. From its second token on, a term is read up to the first of them;
behind the second, nothing is. -/
theorem parse_within_row_two_ends :
    let row : Array Token := #[⟨.closing, none, 0⟩, ⟨.lambda, none, 1⟩, ⟨.name, some "x", 2⟩,
      ⟨.dot, none, 3⟩, ⟨.name, some "x", 4⟩, ⟨.endOfInput, none, 5⟩, ⟨.name, some "y", 6⟩,
      ⟨.endOfInput, none, 7⟩]
    Spelled row.toList ∧
      (∃ eof p', FirstEnd ⟨row, "", 1⟩ eof ∧
        parse ⟨row, "", 1⟩ = .ok (.abs "x" (.var "x")) p' ∧ p'.current = eof) ∧
      ∃ fault p', parse ⟨row, "", 8⟩ = .error fault p' := by
  intro row
  have hspelled : Spelled row.toList := by simp [Spelled, row]
  have hbetween := (parse_within_row (p := ⟨row, "", 1⟩) hspelled).2.1 ⟨5, _, by decide, rfl, rfl⟩
  have hbehind := (parse_within_row (p := ⟨row, "", 8⟩) hspelled).2.2
  refine ⟨hspelled, ?_, ?_⟩
  · have hterm : (Action.outcome (parse ⟨row, "", 1⟩)).toOption = some (.abs "x" (.var "x")) := by
      decide +kernel
    obtain ⟨eof, hfirst, ⟨tree, p', hok, hplace⟩ | ⟨fault, p', _, _, herror, -⟩⟩ := hbetween
    · rw [hok] at hterm
      obtain rfl := Option.some.inj hterm
      exact ⟨eof, p', hfirst, hok, hplace⟩
    · rw [herror] at hterm
      cases hterm
  · have hnone : ∀ index token, 8 ≤ index → row[index]? = some token →
        token.kind ≠ .endOfInput := by
      intro index token hindex hfound
      have hinside : index < 8 := (Array.getElem?_eq_some_iff.mp hfound).1
      omega
    obtain ⟨fault, p', herror, -⟩ := hbehind hnone
    exact ⟨fault, p', herror⟩

end Row

end UntypedLambda.Parser
