import UntypedLambda.Proofs.Report
import UntypedLambda.Term.Parser

/-!
# One turn of the parser

What a turn does depends on the expressions that are still being read and on the tokens that are
left, and on nothing else of the parser. The rules list all that can come of it: the term is read,
the turn goes on with another stack and fewer tokens or expressions, or a token is refused. Every
turn with an end of input ahead follows one of the rules.
-/

namespace UntypedLambda

namespace Parser

/-- The tokens that are left. -/
def remaining (p : Parser) : List Token := p.tokens.toList.drop p.current

/-- What comes of a turn. -/
inductive Outcome where
  /-- The whole term has been read. -/
  | done (tree : Term)
  /-- There is more to read. -/
  | more (stack : Stack) (left : List Token)
  /-- A token is refused, with others behind it; something else was expected. -/
  | refused (token : Token) (expected : String) (behind : List Token)

/-- The rules of a turn: a stack and the tokens that are left lead to an outcome. -/
inductive Turns : Stack → List Token → Outcome → Prop where
  /-- The end of input ends the outermost expression. -/
  | finish {tree : Term} {token : Token} {rest : List Token} (ended : token.kind = .endOfInput) :
      Turns ⟨some tree, []⟩ (token :: rest) (.done tree)
  /-- A closing parenthesis ends what an opening one started. -/
  | closeGroup {root : Option Term} {outer : List Pending} {tree : Term} {closing : Token}
      {rest : List Token} (isClosing : closing.kind = .closing) :
      Turns ⟨root, ⟨.parenthesis, some tree⟩ :: outer⟩ (closing :: rest)
        (.more (Stack.push ⟨root, outer⟩ tree) rest)
  /-- A token that starts no atom ends the body of an abstraction, and stays. -/
  | closeBody {root : Option Term} {outer : List Pending} {param : String} {tree : Term}
      {token : Token} {rest : List Token} (stop : stops token.kind = true) :
      Turns ⟨root, ⟨.abstraction param, some tree⟩ :: outer⟩ (token :: rest)
        (.more (Stack.push ⟨root, outer⟩ (.abs param tree)) (token :: rest))
  /-- A name is an atom. -/
  | var {stack : Stack} {name : Token} {rest : List Token} (isName : name.kind = .name) :
      Turns stack (name :: rest) (.more (stack.push (.var name.lexeme)) rest)
  /-- A lambda with a name and a dot starts the body of an abstraction. -/
  | openBody {stack : Stack} {lambda param dot : Token} {rest : List Token}
      (isLambda : lambda.kind = .lambda) (isName : param.kind = .name) (isDot : dot.kind = .dot) :
      Turns stack (lambda :: param :: dot :: rest)
        (.more (stack.open (.abstraction param.lexeme)) rest)
  /-- An opening parenthesis starts an inner expression. -/
  | openGroup {stack : Stack} {opening : Token} {rest : List Token}
      (isOpening : opening.kind = .opening) :
      Turns stack (opening :: rest) (.more (stack.open .parenthesis) rest)
  /-- The outermost expression ends before the input does. -/
  | refuseEnd {tree : Term} {token : Token} {rest : List Token} (stop : stops token.kind = true)
      (goesOn : token.kind ≠ .endOfInput) :
      Turns ⟨some tree, []⟩ (token :: rest) (.refused token "expected end of input" rest)
  /-- An expression in parentheses ends without being closed. -/
  | refuseGroup {root : Option Term} {outer : List Pending} {tree : Term} {token : Token}
      {rest : List Token} (stop : stops token.kind = true) (isOpen : token.kind ≠ .closing) :
      Turns ⟨root, ⟨.parenthesis, some tree⟩ :: outer⟩ (token :: rest)
        (.refused token "expected ')' after expression" rest)
  /-- A lambda is not followed by a name. -/
  | refuseParam {stack : Stack} {lambda token : Token} {rest : List Token}
      (isLambda : lambda.kind = .lambda) (noName : token.kind ≠ .name) :
      Turns stack (lambda :: token :: rest)
        (.refused token "expected parameter name after lambda" rest)
  /-- The name of a parameter is not followed by a dot. -/
  | refuseDot {stack : Stack} {lambda param token : Token} {rest : List Token}
      (isLambda : lambda.kind = .lambda) (isName : param.kind = .name)
      (noDot : token.kind ≠ .dot) :
      Turns stack (lambda :: param :: token :: rest)
        (.refused token "expected '.' after parameter name in lambda abstraction" rest)
  /-- An expression has no first atom. -/
  | refuseAtom {stack : Stack} {token : Token} {rest : List Token} (unread : stack.tree = none)
      (stop : stops token.kind = true) :
      Turns stack (token :: rest) (.refused token "expected a variable, lambda or '('" rest)

/-- Whether a turn of a parser ended with an outcome. Nothing but the place changes. -/
def EndsIn (p : Parser) : Outcome → EStateM.Result Fault Parser Turn → Prop
  | .done tree, result => result = .ok (.done tree) p
  | .more stack left, result =>
    ∃ p', result = .ok (.more stack) p' ∧ p'.tokens = p.tokens ∧ p'.source = p.source ∧
      p'.remaining = left
  | .refused token expected behind, result =>
    ∃ p', result = .error (Problem.unexpectedToken token expected p.source).fault p' ∧
      p'.tokens = p.tokens ∧ p'.source = p.source ∧ p'.remaining = token :: behind

section Operations

variable {p : Parser} {token : Token} {rest : List Token}

/-- The first token that is left is the next one. -/
theorem getElem?_of_remaining (h : p.remaining = token :: rest) :
    p.tokens[p.current]? = some token := by
  have hhead := congrArg List.head? h
  rwa [remaining, List.head?_drop, Array.getElem?_toList] at hhead

/-- Moving on drops the next token. -/
theorem remaining_moved (h : p.remaining = token :: rest) : p.moved.remaining = rest := by
  have htail := congrArg List.tail h
  rwa [remaining, List.tail_drop] at htail

/-- The next token is looked at. -/
theorem peek_of_remaining (h : p.remaining = token :: rest) : peek p = .ok token p :=
  peek_eq_ok.mpr ⟨getElem?_of_remaining h, rfl⟩

/-- The kind of the next token is checked. -/
theorem check_of_remaining (h : p.remaining = token :: rest) (kind : TokenKind) :
    check kind p = .ok (decide (token.kind = kind)) p :=
  check_eq_ok.mpr ⟨token, getElem?_of_remaining h, rfl, rfl⟩

/-- The token before the next place is the one that was moved past. -/
theorem previous_of_remaining (h : p.remaining = token :: rest) :
    previous p.moved = .ok token p.moved := by
  have hindex : (if p.moved.current = 0 then p.moved.tokens.size else p.moved.current) - 1 =
      p.current := by simp [moved]
  unfold previous
  rw [hindex]
  exact tokenAt_eq_ok.mpr ⟨getElem?_of_remaining h, rfl⟩

/-- Moving past a token that does not end the input gives the token. -/
theorem advance_of_remaining (h : p.remaining = token :: rest)
    (hmore : token.kind ≠ .endOfInput) : advance p = .ok token p.moved := by
  have hend : atEnd p = .ok false p := by
    rw [atEnd, check_of_remaining h, decide_eq_false hmore]
  have hmodify : (modify moved : Action Parser PUnit) p = .ok ⟨⟩ p.moved := rfl
  unfold advance
  rw [Action.bind_of_ok hend, if_neg Bool.false_ne_true, Action.bind_of_ok hmodify]
  exact previous_of_remaining h

/-- A token of the kind is accepted. -/
theorem accept_of_kind (h : p.remaining = token :: rest) {kind : TokenKind}
    (hkind : token.kind = kind) (hmore : kind ≠ .endOfInput) :
    accept [kind] p = .ok true p.moved := by
  unfold accept
  rw [Action.bind_of_ok (check_of_remaining h _), decide_eq_true hkind, if_pos rfl,
    Action.bind_of_ok (advance_of_remaining h (hkind ▸ hmore))]
  rfl

/-- A token of another kind is left. -/
theorem accept_of_ne (h : p.remaining = token :: rest) {kind : TokenKind}
    (hkind : token.kind ≠ kind) : accept [kind] p = .ok false p := by
  unfold accept
  rw [Action.bind_of_ok (check_of_remaining h _), decide_eq_false hkind,
    if_neg Bool.false_ne_true]
  rfl

/-- Stopping reports the next token. -/
theorem reject_of_remaining {α : Type} (h : p.remaining = token :: rest) (expected : String) :
    (reject expected : Action Parser α) p =
      .error (Problem.unexpectedToken token expected p.source).fault p := by
  unfold reject
  rw [Action.bind_of_ok (peek_of_remaining h), Action.bind_of_ok (Action.get_eq_ok.mpr ⟨rfl, rfl⟩)]
  rfl

/-- A token of the kind is consumed. -/
theorem consume_of_kind (h : p.remaining = token :: rest) {kind : TokenKind}
    (hkind : token.kind = kind) (hmore : kind ≠ .endOfInput) (expected : String) :
    consume kind expected p = .ok token p.moved := by
  unfold consume
  rw [Action.bind_of_ok (check_of_remaining h _), decide_eq_true hkind, if_pos rfl]
  exact advance_of_remaining h (hkind ▸ hmore)

/-- A token of another kind is reported. -/
theorem consume_of_ne (h : p.remaining = token :: rest) {kind : TokenKind}
    (hkind : token.kind ≠ kind) (expected : String) :
    consume kind expected p =
      .error (Problem.unexpectedToken token expected p.source).fault p := by
  unfold consume
  rw [Action.bind_of_ok (check_of_remaining h _), decide_eq_false hkind,
    if_neg Bool.false_ne_true]
  exact reject_of_remaining h expected

end Operations

/-- Whether an end of input is among some tokens. -/
def EndAhead (left : List Token) : Prop := ∃ token ∈ left, token.kind = .endOfInput

/-- Tokens among which an end of input is start with a token. -/
theorem EndAhead.eq_cons {left : List Token} (h : EndAhead left) :
    ∃ token rest, left = token :: rest := by
  obtain ⟨_, hmem, -⟩ := h
  exact List.exists_cons_of_ne_nil (List.ne_nil_of_mem hmem)

/-- An end of input is behind every other token. -/
theorem EndAhead.tail {token : Token} {rest : List Token} (h : EndAhead (token :: rest))
    {kind : TokenKind} (hkind : token.kind = kind) (hmore : kind ≠ .endOfInput) :
    EndAhead rest := by
  obtain ⟨eof, hmem, hend⟩ := h
  rcases List.mem_cons.mp hmem with rfl | hrest
  · exact absurd (hkind.symm.trans hend) hmore
  · exact ⟨eof, hrest, hend⟩

variable {p : Parser} {stack : Stack} {token : Token} {rest : List Token}

/-- Reading a lambda goes on with the body of an abstraction, or refuses what follows. -/
theorem atom_lambda (h : p.remaining = token :: rest) (hend : EndAhead (token :: rest))
    (hkind : token.kind = .lambda) :
    ∃ outcome, Turns stack (token :: rest) outcome ∧ EndsIn p outcome (atom stack p) := by
  have hlambda : accept [.lambda] p = .ok true p.moved :=
    accept_of_kind h hkind nofun
  have htail := hend.tail hkind nofun
  obtain ⟨param, rest, rfl⟩ := htail.eq_cons
  have hparam := remaining_moved h
  unfold atom
  rw [Action.bind_of_ok hlambda, if_pos rfl]
  by_cases hname : param.kind = .name
  · rw [Action.bind_of_ok (consume_of_kind hparam hname nofun _)]
    obtain ⟨dot, rest, rfl⟩ := (htail.tail hname nofun).eq_cons
    have hnext := remaining_moved hparam
    by_cases hdot : dot.kind = .dot
    · rw [Action.bind_of_ok (consume_of_kind hnext hdot nofun _)]
      exact ⟨_, .openBody hkind hname hdot, _, rfl, rfl, rfl, remaining_moved hnext⟩
    · rw [Action.bind_of_error (consume_of_ne hnext hdot _)]
      exact ⟨_, .refuseDot hkind hname hdot, _, rfl, rfl, rfl, hnext⟩
  · rw [Action.bind_of_error (consume_of_ne hparam hname _)]
    exact ⟨_, .refuseParam hkind hname, _, rfl, rfl, rfl, hparam⟩

/-- Reading an atom follows the rules. -/
theorem atom_endsIn (h : p.remaining = token :: rest) (hend : EndAhead (token :: rest))
    (hstack : stops token.kind = true → stack.tree = none) :
    ∃ outcome, Turns stack (token :: rest) outcome ∧ EndsIn p outcome (atom stack p) := by
  by_cases hlambda : token.kind = .lambda
  · exact atom_lambda h hend hlambda
  have hleave := accept_of_ne h hlambda
  by_cases hname : token.kind = .name
  · have haccept : accept [.name] p = .ok true p.moved :=
      accept_of_kind h hname nofun
    unfold atom
    rw [Action.bind_of_ok hleave, if_neg Bool.false_ne_true, Action.bind_of_ok haccept,
      if_pos rfl, Action.bind_of_ok (previous_of_remaining h)]
    exact ⟨_, .var hname, _, rfl, rfl, rfl, remaining_moved h⟩
  have hleave' := accept_of_ne h hname
  by_cases hopening : token.kind = .opening
  · have haccept : accept [.opening] p = .ok true p.moved :=
      accept_of_kind h hopening nofun
    unfold atom
    rw [Action.bind_of_ok hleave, if_neg Bool.false_ne_true, Action.bind_of_ok hleave',
      if_neg Bool.false_ne_true, Action.bind_of_ok haccept, if_pos rfl]
    exact ⟨_, .openGroup hopening, _, rfl, rfl, rfl, remaining_moved h⟩
  have hstop : stops token.kind = true := by
    cases hkind : token.kind <;> simp_all [stops]
  unfold atom
  rw [Action.bind_of_ok hleave, if_neg Bool.false_ne_true, Action.bind_of_ok hleave',
    if_neg Bool.false_ne_true, Action.bind_of_ok (accept_of_ne h hopening),
    if_neg Bool.false_ne_true, reject_of_remaining h]
  exact ⟨_, .refuseAtom (hstack hstop) hstop, p, rfl, rfl, rfl, h⟩

/-- Closing an expression follows the rules. -/
theorem close_endsIn (h : p.remaining = token :: rest) {tree : Term} (htree : stack.tree = some tree)
    (hstop : stops token.kind = true) :
    ∃ outcome, Turns stack (token :: rest) outcome ∧ EndsIn p outcome (close stack tree p) := by
  obtain ⟨root, inner⟩ := stack
  cases inner with
  | nil =>
    obtain rfl : root = some tree := htree
    unfold close atEnd
    dsimp only
    rw [Action.bind_of_ok (check_of_remaining h _)]
    by_cases hend : token.kind = .endOfInput
    · rw [decide_eq_true hend, if_pos rfl]
      exact ⟨_, .finish hend, rfl⟩
    · rw [decide_eq_false hend, if_neg Bool.false_ne_true, reject_of_remaining h]
      exact ⟨_, .refuseEnd hstop hend, p, rfl, rfl, rfl, h⟩
  | cons pending outer =>
    obtain ⟨opener, read⟩ := pending
    obtain rfl : read = some tree := htree
    cases opener with
    | parenthesis =>
      unfold close
      dsimp only
      by_cases hclosing : token.kind = .closing
      · rw [Action.bind_of_ok (consume_of_kind h hclosing nofun _)]
        exact ⟨_, .closeGroup hclosing, _, rfl, rfl, rfl, remaining_moved h⟩
      · rw [Action.bind_of_error (consume_of_ne h hclosing _)]
        exact ⟨_, .refuseGroup hstop hclosing, p, rfl, rfl, rfl, h⟩
    | abstraction param => exact ⟨_, .closeBody hstop, p, rfl, rfl, rfl, h⟩

/-- With an end of input ahead, every turn follows the rules. -/
theorem turn_endsIn (stack : Stack) (hend : EndAhead p.remaining) :
    ∃ outcome, Turns stack p.remaining outcome ∧ EndsIn p outcome (turn stack p) := by
  obtain ⟨token, rest, h⟩ := hend.eq_cons
  rw [h] at hend ⊢
  unfold turn
  cases htree : stack.tree with
  | none => exact atom_endsIn h hend fun _ => htree
  | some tree =>
    dsimp only
    rw [Action.bind_of_ok (peek_of_remaining h)]
    by_cases hstop : stops token.kind = true
    · rw [if_pos hstop]
      exact close_endsIn h htree hstop
    · rw [if_neg hstop]
      exact atom_endsIn h hend fun hstop' => absurd hstop' hstop

end Parser

end UntypedLambda
