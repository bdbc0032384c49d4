import UntypedLambda.Action
import UntypedLambda.Term.Basic

/-!
# Parsing terms

A parser reads a term off a row of tokens:

    expression  ::= atom atom*
    atom        ::= lambda name dot expression | name | opening expression closing

Applications associate to the left, and the body of an abstraction reaches as far as it can. The
parser keeps the expressions that are still being read, one for each open parenthesis or
abstraction, so nesting is limited by nothing. It stops at the first problem, where it stands.
-/

namespace UntypedLambda

/-- A place in a row of tokens. -/
structure Parser where
  /-- The tokens. -/
  tokens : Array Token
  /-- The text that the tokens come from, for messages. -/
  source : String
  /-- The index of the next token. -/
  current : Nat
  deriving Inhabited

namespace Parser

/-- The start of a row of tokens. -/
def ofTokens (tokens : List Token) (source : String) : Parser := ⟨tokens.toArray, source, 0⟩

/-- The token at an index. -/
def tokenAt (index : Nat) : Action Parser Token := fun p =>
  match p.tokens[index]? with
  | some token => .ok token p
  | none => .error (.defect .outOfRange) p

/-- The next token. -/
def peek : Action Parser Token := fun p => tokenAt p.current p

/-- The token before the next one. Before the first token, it is the last one. -/
def previous : Action Parser Token := fun p =>
  tokenAt ((if p.current = 0 then p.tokens.size else p.current) - 1) p

/-- Moves past one token. -/
def moved (p : Parser) : Parser := { p with current := p.current + 1 }

/-- Whether the next token is of a kind. -/
def check (kind : TokenKind) : Action Parser Bool := do return (← peek).kind = kind

/-- Whether the next token is the end of input. -/
def atEnd : Action Parser Bool := check .endOfInput

/-- Moves past the next token, unless it is the end of input, and gives the token before the new
place. -/
def advance : Action Parser Token := do
  if ← atEnd then previous
  else
    modify moved
    previous

/-- Moves past the next token if it is of one of the kinds. Gives whether it is. -/
def accept : List TokenKind → Action Parser Bool
  | [] => return false
  | kind :: kinds => do
    if ← check kind then
      let _ ← advance
      return true
    else accept kinds

/-- Stops at the next token, which should have been something else. -/
def reject {α : Type} (expected : String) : Action Parser α := do
  let token ← peek
  let p ← get
  throw (Problem.unexpectedToken token expected p.source).fault

/-- Moves past the next token, which has to be of a kind, and gives it. -/
def consume (kind : TokenKind) (expected : String) : Action Parser Token := do
  if ← check kind then advance else reject expected

/-- What started an expression inside another. -/
inductive Opener where
  /-- A parenthesis. -/
  | parenthesis
  /-- An abstraction over a parameter. -/
  | abstraction (param : String)
  deriving DecidableEq

/-- An inner expression that is still being read. -/
structure Pending where
  /-- What started the expression. -/
  opener : Opener
  /-- The application of the atoms read so far, if there are any. -/
  tree : Option Term
  deriving DecidableEq

/-- The expressions that are still being read. -/
structure Stack where
  /-- The application of the outermost atoms read so far, if there are any. -/
  root : Option Term
  /-- The inner expressions, innermost first. -/
  inner : List Pending
  deriving DecidableEq

/-- The application of the atoms read so far of the innermost expression. -/
def Stack.tree (stack : Stack) : Option Term :=
  match stack.inner with
  | [] => stack.root
  | pending :: _ => pending.tree

/-- The application of the atoms read so far to one more atom. -/
def extend (tree : Option Term) (atom : Term) : Term :=
  match tree with
  | none => atom
  | some left => .app left atom

/-- Adds an atom to the innermost expression. -/
def Stack.push (stack : Stack) (atom : Term) : Stack :=
  match stack.inner with
  | [] => { stack with root := some (extend stack.root atom) }
  | pending :: outer =>
    { stack with inner := { pending with tree := some (extend pending.tree atom) } :: outer }

/-- Starts an inner expression. -/
def Stack.open (stack : Stack) (opener : Opener) : Stack :=
  { stack with inner := ⟨opener, none⟩ :: stack.inner }

/-- Whether a token of the kind ends an application. -/
def stops (kind : TokenKind) : Bool :=
  kind = .closing || kind = .dot || kind = .endOfInput

/-- What one turn of the parser leads to. -/
inductive Turn where
  /-- The whole term has been read. -/
  | done (term : Term)
  /-- There is more to read. -/
  | more (stack : Stack)

/-- Ends the innermost expression, of which `tree` has been read. -/
def close (stack : Stack) (tree : Term) : Action Parser Turn :=
  match stack.inner with
  | [] => do
    if ← atEnd then return .done tree else reject "expected end of input"
  | ⟨.parenthesis, _⟩ :: outer => do
    let _ ← consume .closing "expected ')' after expression"
    return .more (Stack.push { stack with inner := outer } tree)
  | ⟨.abstraction param, _⟩ :: outer =>
    return .more (Stack.push { stack with inner := outer } (.abs param tree))

/-- Reads a variable, or the start of any other atom. -/
def atom (stack : Stack) : Action Parser Turn := do
  if ← accept [.lambda] then
    let param ← consume .name "expected parameter name after lambda"
    let _ ← consume .dot "expected '.' after parameter name in lambda abstraction"
    return .more (stack.open (.abstraction param.lexeme))
  else if ← accept [.name] then
    return .more (stack.push (.var (← previous).lexeme))
  else if ← accept [.opening] then
    return .more (stack.open .parenthesis)
  else reject "expected a variable, lambda or '('"

/-- One turn of the parser: an application that has atoms and meets its end is closed, and any
other reads on. -/
def turn (stack : Stack) : Action Parser Turn := do
  match stack.tree with
  | none => atom stack
  | some tree =>
    let token ← peek
    if stops token.kind then close stack tree else atom stack

/-- How much is left to do: twice the tokens that are left, and the inner expressions. -/
def workLeft (stack : Stack) (p : Parser) : Nat :=
  2 * (p.tokens.size - p.current) + stack.inner.length

/-- Looking at a token changes nothing. -/
theorem tokenAt_eq_ok {index : Nat} {p p' : Parser} {token : Token} :
    tokenAt index p = .ok token p' ↔ p.tokens[index]? = some token ∧ p = p' := by
  unfold tokenAt
  split <;> simp_all

/-- Looking at the next token changes nothing. -/
theorem peek_eq_ok {p p' : Parser} {token : Token} :
    peek p = .ok token p' ↔ p.tokens[p.current]? = some token ∧ p = p' := tokenAt_eq_ok

/-- Looking back changes nothing. -/
theorem state_of_previous {p p' : Parser} {token : Token} (h : previous p = .ok token p') :
    p' = p := (tokenAt_eq_ok.mp h).2.symm

/-- Checking the kind of the next token changes nothing. -/
theorem check_eq_ok {kind : TokenKind} {p p' : Parser} {holds : Bool} :
    check kind p = .ok holds p' ↔
      ∃ token, p.tokens[p.current]? = some token ∧ decide (token.kind = kind) = holds ∧ p = p' := by
  unfold check
  simp only [Action.bind_eq_ok, peek_eq_ok, Action.pure_eq_ok]
  constructor
  · rintro ⟨token, _, ⟨found, rfl⟩, holds, rfl⟩
    exact ⟨token, found, holds, rfl⟩
  · rintro ⟨token, found, holds, rfl⟩
    exact ⟨token, p, ⟨found, rfl⟩, holds, rfl⟩

/-- A token that is there and is not the end of input is moved past. -/
theorem state_of_advance {p p' : Parser} {token seen : Token} (h : advance p = .ok token p')
    (found : p.tokens[p.current]? = some seen) (more : seen.kind ≠ .endOfInput) :
    p' = p.moved := by
  unfold advance at h
  rw [Action.bind_eq_ok] at h
  obtain ⟨ended, q, checked, rest⟩ := h
  obtain ⟨seen', found', holds, rfl⟩ := check_eq_ok.mp checked
  obtain rfl : seen = seen' := Option.some.inj (found.symm.trans found')
  rw [decide_eq_false more] at holds
  subst holds
  simp only [Bool.false_eq_true, if_false] at rest
  rw [Action.bind_eq_ok] at rest
  obtain ⟨_, q, changed, rest⟩ := rest
  obtain rfl := Action.modify_eq_ok.mp changed
  exact state_of_previous rest

/-- Reading a token that is not the end of input moves past it. -/
theorem state_of_consume {kind : TokenKind} {expected : String} {p p' : Parser} {token : Token}
    (h : consume kind expected p = .ok token p') (more : kind ≠ .endOfInput) :
    p' = p.moved ∧ p.current < p.tokens.size := by
  unfold consume at h
  rw [Action.bind_eq_ok] at h
  obtain ⟨holds, q, checked, rest⟩ := h
  obtain ⟨seen, found, same, rfl⟩ := check_eq_ok.mp checked
  by_cases kinds : seen.kind = kind
  · rw [decide_eq_true kinds] at same
    subst same
    simp only [if_true] at rest
    exact ⟨state_of_advance rest found (kinds ▸ more), (Array.getElem?_eq_some_iff.mp found).1⟩
  · rw [decide_eq_false kinds] at same
    subst same
    simp only [Bool.false_eq_true, if_false, reject, Action.bind_eq_ok, Action.throw_ne_ok,
      and_false, exists_false] at rest

/-- Accepting one kind that is not the end of input moves past a token or does nothing. -/
theorem state_of_accept {kind : TokenKind} {p p' : Parser} {accepted : Bool}
    (h : accept [kind] p = .ok accepted p') (more : kind ≠ .endOfInput) :
    if accepted then p' = p.moved ∧ p.current < p.tokens.size else p' = p := by
  simp only [accept] at h
  rw [Action.bind_eq_ok] at h
  obtain ⟨holds, q, checked, rest⟩ := h
  obtain ⟨seen, found, same, rfl⟩ := check_eq_ok.mp checked
  by_cases kinds : seen.kind = kind
  · rw [decide_eq_true kinds] at same
    subst same
    simp only [if_true, Action.bind_eq_ok, Action.pure_eq_ok] at rest
    obtain ⟨_, _, moved, rfl, rfl⟩ := rest
    simpa using ⟨state_of_advance moved found (kinds ▸ more),
      (Array.getElem?_eq_some_iff.mp found).1⟩
  · rw [decide_eq_false kinds] at same
    subst same
    simp only [Bool.false_eq_true, if_false, Action.pure_eq_ok] at rest
    obtain ⟨rfl, rfl⟩ := rest
    simp

/-- Adding an atom changes no nesting. -/
theorem length_inner_push (stack : Stack) (atom : Term) :
    (stack.push atom).inner.length = stack.inner.length := by
  unfold Stack.push
  split <;> simp_all

/-- Closing an expression leaves less to do. -/
theorem workLeft_close_lt {stack stack' : Stack} {tree : Term} {p p' : Parser}
    (h : close stack tree p = .ok (.more stack') p') : workLeft stack' p' < workLeft stack p := by
  unfold close at h
  rcases nested : stack.inner with _ | ⟨⟨opener, read⟩, outer⟩
  · simp only [nested, Action.bind_eq_ok] at h
    obtain ⟨ended, q, -, rest⟩ := h
    cases ended <;>
      simp [reject, Action.bind_eq_ok, Action.throw_ne_ok, Action.pure_eq_ok] at rest
  · cases opener with
    | parenthesis =>
      simp only [nested, Action.bind_eq_ok, Action.pure_eq_ok] at h
      obtain ⟨_, q, consumed, same, rfl⟩ := h
      obtain ⟨rfl, bound⟩ := state_of_consume consumed (by decide)
      cases same
      simp only [workLeft, length_inner_push, moved, nested, List.length_cons]
      omega
    | abstraction param =>
      simp only [nested] at h
      obtain ⟨same, rfl⟩ := Action.pure_eq_ok.mp h
      cases same
      simp only [workLeft, length_inner_push, nested, List.length_cons]
      omega

/-- Reading an atom or its start leaves less to do. -/
theorem workLeft_atom_lt {stack stack' : Stack} {p p' : Parser}
    (h : atom stack p = .ok (.more stack') p') : workLeft stack' p' < workLeft stack p := by
  unfold atom at h
  rw [Action.bind_eq_ok] at h
  obtain ⟨isLambda, q, accepted, rest⟩ := h
  have moved₁ := state_of_accept accepted (by decide)
  cases isLambda with
  | true =>
    simp only [if_true, Action.bind_eq_ok, Action.pure_eq_ok] at rest moved₁
    obtain ⟨param, q₂, consumed, _, q₃, consumed', same, rfl⟩ := rest
    obtain ⟨rfl, bound⟩ := moved₁
    obtain ⟨rfl, -⟩ := state_of_consume consumed (by decide)
    obtain ⟨rfl, -⟩ := state_of_consume consumed' (by decide)
    cases same
    simp only [workLeft, moved, Stack.open, List.length_cons]
    omega
  | false =>
    simp only [Bool.false_eq_true, if_false] at rest moved₁
    subst moved₁
    rw [Action.bind_eq_ok] at rest
    obtain ⟨isName, q, accepted, rest⟩ := rest
    have moved₂ := state_of_accept accepted (by decide)
    cases isName with
    | true =>
      simp only [if_true, Action.bind_eq_ok, Action.pure_eq_ok] at rest moved₂
      obtain ⟨name, q₂, looked, same, rfl⟩ := rest
      obtain ⟨rfl, bound⟩ := moved₂
      obtain rfl := state_of_previous looked
      cases same
      simp only [workLeft, moved, length_inner_push]
      omega
    | false =>
      simp only [Bool.false_eq_true, if_false] at rest moved₂
      subst moved₂
      rw [Action.bind_eq_ok] at rest
      obtain ⟨isOpening, q, accepted, rest⟩ := rest
      have moved₃ := state_of_accept accepted (by decide)
      cases isOpening with
      | true =>
        simp only [if_true, Action.pure_eq_ok] at rest moved₃
        obtain ⟨same, rfl⟩ := rest
        obtain ⟨rfl, bound⟩ := moved₃
        cases same
        simp only [workLeft, moved, Stack.open, List.length_cons]
        omega
      | false =>
        simp only [Bool.false_eq_true, if_false, reject, Action.bind_eq_ok, Action.throw_ne_ok,
          and_false, exists_false] at rest

/-- Every turn leaves less to do. -/
theorem workLeft_turn_lt {stack stack' : Stack} {p p' : Parser}
    (h : turn stack p = .ok (.more stack') p') : workLeft stack' p' < workLeft stack p := by
  unfold turn at h
  cases read : stack.tree with
  | none => exact workLeft_atom_lt (by simpa [read] using h)
  | some tree =>
    simp only [read] at h
    rw [Action.bind_eq_ok] at h
    obtain ⟨token, q, looked, rest⟩ := h
    obtain ⟨-, rfl⟩ := peek_eq_ok.mp looked
    by_cases stop : stops token.kind = true
    · exact workLeft_close_lt (by simpa [stop] using rest)
    · exact workLeft_atom_lt (by simpa [stop] using rest)

/-- Turns until the whole term has been read. -/
def parseFrom (stack : Stack) (p : Parser) : EStateM.Result Fault Parser Term :=
  match _step : turn stack p with
  | .error fault p => .error fault p
  | .ok (.done term) p => .ok term p
  | .ok (.more stack) p => parseFrom stack p
termination_by workLeft stack p
decreasing_by exact workLeft_turn_lt _step

/-- Whether one of the tokens from an index up to the next one is a name that spells nothing. -/
def passedNameless (p : Parser) (start : Nat) : Bool :=
  (p.tokens.extract start p.current).any Token.isNameless

/-- Reads a whole term and the end of input, from the next token on. Names that spell nothing are
read over, but they make no term. -/
def parse : Action Parser Term := do
  let start := (← get).current
  let term ← parseFrom ⟨none, []⟩
  if (← get).passedNameless start then throw (.defect .noName)
  return term

end Parser

end UntypedLambda
