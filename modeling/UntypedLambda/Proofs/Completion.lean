import UntypedLambda.Proofs.Grammar
import UntypedLambda.Proofs.ParserTurn

/-!
# What the pending expressions come to

A stack of expressions that are still being read promises a term: every expression is read on to
its end and is then an atom of the one around it. A row of tokens completes the stack to a term if
it keeps this promise. The empty stack is completed to the terms that the row spells, and no turn
of the parser changes the terms that its stack and the tokens before the end of input come to.
-/

namespace UntypedLambda.Parser

/-- The terms that a row of tokens completes a stack to. -/
inductive Completes : Stack → List Token → Term → Prop where
  /-- The outermost expression ends with the row. -/
  | outermost {read : Option Term} {tokens : List Token} {tree : Term}
      (reads : Reads (.after read) tokens [] tree) : Completes ⟨read, []⟩ tokens tree
  /-- An expression in parentheses is closed and is an atom of the one around it. -/
  | group {root read : Option Term} {outer : List Pending} {closing : Token}
      {inside rest : List Token} {inner tree : Term} (isClosing : closing.kind = .closing)
      (reads : Reads (.after read) inside (closing :: rest) inner)
      (outside : Completes (Stack.push ⟨root, outer⟩ inner) rest tree) :
      Completes ⟨root, ⟨.parenthesis, read⟩ :: outer⟩ (inside ++ closing :: rest) tree
  /-- A body ends where it has to, and the abstraction is an atom of the expression around it. -/
  | body {root read : Option Term} {outer : List Pending} {param : String}
      {inside rest : List Token} {inner tree : Term} (ends : BodyEnds rest)
      (reads : Reads (.after read) inside rest inner)
      (outside : Completes (Stack.push ⟨root, outer⟩ (.abs param inner)) rest tree) :
      Completes ⟨root, ⟨.abstraction param, read⟩ :: outer⟩ (inside ++ rest) tree

/-- Whether the tokens after the innermost expression complete a stack to a term, once the
innermost expression has been read. -/
def Closes (stack : Stack) (follow : List Token) (inner tree : Term) : Prop :=
  match stack.inner with
  | [] => follow = [] ∧ inner = tree
  | ⟨.parenthesis, _⟩ :: outer =>
    ∃ closing rest, follow = closing :: rest ∧ closing.kind = .closing ∧
      Completes (Stack.push ⟨stack.root, outer⟩ inner) rest tree
  | ⟨.abstraction param, _⟩ :: outer =>
    BodyEnds follow ∧ Completes (Stack.push ⟨stack.root, outer⟩ (.abs param inner)) follow tree

variable {stack : Stack} {token : Token} {tokens rest follow : List Token} {inner tree : Term}

/-- A row completes a stack by reading its innermost expression on and closing it. -/
theorem completes_iff : Completes stack tokens tree ↔
    ∃ inside follow inner, tokens = inside ++ follow ∧
      Reads (.after stack.tree) inside follow inner ∧ Closes stack follow inner tree := by
  constructor
  · intro h
    cases h with
    | outermost reads => exact ⟨_, [], _, (List.append_nil _).symm, reads, rfl, rfl⟩
    | group isClosing reads outside =>
      exact ⟨_, _, _, rfl, reads, _, _, rfl, isClosing, outside⟩
    | body ends reads outside => exact ⟨_, _, _, rfl, reads, ends, outside⟩
  · rintro ⟨inside, follow, inner, rfl, reads, closes⟩
    obtain ⟨root, pending⟩ := stack
    match pending with
    | [] =>
      obtain ⟨rfl, rfl⟩ := closes
      rw [List.append_nil]
      exact .outermost reads
    | ⟨.parenthesis, _⟩ :: outer =>
      obtain ⟨closing, rest, rfl, isClosing, outside⟩ := closes
      exact .group isClosing reads outside
    | ⟨.abstraction param, _⟩ :: outer =>
      obtain ⟨ends, outside⟩ := closes
      exact .body ends reads outside

/-- The outermost expression alone is completed to what is read. -/
theorem completes_outermost {read : Option Term} :
    Completes ⟨read, []⟩ tokens tree ↔ Reads (.after read) tokens [] tree := by
  constructor
  · intro h
    cases h with
    | outermost reads => exact reads
  · exact .outermost

/-- An atom is added to what has been read of the innermost expression. -/
theorem tree_push (stack : Stack) (atom : Term) :
    (stack.push atom).tree = some (extend stack.tree atom) := by
  obtain ⟨root, _ | ⟨pending, outer⟩⟩ := stack <;> rfl

/-- An atom that is added does not change how a stack is closed. -/
theorem closes_push (atom : Term) :
    Closes (stack.push atom) follow inner tree ↔ Closes stack follow inner tree := by
  obtain ⟨root, _ | ⟨⟨opener, read⟩, outer⟩⟩ := stack
  · rfl
  · cases opener <;> rfl

/-- After another atom, the innermost expression is read on. -/
theorem completes_push (atom : Term) : Completes (stack.push atom) tokens tree ↔
    ∃ others follow inner, tokens = others ++ follow ∧
      Reads (.after (some (extend stack.tree atom))) others follow inner ∧
      Closes stack follow inner tree := by
  rw [completes_iff, tree_push]
  simp only [closes_push]

/-- The innermost expression is closed in front of a closing parenthesis or nothing. -/
theorem Closes.isClosing (h : Closes stack (token :: rest) inner tree) :
    token.kind = .closing := by
  obtain ⟨root, pending⟩ := stack
  match pending with
  | [] => nomatch h.1
  | ⟨.parenthesis, _⟩ :: outer =>
    obtain ⟨closing, rest, heq, isClosing, -⟩ := h
    rw [(List.cons.inj heq).1]
    exact isClosing
  | ⟨.abstraction param, _⟩ :: outer => exact h.1 token rfl

/-- In front of a token that goes on, the innermost expression is read from that token. -/
theorem completes_cons {kind : TokenKind} (hkind : token.kind = kind)
    (hgoes : stops kind = false) :
    Completes stack (token :: rest) tree ↔
      ∃ others follow inner, rest = others ++ follow ∧
        ReadsFrom stack.tree follow inner token others ∧ Closes stack follow inner tree := by
  rw [completes_iff]
  constructor
  · rintro ⟨inside, follow, inner, heq, reads, closes⟩
    cases inside with
    | nil =>
      obtain rfl : token :: rest = follow := heq
      rw [← hkind, closes.isClosing] at hgoes
      nomatch hgoes
    | cons first others =>
      obtain ⟨rfl, rfl⟩ := List.cons.inj heq
      exact ⟨others, follow, inner, rfl, reads_cons.mp reads, closes⟩
  · rintro ⟨others, follow, inner, rfl, reads, closes⟩
    exact ⟨token :: others, follow, inner, rfl, reads_cons.mpr reads, closes⟩

/-- In front of a token that ends an application, or of nothing, the innermost expression has been
read. -/
theorem completes_at_stop (hstop : ∀ token ∈ tokens.head?, stops token.kind = true) :
    Completes stack tokens tree ↔ ∃ inner, stack.tree = some inner ∧
      Closes stack tokens inner tree := by
  rw [completes_iff]
  constructor
  · rintro ⟨inside, follow, inner, rfl, reads, closes⟩
    cases inside with
    | nil => exact ⟨inner, reads_nil.mp reads, closes⟩
    | cons first others =>
      have hgoes := (reads_cons.mp reads).stops_eq_false
      rw [hstop first rfl] at hgoes
      nomatch hgoes
  · rintro ⟨inner, hread, closes⟩
    exact ⟨[], tokens, inner, rfl, reads_nil.mpr hread, closes⟩

/-- A name is read as the variable that it spells. -/
theorem completes_var (isName : token.kind = .name) {text : String}
    (spells : token.value = some text) :
    Completes stack (token :: tokens) tree ↔ Completes (stack.push (.var text)) tokens tree := by
  rw [completes_cons isName rfl, completes_push]
  constructor
  · rintro ⟨others, follow, inner, rfl, reads, closes⟩
    cases reads with
    | var _ spells' tail =>
      obtain rfl := Option.some.inj (spells.symm.trans spells')
      exact ⟨others, follow, inner, rfl, tail, closes⟩
    | abstraction isLambda => nomatch isName.symm.trans isLambda
    | parentheses isOpening => nomatch isName.symm.trans isOpening
  · rintro ⟨others, follow, inner, rfl, tail, closes⟩
    exact ⟨others, follow, inner, rfl, .var isName spells tail, closes⟩

/-- A lambda is followed by a name and a dot, and then by a body and what comes after it. -/
theorem completes_lambda (isLambda : token.kind = .lambda) :
    Completes stack (token :: tokens) tree ↔ ∃ param dot text rest,
      tokens = param :: dot :: rest ∧ param.kind = .name ∧ param.value = some text ∧
        dot.kind = .dot ∧ Completes (stack.open (.abstraction text)) rest tree := by
  rw [completes_cons isLambda rfl]
  constructor
  · rintro ⟨others, follow, inner, rfl, reads, closes⟩
    cases reads with
    | var isName => nomatch isLambda.symm.trans isName
    | @abstraction param dot text body others _ _ isName spells isDot ends bodyReads tail =>
      refine ⟨param, dot, text, body ++ (others ++ follow), by simp, isName, spells, isDot, ?_⟩
      exact .body ends bodyReads
        ((completes_push _).mpr ⟨others, follow, inner, rfl, tail, closes⟩)
    | parentheses isOpening => nomatch isLambda.symm.trans isOpening
  · rintro ⟨param, dot, text, rest, rfl, isName, spells, isDot, h⟩
    cases h with
    | @body _ _ _ _ body after _ _ ends bodyReads outside =>
      obtain ⟨others, follow, inner, rfl, tail, closes⟩ := (completes_push _).mp outside
      exact ⟨_, follow, inner, by simp,
        .abstraction isLambda isName spells isDot ends bodyReads tail, closes⟩

/-- An opening parenthesis starts an inner expression. -/
theorem completes_opening (isOpening : token.kind = .opening) :
    Completes stack (token :: tokens) tree ↔ Completes (stack.open .parenthesis) tokens tree := by
  rw [completes_cons isOpening rfl]
  constructor
  · rintro ⟨others, follow, inner, rfl, reads, closes⟩
    cases reads with
    | var isName => nomatch isOpening.symm.trans isName
    | abstraction isLambda => nomatch isOpening.symm.trans isLambda
    | @parentheses closing inside others _ _ isClosing insideReads tail =>
      rw [List.append_assoc, List.cons_append]
      exact .group isClosing insideReads
        ((completes_push _).mpr ⟨others, follow, inner, rfl, tail, closes⟩)
  · intro h
    cases h with
    | @group _ _ _ closing inside after _ _ isClosing insideReads outside =>
      obtain ⟨others, follow, inner, rfl, tail, closes⟩ := (completes_push _).mp outside
      exact ⟨_, follow, inner, by simp, .parentheses isOpening isClosing insideReads tail, closes⟩

end UntypedLambda.Parser
