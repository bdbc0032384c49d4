import UntypedLambda.Term.Parser

/-!
# The grammar of terms

    expression  ::= atom atom*
    atom        ::= lambda name dot expression | name | opening expression closing

The grammar says which rows of tokens are terms, but it leaves open where the body of an
abstraction ends: an atom that follows can belong to the body or to the application outside. A
reading settles this. It knows the tokens that follow a phrase, and lets a body end only in front
of a closing parenthesis or at the end of the row. Every row that the grammar derives has a
reading.
-/

namespace UntypedLambda

/-- The phrases of the grammar. -/
inductive Phrase where
  /-- A variable, an abstraction or an expression in parentheses. -/
  | atom
  /-- Any number of atoms. -/
  | atoms
  /-- An atom and any number of atoms. -/
  | expression
  deriving DecidableEq

/-- The rows of tokens that the grammar derives from a phrase. -/
inductive Derives : Phrase → List Token → Prop where
  /-- A name is a variable. -/
  | var {name : Token} (isName : name.kind = .name) : Derives .atom [name]
  /-- A lambda, a name, a dot and a body are an abstraction. -/
  | abstraction {lambda param dot : Token} {body : List Token} (isLambda : lambda.kind = .lambda)
      (isName : param.kind = .name) (isDot : dot.kind = .dot) (inner : Derives .expression body) :
      Derives .atom (lambda :: param :: dot :: body)
  /-- An expression between parentheses is an atom. -/
  | parentheses {opening closing : Token} {inside : List Token}
      (isOpening : opening.kind = .opening) (isClosing : closing.kind = .closing)
      (inner : Derives .expression inside) : Derives .atom (opening :: (inside ++ [closing]))
  /-- No atoms. -/
  | noAtoms : Derives .atoms []
  /-- An atom before others. -/
  | moreAtoms {first others : List Token} (head : Derives .atom first)
      (tail : Derives .atoms others) : Derives .atoms (first ++ others)
  /-- An atom and the atoms after it are an expression. -/
  | expression {first others : List Token} (head : Derives .atom first)
      (tail : Derives .atoms others) : Derives .expression (first ++ others)

/-- Whether the body of an abstraction can end in front of some tokens: at the end of the row, or
at the parenthesis that closes around the abstraction. -/
def BodyEnds (follow : List Token) : Prop := ∀ token ∈ follow.head?, token.kind = .closing

/-- What is to be read: an atom, or the rest of an expression after the application of the atoms
read so far, if there are any. -/
inductive Sought where
  /-- An atom. -/
  | atom
  /-- The atoms that are still to come of an expression. -/
  | after (read : Option Term)

/-- The term that a row of tokens spells in front of the tokens that follow it. Atoms are applied
from the left, and the body of an abstraction reaches as far as it can. -/
inductive Reads : Sought → List Token → List Token → Term → Prop where
  /-- A name spells a variable. -/
  | var {name : Token} {text : String} {follow : List Token} (isName : name.kind = .name)
      (spells : name.value = some text) : Reads .atom [name] follow (.var text)
  /-- A body that ends where it has to. -/
  | abstraction {lambda param dot : Token} {text : String} {body follow : List Token} {tree : Term}
      (isLambda : lambda.kind = .lambda) (isName : param.kind = .name)
      (spells : param.value = some text) (isDot : dot.kind = .dot) (ends : BodyEnds follow)
      (inner : Reads (.after none) body follow tree) :
      Reads .atom (lambda :: param :: dot :: body) follow (.abs text tree)
  /-- Parentheses spell what is between them. -/
  | parentheses {opening closing : Token} {inside follow : List Token} {tree : Term}
      (isOpening : opening.kind = .opening) (isClosing : closing.kind = .closing)
      (inner : Reads (.after none) inside (closing :: follow) tree) :
      Reads .atom (opening :: (inside ++ [closing])) follow tree
  /-- The expression ends after its last atom. -/
  | done {follow : List Token} (tree : Term) : Reads (.after (some tree)) [] follow tree
  /-- The next atom is applied to, or starts the expression. -/
  | next {read : Option Term} {first others follow : List Token} {atom tree : Term}
      (head : Reads .atom first (others ++ follow) atom)
      (tail : Reads (.after (some (Parser.extend read atom))) others follow tree) :
      Reads (.after read) (first ++ others) follow tree

/-- The ways to read on from a first token. -/
inductive ReadsFrom (read : Option Term) (follow : List Token) (tree : Term) :
    Token → List Token → Prop where
  /-- The token is a variable. -/
  | var {name : Token} {others : List Token} {text : String} (isName : name.kind = .name)
      (spells : name.value = some text)
      (tail : Reads (.after (some (Parser.extend read (.var text)))) others follow tree) :
      ReadsFrom read follow tree name others
  /-- The token starts an abstraction. -/
  | abstraction {lambda param dot : Token} {text : String} {body others : List Token} {inner : Term}
      (isLambda : lambda.kind = .lambda) (isName : param.kind = .name)
      (spells : param.value = some text) (isDot : dot.kind = .dot)
      (ends : BodyEnds (others ++ follow))
      (bodyReads : Reads (.after none) body (others ++ follow) inner)
      (tail : Reads (.after (some (Parser.extend read (.abs text inner)))) others follow tree) :
      ReadsFrom read follow tree lambda (param :: dot :: (body ++ others))
  /-- The token opens a parenthesis. -/
  | parentheses {opening closing : Token} {inside others : List Token} {inner : Term}
      (isOpening : opening.kind = .opening) (isClosing : closing.kind = .closing)
      (insideReads : Reads (.after none) inside (closing :: (others ++ follow)) inner)
      (tail : Reads (.after (some (Parser.extend read inner))) others follow tree) :
      ReadsFrom read follow tree opening (inside ++ closing :: others)

/-- Nothing is left to read exactly if everything has been read. -/
theorem reads_nil {read : Option Term} {follow : List Token} {tree : Term} :
    Reads (.after read) [] follow tree ↔ read = some tree := by
  constructor
  · intro h
    generalize htokens : ([] : List Token) = tokens at h
    cases h with
    | done tree => rfl
    | next head tail =>
      obtain ⟨rfl, -⟩ := List.append_eq_nil_iff.mp htokens.symm
      nomatch head
  · rintro rfl
    exact .done tree

/-- A row that is not empty is read from its first token. -/
theorem reads_cons {read : Option Term} {token : Token} {others follow : List Token} {tree : Term} :
    Reads (.after read) (token :: others) follow tree ↔ ReadsFrom read follow tree token others := by
  constructor
  · intro h
    generalize htokens : token :: others = tokens at h
    cases h with
    | done tree => cases htokens
    | next head tail =>
      cases head with
      | var isName spells =>
        obtain ⟨rfl, rfl⟩ := List.cons.inj htokens
        exact .var isName spells tail
      | abstraction isLambda isName spells isDot ends inner =>
        obtain ⟨rfl, rfl⟩ := List.cons.inj htokens
        exact .abstraction isLambda isName spells isDot ends inner tail
      | parentheses isOpening isClosing inner =>
        rw [List.cons_append, List.append_assoc, List.singleton_append] at htokens
        obtain ⟨rfl, rfl⟩ := List.cons.inj htokens
        exact .parentheses isOpening isClosing inner tail
  · intro h
    cases h with
    | var isName spells tail => exact .next (.var isName spells) tail
    | abstraction isLambda isName spells isDot ends bodyReads tail =>
      exact .next (.abstraction isLambda isName spells isDot ends bodyReads) tail
    | parentheses isOpening isClosing insideReads tail =>
      have hnext := Reads.next (.parentheses isOpening isClosing insideReads) tail
      rwa [List.cons_append, List.append_assoc, List.singleton_append] at hnext

/-- A token from which something is read does not end an application. -/
theorem ReadsFrom.stops_eq_false {read : Option Term} {token : Token} {others follow : List Token}
    {tree : Term} (h : ReadsFrom read follow tree token others) :
    Parser.stops token.kind = false := by
  cases h with
  | var isName _ _ => rw [isName]; rfl
  | abstraction isLambda _ _ _ _ _ _ => rw [isLambda]; rfl
  | parentheses isOpening _ _ _ => rw [isOpening]; rfl

/-- The phrase that is left of what is sought. -/
def Sought.phrase : Sought → Phrase
  | .atom => .atom
  | .after none => .expression
  | .after (some _) => .atoms

/-- What can be read is derived by the grammar. -/
theorem Reads.derives {sought : Sought} {tokens follow : List Token} {tree : Term}
    (h : Reads sought tokens follow tree) : Derives sought.phrase tokens := by
  induction h with
  | var isName _ => exact .var isName
  | abstraction isLambda isName _ isDot _ _ ih => exact .abstraction isLambda isName isDot ih
  | parentheses isOpening isClosing _ ih => exact .parentheses isOpening isClosing ih
  | done tree => exact .noAtoms
  | @next read _ _ _ _ _ _ _ ihh iht =>
    cases read with
    | none => exact .expression ihh iht
    | some left => exact .moreAtoms ihh iht

/-- Whether every name in a row of tokens spells something. -/
def Spelled (tokens : List Token) : Prop :=
  ∀ token ∈ tokens, token.kind = .name → ∃ text, token.value = some text

/-- No token of such a row is a name that spells nothing. -/
theorem Spelled.isNameless_eq_false {tokens : List Token} (h : Spelled tokens) {token : Token}
    (hmem : token ∈ tokens) : token.isNameless = false := by
  unfold Token.isNameless
  by_cases hname : token.kind = .name
  · obtain ⟨text, spells⟩ := h token hmem hname
    rw [spells, Option.isNone_some, Bool.and_false]
  · rw [decide_eq_false hname, Bool.false_and]

/-- Whether a row can be read on with after any of the given beginnings, wherever a body can end. -/
def ReadableAfter (starts : Option Term → Prop) (tokens : List Token) : Prop :=
  ∀ read follow, starts read → BodyEnds follow → ∃ tree, Reads (.after read) tokens follow tree

/-- Fewer beginnings leave more rows readable. -/
theorem ReadableAfter.mono {starts starts' : Option Term → Prop} {tokens : List Token}
    (h : ReadableAfter starts tokens) (himp : ∀ read, starts' read → starts read) :
    ReadableAfter starts' tokens :=
  fun read follow hread hends => h read follow (himp read hread) hends

/-- The empty row can be read on with after an atom. -/
theorem readableAfter_nil : ReadableAfter (fun read => read.isSome) [] := by
  intro read follow hread _
  obtain ⟨tree, rfl⟩ := Option.isSome_iff_exists.mp hread
  exact ⟨tree, .done tree⟩

/-- Rows that the grammar derives can be read, also in front of atoms that can be read. An
abstraction takes these atoms into its body, whoever they belonged to in the derivation. -/
theorem Derives.readable {phrase : Phrase} {tokens : List Token} (h : Derives phrase tokens)
    (hspelled : Spelled tokens) {others : List Token}
    (hothers : ReadableAfter (fun read => read.isSome) others) :
    ReadableAfter (fun read => phrase = .atoms → read.isSome) (tokens ++ others) := by
  induction h generalizing others with
  | @var name isName =>
    intro read follow _ hends
    obtain ⟨text, spells⟩ := hspelled name List.mem_cons_self isName
    obtain ⟨tree, htree⟩ := hothers (some (Parser.extend read (.var text))) follow rfl hends
    exact ⟨tree, .next (.var isName spells) htree⟩
  | @abstraction lambda param dot body isLambda isName isDot _ ih =>
    intro read follow _ hends
    obtain ⟨text, spells⟩ := hspelled param (by simp) isName
    have hbody := ih (fun token hmem => hspelled token (by simp [hmem])) hothers
    obtain ⟨tree, htree⟩ := hbody none follow nofun hends
    refine ⟨Parser.extend read (.abs text tree), ?_⟩
    have hatom : Reads .atom (lambda :: param :: dot :: (body ++ others)) ([] ++ follow)
        (.abs text tree) := .abstraction isLambda isName spells isDot hends htree
    simpa using Reads.next hatom (.done _)
  | @parentheses opening closing inside isOpening isClosing _ ih =>
    intro read follow _ hends
    have hinside := ih (fun token hmem => hspelled token (by simp [hmem])) readableAfter_nil
    rw [List.append_nil] at hinside
    have hclosing : BodyEnds (closing :: (others ++ follow)) := by
      intro token hmem
      obtain rfl := Option.some.inj hmem
      exact isClosing
    obtain ⟨inner, hinner⟩ := hinside none _ nofun hclosing
    obtain ⟨tree, htree⟩ := hothers (some (Parser.extend read inner)) follow rfl hends
    exact ⟨tree, .next (.parentheses isOpening isClosing hinner) htree⟩
  | noAtoms => exact hothers.mono fun _ hread => hread rfl
  | @moreAtoms first rest _ _ ihh iht =>
    have hrest := iht (fun token hmem => hspelled token (List.mem_append_right first hmem)) hothers
    have hfirst := ihh (fun token hmem => hspelled token (List.mem_append_left rest hmem))
      (hrest.mono fun _ hread _ => hread)
    rw [List.append_assoc]
    exact hfirst.mono fun _ _ => nofun
  | @expression first rest _ _ ihh iht =>
    have hrest := iht (fun token hmem => hspelled token (List.mem_append_right first hmem)) hothers
    have hfirst := ihh (fun token hmem => hspelled token (List.mem_append_left rest hmem))
      (hrest.mono fun _ hread _ => hread)
    rw [List.append_assoc]
    exact hfirst.mono fun _ _ => nofun

/-- The rows that can be read to the end are those that the grammar derives. -/
theorem exists_reads_iff {tokens : List Token} (hspelled : Spelled tokens) :
    (∃ tree, Reads (.after none) tokens [] tree) ↔ Derives .expression tokens := by
  constructor
  · rintro ⟨tree, htree⟩
    exact htree.derives
  · intro h
    have hreadable := h.readable hspelled readableAfter_nil
    rw [List.append_nil] at hreadable
    exact hreadable none [] nofun nofun

end UntypedLambda
