/-!
# Tokens

The lexical units of λ-terms. A token knows where it starts: the offset of its first character in
the trimmed text.
-/

namespace UntypedLambda

/-- The shapes of tokens. -/
inductive TokenKind where
  /-- The start of an abstraction. -/
  | lambda
  /-- A name. -/
  | name
  /-- The dot between a parameter and a body. -/
  | dot
  /-- An opening parenthesis. -/
  | opening
  /-- A closing parenthesis. -/
  | closing
  /-- The end of the text. -/
  | endOfInput
  deriving DecidableEq, Inhabited

/-- The word for a kind of token in messages. -/
def TokenKind.display : TokenKind → String
  | lambda => "Lambda"
  | name => "Variable"
  | dot => "Dot"
  | opening => "LParen"
  | closing => "RParen"
  | endOfInput => "EndOfInput"

/-- A single lexical unit. -/
structure Token where
  /-- Its shape. -/
  kind : TokenKind
  /-- The name that it spells, for a name. -/
  value : Option String
  /-- The offset of its first character. -/
  position : Int
  deriving DecidableEq, Inhabited

namespace Token

/-- The canonical spelling. Both spellings of lambda give the Greek letter. -/
def lexeme (token : Token) : String :=
  match token.kind with
  | .lambda => "λ"
  | .name => token.value.getD ""
  | .dot => "."
  | .opening => "("
  | .closing => ")"
  | .endOfInput => ""

/-- Whether a token is a name that spells nothing. No text has such a token. -/
def isNameless (token : Token) : Bool := token.kind = .name && token.value.isNone

/-- The canonical spelling, or the word for its kind if there is nothing to spell. -/
def display (token : Token) : String :=
  if token.lexeme.isEmpty then token.kind.display else token.lexeme

end Token

end UntypedLambda
