import UntypedLambda.Term.Parser
import UntypedLambda.Token.Scanner

/-!
# Reading terms

The term that a text spells: its tokens are scanned to the end before the first of them is parsed,
so a character that starts no token counts before a token that is out of place.
-/

namespace UntypedLambda.Term

/-- The term that a text spells. -/
def parse (text : String) : Except Fault Term :=
  let scanner := Scanner.ofString text
  match scanner.tokenize.1 with
  | .error problem => .error problem.fault
  | .ok tokens => Action.outcome (Parser.parse (Parser.ofTokens tokens scanner.source))

end UntypedLambda.Term
