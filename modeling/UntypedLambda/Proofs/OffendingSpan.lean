import UntypedLambda.Proofs.ReplacedPositions

/-!
# The offending span

A text that spells no term is shown with the place where it goes wrong. What is shown there is the
character that starts no token, or the token that does not continue the term, as the text spells it.
Where the text ends too early, nothing is left to be shown, and the place is behind the text. A
caret stands below the first character of the span, and a tilde below every other.
-/

namespace UntypedLambda

/-- A token is spelled by as many characters as its lexeme has. -/
theorem Token.SpelledBy.length_eq {token : Token} {span : List Char} (h : token.SpelledBy span) :
    span.length = token.lexeme.length := by
  unfold SpelledBy at h
  split at h
  · next hkind =>
    have hlexeme : token.lexeme = "λ" := by rw [lexeme, hkind]
    rw [hlexeme]
    rcases h with rfl | rfl <;> decide
  · rw [h, String.length_toList]

namespace Report

variable {report : Report} {before span after : List Char}

end Report

namespace Term

end Term

end UntypedLambda
