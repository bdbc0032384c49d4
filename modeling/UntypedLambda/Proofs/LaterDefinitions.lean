import UntypedLambda.Proofs.Lexemes
import UntypedLambda.Proofs.Literals
import UntypedLambda.Proofs.RoundTrip
import UntypedLambda.Proofs.SimultaneousExpansion
import UntypedLambda.Proofs.TypedLine

/-!
# A definition and the definitions after it

A name is bound to a term in which no defined name is free, but other names may be. Definitions of
other names leave the term as it is in the table; it is expanded anew whenever it is used, so it
changes exactly if one of its free names has been defined in the meantime.
-/

namespace UntypedLambda

namespace Session

/-- Whether a call leaves the definition of a name alone. -/
def Call.Spares (name : String) : Call → Prop
  | .define given _ => Text.trimmed given ≠ name
  | .add text _ => ∀ given body, Text.cut? ":=" text = some (given, body) →
    Text.trimmed given ≠ name
  | .run _ => True
  | .clear => False

variable {s t : Session} {name : String} {term : Term}

/-- A text that is a single name is an identifier when it is trimmed. -/
theorem isIdentifier_of_isName {text : String} (h : isName text = .ok true) :
    isIdentifier (Text.trimmed text) = true := by
  unfold isName at h
  split at h
  · nomatch h
  · next token eof htokenize =>
    have hname : token.kind = .name := of_decide_eq_true (Except.ok.inj h)
    have hlexes := Scanner.tokenize_eq_ok_iff_lexes.mp htokenize
    change Scanner.Lexes 0 (Text.trim text.toList) [token, eof] at hlexes
    have htrim := Text.trim_trim text.toList
    unfold Text.trimmed
    generalize Text.trim text.toList = chars at hlexes htrim
    cases hlexes with
    | @token _ gap _ gap' _ _ hgap _ written _ tail =>
      cases tail with
      | ended hgap' =>
        cases written with
        | single hkind =>
          exact absurd (hkind.trans (congrArg some hname)) (Scanner.singleKind?_ne_name _)
        | @name name _ hidentifier =>
          have hself : Text.trim name.toList = name.toList := by
            obtain ⟨-, -, -, -, hall⟩ := isIdentifier_cases hidentifier
            exact Text.trim_eq_self
              (fun c hc => Text.isBlank_of_isAlphanum (hall c (List.mem_of_mem_head? hc)))
              (fun c hc => Text.isBlank_of_isAlphanum (hall c (List.mem_of_getLast? hc)))
          rw [Text.trim_between (fun c hc => Scanner.isBlank_of_isSpace (hgap c hc))
            (fun c hc => Scanner.isBlank_of_isSpace (hgap' c hc)), hself] at htrim
          rwa [← htrim, String.ofList_toList]
      | token _ _ _ _ tail => nomatch tail
  · nomatch h

end Session

end UntypedLambda
