import UntypedLambda.Template
import UntypedLambda.Text.Repetition
import UntypedLambda.Text.Slice
import UntypedLambda.Text.Style
import UntypedLambda.Token.Basic

/-!
# Problems and reports

A problem is something that the interpreter finds wrong with what it was given. Its notice says it
in a form that can be shown: a template, the texts to insert, the first of which is the offending
one, and the offending span in that text. A report is a problem whose notice could be filled in.
-/

namespace UntypedLambda

/-- What an error or a warning says. -/
structure Notice where
  /-- The message, with fields for the texts. -/
  template : String
  /-- The texts that are inserted. The first one is the offending text. -/
  texts : List String := [""]
  /-- Where the offending span starts. -/
  start : Int := 0
  /-- Where the offending span ends; -1 stands for the end of the offending text. -/
  stop : Int := -1
  /-- Whether the offending span is shown. -/
  diagnosis : Bool := true
  /-- Whether the fault is the interpreter's own. -/
  internal : Bool := false
  deriving DecidableEq

/-- What can be wrong with the input. -/
inductive Problem where
  /-- Anything that its notice says. -/
  | general (notice : Notice)
  /-- A character that starts no token. -/
  | unexpectedChar (char : String) (position : Int) (source : String)
  /-- A token that does not continue the term read so far. -/
  | unexpectedToken (token : Token) (expected source : String)
  /-- No normal form was found within the budget. -/
  | outOfSteps (budget : Int)
  deriving DecidableEq

namespace Problem

/-- What a problem says. A span is shown only in a source that is not empty. -/
def notice : Problem → Notice
  | general notice => notice
  | unexpectedChar char position source =>
    { template := "unexpected character '\x7b1\x7d' at position " ++ toString position
      texts := [source, char]
      start := position
      stop := position + 1
      diagnosis := !source.isEmpty }
  | unexpectedToken token expected source =>
    { template := expected ++ ", got " ++ token.kind.display ++ " at position " ++
        toString token.position
      texts := [source]
      start := token.position
      stop := token.position + (max token.lexeme.length 1 : Nat)
      diagnosis := !source.isEmpty }
  | outOfSteps budget =>
    { template := "evaluation exceeded maximum steps (" ++ toString budget ++
        "), possible non-terminating expression"
      diagnosis := false }

/-- Whether a problem lies in a name that spells nothing, so that no span can be told. -/
def isNameless : Problem → Bool
  | unexpectedToken token _ _ => token.isNameless
  | _ => false

end Problem

/-- A problem whose notice could be filled in. -/
structure Report where
  /-- The problem. -/
  problem : Problem
  /-- The offending text. -/
  expr : String
  /-- The other texts. -/
  others : List String
  /-- The filled template. -/
  message : String
  /-- The texts are those of the notice. -/
  texts_eq : problem.notice.texts = expr :: others
  /-- The message is the template of the notice, filled with its texts. -/
  filled : Template.fill problem.notice.template problem.notice.texts = .ok message

namespace Report

/-- Where the offending span ends. -/
def stop (report : Report) : Int :=
  if report.problem.notice.stop = -1 then report.expr.length else report.problem.notice.stop

/-- The message with the inserted texts in bold. -/
def highlighted (report : Report) : Except TemplateFault String :=
  Template.fill report.problem.notice.template (report.problem.notice.texts.map Text.bold)

/-- Whether the offending span is shown below the message. -/
def showsSpan (report : Report) : Bool :=
  !report.problem.notice.internal && !report.expr.isEmpty && report.problem.notice.diagnosis

/-- The offending text with the offending span in a colour, and below it a caret at the start of
the span with tildes up to its end. The span is at least one character wide. A span far outside
the text cannot be shown. -/
def diagnose (report : Report) (colour : Text.Colour) : Except Text.RepetitionFault String := do
  let text := report.expr.toList
  let start := report.problem.notice.start
  let stop := max report.stop (start + 1)
  let margin ← Text.repeated ' ' start text.length
  let tail ← Text.repeated '~' (stop - start - 1) text.length
  return "  " ++ String.ofList (Text.before text start) ++
    colour.bold (String.ofList (Text.between text start stop)) ++
    String.ofList (Text.onward text stop) ++ "\n  " ++ String.ofList margin ++
    colour.bold ("^" ++ String.ofList tail)

end Report

/-- What can go wrong when a report is made. -/
inductive ReportFault where
  /-- The template cannot be filled. -/
  | template (fault : TemplateFault)
  /-- There is no offending text. -/
  | noText
  /-- The offending name spells nothing. -/
  | noName
  deriving DecidableEq

/-- The report of a problem. The span is told before the template is filled, and the template is
filled before the offending text is looked for. -/
def Problem.report (problem : Problem) : Except ReportFault Report :=
  if problem.isNameless then .error .noName
  else
    match filled : Template.fill problem.notice.template problem.notice.texts with
    | .error fault => .error (.template fault)
    | .ok message =>
      match texts_eq : problem.notice.texts with
      | [] => .error .noText
      | expr :: others => .ok { problem, expr, others, message, texts_eq, filled }

end UntypedLambda
