import UntypedLambda.Problem
import UntypedLambda.Term.Path

/-!
# Faults

Everything that can end an operation early. A report on the input is meant for the user. A defect
is a misuse of an operation or a failure from outside: it has a class and a text, by which an
internal report names it. The program can also be asked to leave, be interrupted, or find that a
reduction ran too deep.
-/

namespace UntypedLambda

/-- A misuse of an operation, or a failure from outside. -/
inductive Defect where
  /-- A message could not be filled in. -/
  | template (fault : TemplateFault)
  /-- A path leads nowhere. -/
  | path (fault : PathFault)
  /-- A span cannot be shown. -/
  | repetition (fault : Text.RepetitionFault)
  /-- A list ends before the place that was asked for: tokens, or the texts of a notice. -/
  | outOfRange
  /-- The first element of an empty list was asked for. -/
  | emptyList
  /-- A budget is below zero. -/
  | negativeBudget (budget : Int)
  /-- A term that is no abstraction was applied; the word for its kind. -/
  | notApplicable (kind : String)
  /-- A name was looked up that is not there. -/
  | missingKey (key : String)
  /-- The width of a name that spells nothing was asked for. -/
  | noWidth
  /-- A name that spells nothing was made part of a term. -/
  | noName
  /-- There is no expression to work on. -/
  | noExpression
  /-- There is no budget to keep to, but something that is no number; the word for its kind. -/
  | noBudget (kind : String)
  /-- The path of a file holds a null character. -/
  | nullInPath
  /-- A failure of another class. -/
  | foreign (kind text : String)
  deriving DecidableEq

namespace Defect

/-- The class of a defect. -/
def kind : Defect → String
  | template (.outOfRange _) => "IndexError"
  | template (.unknownName _) => "KeyError"
  | template _ => "ValueError"
  | path _ => "IndexError"
  | repetition .noIndex => "OverflowError"
  | repetition .noRoom => "MemoryError"
  | outOfRange => "IndexError"
  | emptyList => "IndexError"
  | negativeBudget _ => "ValueError"
  | notApplicable _ => "AttributeError"
  | missingKey _ => "KeyError"
  | noWidth => "TypeError"
  | noName => "AttributeError"
  | noExpression => "AttributeError"
  | noBudget _ => "TypeError"
  | nullInPath => "ValueError"
  | foreign kind _ => kind

/-- The text of a defect. -/
def message : Defect → String
  | template fault => fault.message
  | path fault => fault.message
  | repetition .noIndex => Index.refusal
  | repetition .noRoom => ""
  | outOfRange => "list index out of range"
  | emptyList => "pop from empty list"
  | negativeBudget budget => "max_steps must be a natural number, got " ++ toString budget
  | notApplicable kind => "'" ++ kind ++ "' object has no attribute 'apply'"
  | missingKey key => Text.quoted key
  | noWidth => "object of type 'NoneType' has no len()"
  | noName => "'NoneType' object has no attribute 'layout'"
  | noExpression => "'list' object has no attribute 'strip'"
  | noBudget kind => "'<' not supported between instances of '" ++ kind ++ "' and 'int'"
  | nullInPath => "embedded null byte"
  | foreign _ text => text

/-- The defect that a failed report turns into. -/
def ofReportFault : ReportFault → Defect
  | .template fault => template fault
  | .noText => outOfRange
  | .noName => noWidth

end Defect

/-- What ends an operation early. -/
inductive Fault where
  /-- Something is wrong with the input. -/
  | report (report : Report)
  /-- Something is wrong with the use of an operation, or outside. -/
  | defect (defect : Defect)
  /-- The program is asked to leave with a status. -/
  | leave (status : String)
  /-- The user interrupted the program. -/
  | interrupted (text : String)
  /-- A reduction ran too deep. -/
  | tooDeep (text : String)

namespace Fault

/-- The text of a fault. -/
def message : Fault → String
  | report r => r.message
  | defect d => d.message
  | leave status => status
  | interrupted text => text
  | tooDeep text => text

end Fault

/-- The fault that a problem ends an operation with. -/
def Problem.fault (problem : Problem) : Fault :=
  match problem.report with
  | .ok report => .report report
  | .error fault => .defect (.ofReportFault fault)

end UntypedLambda
