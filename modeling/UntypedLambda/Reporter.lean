import UntypedLambda.Action
import UntypedLambda.Table

/-!
# Reporting

A reporter prints errors and warnings in colour. It knows the lines that are being worked on, one
for each file, and shows them above an error. A fatal reporter asks to leave after an error; any
other forgets the lines and goes on.

What comes to the reporter as a fault is settled: a report on the input is printed and done with,
and so are an interruption and a reduction that ran too deep; a defect is printed as internal and
passed on; a request to leave is passed on.
-/

namespace UntypedLambda

/-- A line that is being worked on. -/
structure Origin where
  /-- The text of the line, if there is one. -/
  line : Option String
  /-- The number of the line, if it has one. -/
  number : Option Int
  deriving DecidableEq

/-- The origin that shows nothing. -/
def Origin.none : Origin := ⟨Option.none, Option.none⟩

/-- What a user sees. -/
inductive Output where
  /-- A text that ends a line. -/
  | line (text : String)
  /-- A prompt, behind which the user types. -/
  | prompt (text : String)
  deriving DecidableEq

/-- A place where errors and warnings go. -/
structure Reporter where
  /-- Whether an error is a reason to leave. -/
  fatal : Bool
  /-- The lines that are being worked on, by file. -/
  traceback : Table Origin
  /-- What has been printed, oldest first. -/
  printed : List Output

namespace Reporter

/-- A reporter that knows no file and has printed nothing. -/
def start (fatal : Bool) : Reporter := ⟨fatal, .empty, []⟩

/-- Makes a file known, without a line. -/
def registerFile (path : String) (r : Reporter) : Reporter :=
  { r with traceback := r.traceback.put path .none }

/-- Remembers the line of a file that is being worked on. -/
def registerLine (path : String) (line : Option String) (number : Option Int) (r : Reporter) :
    Reporter :=
  { r with traceback := r.traceback.put path ⟨line, number⟩ }

/-- Forgets the line of a file. -/
def removeLine (path : String) (r : Reporter) : Reporter :=
  { r with traceback := r.traceback.put path .none }

/-- Forgets the lines of all files. -/
def forgetLines (r : Reporter) : Reporter :=
  { r with traceback := r.traceback.map fun _ => .none }

/-- Prints texts, each on a line. -/
def printLines (texts : List String) (r : Reporter) : Reporter :=
  { r with printed := r.printed ++ texts.map .line }

/-- Prints a text on a line. -/
def print (text : String) : Action Reporter Unit := modify (printLines [text])

/-- The lines that are being worked on, as they stand above an error. -/
def tracebackText (r : Reporter) : String :=
  let shown := r.traceback.entries.filterMap fun (path, origin) =>
    match origin.line with
    | some line =>
      if line.isEmpty then none
      else
        some ("  File '" ++ path ++ "', line " ++ (origin.number.map toString).getD "None" ++
          ":\n    " ++ line ++ "\n")
    | none => none
  if shown.isEmpty then "" else "Traceback:\n" ++ String.join shown

/-- The message of a report with its texts in bold. -/
def highlighted (report : Report) : Action Reporter String :=
  match report.highlighted with
  | .ok text => pure text
  | .error fault => throw (.defect (.template fault))

/-- The offending text of a report with its span. -/
def diagnosed (report : Report) (colour : Text.Colour) : Action Reporter String :=
  match report.diagnose colour with
  | .ok text => pure text
  | .error fault => throw (.defect (.repetition fault))

/-- Prints a message, and below it the offending span if there is one to show. -/
def printReport (report : Report) (colour : Text.Colour) (heading : String) :
    Action Reporter Unit := do
  let message ← highlighted report
  print (heading ++ message)
  if report.showsSpan then print (← diagnosed report colour)

/-- Prints an error below the lines that are being worked on. -/
def throwReport (report : Report) : Action Reporter Unit := do
  let r ← get
  let internal :=
    if report.problem.notice.internal then Text.Colour.red.bold "[internal] " else ""
  printReport report .red (r.tracebackText ++ internal ++ Text.Colour.red.bold "error: ")
  if r.fatal then throw (.leave "1")
  modify forgetLines

/-- The report of a problem. -/
def reportOf (problem : Problem) : Action Reporter Report :=
  match problem.report with
  | .ok report => pure report
  | .error fault => throw (.defect (.ofReportFault fault))

/-- Prints a warning. -/
def warn (notice : Notice) : Action Reporter Unit := do
  let report ← reportOf (.general notice)
  printReport report .magenta (Text.Colour.magenta.bold "warning: ")

/-- Prints an error that is described by a notice. -/
def throwNotice (notice : Notice) : Action Reporter Unit := do
  throwReport (← reportOf (.general notice))

/-- What an interruption is reported as. -/
def interruption : Notice := { template := "keyboard interrupt", diagnosis := false }

/-- What a reduction that ran too deep is reported as. -/
def depthExceeded : Notice :=
  { template := "normal form might exist, but maximum recursion depth exceeded" }

/-- What a defect is reported as. Its text is part of the template. -/
def unknownError (defect : Defect) : Notice :=
  { template := "unknown error: '" ++ defect.kind ++ ": " ++ defect.message ++ "'"
    internal := true }

/-- Deals with a fault. What is passed on ends the action. -/
def settle (fault : Fault) : Action Reporter Unit :=
  match fault with
  | .report report => throwReport report
  | .interrupted _ => throwNotice interruption
  | .tooDeep _ => throwNotice depthExceeded
  | .leave status => throw (.leave status)
  | .defect defect => do
    throwNotice (unknownError defect)
    throw (.defect defect)

/-- Does what `act` does and deals with its fault. -/
def guarded {α : Type} (act : Action Reporter α) : Action Reporter (Option α) :=
  act.recover settle

end Reporter

end UntypedLambda
