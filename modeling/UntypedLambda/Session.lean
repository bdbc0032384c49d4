import UntypedLambda.Calculus
import UntypedLambda.Expansion
import UntypedLambda.Numeral
import UntypedLambda.Prelude
import UntypedLambda.Reporter
import UntypedLambda.Statement
import UntypedLambda.Text.Lines

/-!
# Sessions

A session works off statements. A statement that holds `:=` binds the term behind it to the name
before it; any other is a term, which waits in a queue until the session is run. Numbers stand for
their numerals. A definition is expanded when it is bound, so it refers to the definitions that
there are at that moment; it must not lead back to the name itself.

While a statement is worked on, the reporter knows its line. A statement that fails leaves the line
there, to be shown with the error.
-/

namespace UntypedLambda

/-- A term that waits for its evaluation. -/
structure Queued where
  /-- The number of the line that it stands on, if there is one. -/
  number : Option Int
  /-- The text of the statement. -/
  text : String
  /-- The expanded term. -/
  term : Term

/-- Definitions, statements that wait, and results. -/
structure Session where
  /-- Where errors and warnings go. -/
  reporter : Reporter
  /-- The file that the statements come from. -/
  path : String
  /-- The evaluator with its budget. -/
  calculus : Calculus
  /-- The definitions. -/
  definitions : Definitions
  /-- Terms that wait for their evaluation, oldest first. -/
  queue : List Queued
  /-- Normal forms that have not been shown, oldest first. -/
  results : List Term
  /-- The texts on the way to each result, where they were asked for. -/
  traces : List (List String)

namespace Session

/-- The path that stands for typed input. -/
def inputPath : String := "<in>"

/-- A session that knows the prelude. Typed input does not make errors fatal. -/
def start (path : String) (calculus : Calculus) (interactive : Bool) (reporter : Reporter) :
    Session where
  reporter :=
    let reporter := reporter.registerFile path
    if interactive then { reporter with fatal := false } else reporter
  path := path
  calculus := calculus
  definitions := Prelude.table
  queue := []
  results := []
  traces := []

/-- An action of the session's reporter. -/
def reporting {α : Type} (act : Action Reporter α) : Action Session α :=
  act.onPart Session.reporter fun reporter s => { s with reporter }

/-- Does what `act` does and lets the reporter deal with its fault. -/
def guarded {α : Type} (act : Action Session α) : Action Session (Option α) :=
  act.recover fun fault => reporting (Reporter.settle fault)

/-- Does what `act` does in a session of its own, of which only the reporter is kept. -/
def within {α : Type} (start : Reporter → Session) (act : Action Session α) :
    Action Reporter α :=
  act.onPart start fun s _ => s.reporter

/-- Remembers the line that is being worked on. -/
def enterLine (text : String) (number : Option Int) : Action Session Unit := do
  let s ← get
  reporting (modify (Reporter.registerLine s.path (some text) number))

/-- Forgets the line that is being worked on. -/
def leaveLine : Action Session Unit := do
  let s ← get
  reporting (modify (Reporter.removeLine s.path))

/-- Ends with a problem. -/
def fail {α : Type} (notice : Notice) : Action Session α :=
  throw (Problem.general notice).fault

/-- The term of a text in which numbers stand for numerals. -/
def readLiterals (text : String) : Except Fault Term := do
  let expanded ← Numeral.expandLiterals text
  Term.parse expanded

/-- The expanded term of a text. -/
def read (s : Session) (text : String) : Except Fault Term :=
  (readLiterals text).map s.definitions.expand

/-- Whether a trimmed text is a single name. -/
def isName (text : String) : Except Fault Bool :=
  match (Scanner.ofString text).tokenize.1 with
  | .error problem => .error problem.fault
  | .ok [token, _] => .ok (token.kind = .name)
  | .ok _ => .ok false

/-- Removes all definitions but the prelude. -/
def clear : Action Session Unit := modify fun s => { s with definitions := Prelude.table }

/-- Binds a term to a name and gives the expanded term. -/
def define (name text : String) : Action Session Term := do
  let name := Text.trimmed name
  if !(← Action.ofExcept (isName name)) then
    fail { template := "'\x7b\x7d' is not a valid variable name", texts := [name] }
  let term ← Action.ofExcept (readLiterals text)
  let expanded := (← get).definitions.expand term
  if term.free name || expanded.free name then
    fail { template := "recursive definitions not supported", texts := [Text.trimmed text],
           diagnosis := false }
  if Prelude.table.contains name then
    reporting (Reporter.warn
      { template := "'\x7b\x7d' shadows a prelude definition", texts := [name],
        diagnosis := false })
  modify fun s => { s with definitions := s.definitions.put name expanded }
  return expanded

/-- Puts a term at the end of the queue. -/
def enqueue (text : String) (number : Option Int) : Action Session Unit := do
  let term ← Action.ofExcept ((← get).read text)
  modify fun s => { s with queue := s.queue ++ [⟨number, text, term⟩] }

/-- Works on a statement: binds a name, or queues a term. -/
def add (text : String) (number : Option Int) : Action Session Unit := do
  enterLine text number
  match Text.cut? ":=" text with
  | some (name, body) => let _ ← define name body
  | none => enqueue text number
  leaveLine

/-- Evaluates a term and keeps its normal form, and the texts on the way if they are wanted. -/
def evaluate (term : Term) (traced : Bool) : Action Session Unit := do
  let budget ← Action.ofExcept ((← get).calculus.budgetOr none)
  if traced then
    let trace ← Action.ofExcept (term.trace budget)
    modify fun s =>
      { s with traces := s.traces ++ [trace.steps], results := s.results ++ [trace.result] }
  else
    let result ← Action.ofExcept (term.evaluate budget)
    modify fun s => { s with results := s.results ++ [result] }

/-- Takes terms off the queue and evaluates them. A term that fails is off the queue. -/
def runQueue (traced : Bool) : List Queued → Action Session Unit
  | [] => return
  | item :: queue => do
    modify fun s => { s with queue }
    enterLine item.text item.number
    evaluate item.term traced
    leaveLine
    runQueue traced queue

/-- Evaluates the terms in the queue, oldest first. -/
def run (traced : Bool) : Action Session Unit := do runQueue traced (← get).queue

/-- The texts on the way from a text to its normal form. -/
def steps (s : Session) (text : String) : Except Fault (List String) := do
  let term ← s.read text
  let trace ← term.trace (← s.calculus.budgetOr none)
  return trace.steps

/-- Takes the oldest result and gives it as it is shown. -/
def pop : Action Session String := do
  match (← get).results with
  | [] => throw (.defect .emptyList)
  | result :: results =>
    modify fun s => { s with results }
    return result.display

/-- Works on the statements of a file, one after the other. -/
def addAll : List Statement → Action Session Unit
  | [] => return
  | statement :: statements => do
    add statement.text (some (statement.line : Int))
    addAll statements

/-- Works on the file that the session is for. Typed input has none; `contents` is what the file
holds, if it can be read. A path with a null character can be no file's. -/
def load (interactive : Bool) (contents : Option String) : Action Session Unit := do
  let s ← get
  if s.path = inputPath then
    if !interactive then
      fail { template := "'<in>' is a reserved filename", diagnosis := false }
  else if s.path.toList.contains '\x00' then throw (.defect .nullInPath)
  else
    match contents with
    | none =>
      fail { template := "'\x7b\x7d' could not be opened", texts := [s.path], diagnosis := false }
    | some text => addAll (Statement.segment (Text.fileLines text))

/-- The definitions that are not those of the prelude, as texts. -/
def userDefinitions (s : Session) : List (String × String) :=
  s.definitions.entries.filterMap fun (name, term) =>
    match Prelude.table.get? name with
    | some known => if term.render = known.render then none else some (name, term.render)
    | none => some (name, term.render)

end Session

end UntypedLambda
