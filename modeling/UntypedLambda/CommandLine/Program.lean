import UntypedLambda.CommandLine.Arguments
import UntypedLambda.Directory
import UntypedLambda.Examples
import UntypedLambda.Shell

/-!
# The program

The program shows the examples, evaluates one expression, runs a file, or talks to a user. It
leaves with status 0 when all went well, 1 after an error, and 2 if it was called wrongly. A user
is only talked to when there is nothing else to do, and then no error is a reason to leave.
-/

namespace UntypedLambda.CommandLine

/-- The help text. -/
def usage : String :=
  "usage: lambdacalc [-h] [-e EXPR] [--steps] [--max-steps MAX_STEPS]\n" ++
    "                  [--examples]\n" ++
    "                  [file]\n\n" ++
    "Untyped lambda calculus interpreter.\n\n" ++
    "positional arguments:\n" ++
    "  file                  file to interpret and run (if empty, goes to command-\n" ++
    "                        line mode)\n\n" ++
    "options:\n" ++
    "  -h, --help            show this help message and exit\n" ++
    "  -e EXPR, --expr EXPR  evaluate a single expression and exit\n" ++
    "  --steps               print every reduction step\n" ++
    "  --max-steps MAX_STEPS\n" ++
    "                        reduction budget before giving up (default: 1000)\n" ++
    "  --examples            run the built-in examples and exit\n"

/-- Prints the traces of a session. -/
def printTraces : Action Session Unit := do
  let traces := (← get).traces
  Session.reporting (modify (Reporter.printLines (traces.flatMap Trace.numbered)))

/-- Prints so many results of a session, oldest first. -/
def printResults : Nat → Action Session Unit
  | 0 => return
  | count + 1 => do
    let shown ← Session.pop
    Session.reporting (Reporter.print shown)
    printResults count

/-- Prints each trace of a session with the result that it leads to. -/
def printRuns : List (List String) → Action Session Unit
  | [] => return
  | trace :: traces => do
    Session.reporting (modify (Reporter.printLines (Trace.numbered trace)))
    printResults 1
    printRuns traces

/-- Works off one expression. Unlike typed input it makes errors fatal. -/
def runExpression (text : Option String) (traced : Bool) : Action Session Unit := do
  Session.load true none
  modify fun s => { s with reporter := { s.reporter with fatal := true } }
  match text with
  | none => throw (.defect .noExpression)
  | some text => Session.add (Statement.clean text) none
  Session.run traced
  printTraces
  printResults (← get).results.length

/-- Works off a file: all statements are read before any term is evaluated. -/
def runFile (contents : Option String) (traced : Bool) : Action Session Unit := do
  Session.load false contents
  Session.run traced
  printRuns (← get).traces
  printResults (← get).results.length

/-- Does what the options ask for. The contents are those of the file, if it can be read, and the
lines are what the user types. -/
def execute (options : Options) (contents : Option String) (lines : List String) :
    Action Reporter Unit :=
  let calculus : Calculus := ⟨options.budget⟩
  if options.examples then Examples.presentAll calculus Examples.sources
  else
    match options.expr, options.file with
    | some text, _ =>
      Session.within (Session.start Session.inputPath calculus true)
        (runExpression text options.steps)
    | none, some path =>
      Session.within (Session.start path calculus false) (runFile contents options.steps)
    | none, none =>
      Shell.within
        (fun reporter => Shell.start (Session.start Session.inputPath calculus true reporter))
        (Shell.loop Shell.intro lines)

/-- How the program ends. -/
inductive Ending where
  /-- With a status. -/
  | status (code : Nat)
  /-- With a fault that nothing dealt with. -/
  | escaped (fault : Fault)

/-- The ending after an action. -/
def Ending.ofOutcome {α : Type} : Except Fault α → Ending
  | .ok _ => .status 0
  | .error (.leave _) => .status 1
  | .error fault => .escaped fault

/-- What is written for an output: a line with its end, and a prompt as it is. -/
def written : Output → String
  | .line text => text ++ "\n"
  | .prompt text => text

/-- Runs the program: how it ends, and what it writes. -/
def run (arguments : List String) (directory : Directory) (lines : List String) :
    Ending × String :=
  match Options.ofArguments arguments with
  | .error .help => (.status 0, usage)
  | .error .refused => (.status 2, "")
  | .ok options =>
    let act := execute options (options.file.bind directory.read?) lines
    let result := Reporter.guarded act (Reporter.start true)
    (.ofOutcome (Action.outcome result),
      String.join ((Action.state result).printed.map written))

end UntypedLambda.CommandLine
