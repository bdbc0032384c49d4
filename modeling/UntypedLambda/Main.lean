import UntypedLambda.CommandLine.Program

/-!
# The command line

The outer layer: it reads the file, takes lines from the user as they come, and writes what the
program has printed. What is printed, and how the program ends, is decided elsewhere.
-/

namespace UntypedLambda.CommandLine

/-- Writes what a reporter has printed. -/
def writeOut (reporter : Reporter) : IO Unit := do
  let out ← IO.getStdout
  out.putStr (String.join (reporter.printed.map written))
  out.flush

/-- The exit code of an ending. A fault that nothing dealt with is named on the error stream. -/
def exitCode : Ending → IO UInt32
  | .status code => return code.toUInt32
  | .escaped fault => do
    IO.eprintln fault.message
    return 1

/-- Writes what an action has printed and gives its ending. -/
def finish (result : EStateM.Result Fault Reporter (Option Unit)) : IO UInt32 := do
  writeOut (Action.state result)
  exitCode (.ofOutcome (Action.outcome result))

/-- Talks to the user until the shell stops. -/
partial def converse (shell : Shell) : IO UInt32 := do
  let prompted := Action.state (Shell.showPrompt shell)
  writeOut prompted.session.reporter
  let line ← (← IO.getStdin).getLine
  let act :=
    if line.isEmpty then Shell.runLine "EOF"
    else Shell.takeLine (String.ofList (Text.dropEndWhile (· = '\n') line.toList))
  let fresh := { prompted.session.reporter with printed := [] }
  match act { prompted with session := { prompted.session with reporter := fresh } } with
  | .error fault shell => finish (Reporter.guarded (throw fault) shell.session.reporter)
  | .ok verdict shell =>
    writeOut shell.session.reporter
    if verdict = .stop then return 0
    let fresh := { shell.session.reporter with printed := [] }
    converse { shell with session := { shell.session with reporter := fresh } }

/-- What a file holds, if it can be read. -/
def readContents (path : String) : IO (Option String) := do
  try
    return some (← IO.FS.readFile path)
  catch _ => return none

/-- Does what the options ask for. -/
def perform (options : Options) : IO UInt32 := do
  if options.file.isNone && options.expr.isNone && !options.examples then
    let calculus : Calculus := ⟨options.budget⟩
    let session := Session.start Session.inputPath calculus true (Reporter.start true)
    let introduced := session.reporter.printLines [Shell.intro]
    writeOut introduced
    converse (Shell.start session)
  else
    let contents ←
      match options.file with
      | some path => readContents path
      | none => pure none
    finish (Reporter.guarded (execute options contents []) (Reporter.start true))

end UntypedLambda.CommandLine

open UntypedLambda.CommandLine in
/-- Runs the program with the arguments of the command line. -/
def main (arguments : List String) : IO UInt32 := do
  match Options.ofArguments arguments with
  | .error .help =>
    IO.print usage
    return 0
  | .error .refused =>
    IO.eprint usage
    return 2
  | .ok options => perform options
