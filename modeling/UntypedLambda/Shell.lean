import UntypedLambda.Session

/-!
# The shell

A shell takes lines from a user. A line that starts with a colon is a command, and any other is a
statement, which may be continued on the lines after it as in a file. Statements are run at once
and their results are shown. Faults are dealt with line by line, so the user can go on.
-/

namespace UntypedLambda

/-- What a line asks for. -/
inductive Command where
  /-- Nothing: the line is blank. -/
  | blank
  /-- To work on a line of a statement. -/
  | statement (text : String)
  /-- To bind a term to a name. -/
  | define (text : String)
  /-- To list the definitions. -/
  | list
  /-- To show the steps of an evaluation. -/
  | steps (text : String)
  /-- To remove the definitions of the user. -/
  | clear
  /-- To show a help text. -/
  | help
  /-- To leave because the input has ended. -/
  | endOfInput
  /-- To leave. -/
  | quit
  /-- Something that there is no command for. -/
  | unknown (line : String)
  deriving DecidableEq

namespace Command

/-- The characters that names of commands are made of. -/
def isNameChar (c : Char) : Bool := c.isAlphanum || c = '_'

/-- The command with a name. -/
def ofName? (name argument : String) : Option Command :=
  match name with
  | "eval" => some (.statement argument)
  | "def" => some (.define argument)
  | "defs" => some .list
  | "steps" => some (.steps argument)
  | "clear" => some .clear
  | "help" => some .help
  | "EOF" => some .endOfInput
  | "quit" => some .quit
  | "exit" => some .quit
  | _ => none

/-- The command of a line without its colons: its name, and the rest as the argument. A question
mark asks for help, and an exclamation mark is no command. -/
def ofLine (line : String) : Command :=
  match Text.trim line.toList with
  | [] => .blank
  | '?' :: _ => .help
  | '!' :: rest => .unknown (String.ofList ('!' :: rest))
  | line =>
    let name := String.ofList (line.takeWhile isNameChar)
    let argument := String.ofList (Text.trim (line.dropWhile isNameChar))
    (ofName? name argument).getD (.unknown (String.ofList line))

/-- The line that a typed line is read as: without its colons a command, and else a statement. -/
def route (line : String) : String :=
  match line.toList with
  | ':' :: rest => String.ofList (rest.dropWhile (· = ':'))
  | _ => "eval " ++ line

end Command

/-- Whether a shell goes on after a line. -/
inductive Verdict where
  /-- It goes on. -/
  | proceed
  /-- It goes on after a blank line. -/
  | idle
  /-- It stops. -/
  | stop
  deriving DecidableEq

/-- A session with a user. -/
structure Shell where
  /-- The session. -/
  session : Session
  /-- The statement that the next line continues, or nothing. -/
  held : String
  /-- What the user is asked for the next line with. -/
  prompt : String
  /-- How many lines of statements have been typed. -/
  lineNumber : Nat

namespace Shell

/-- The prompt for a new line. -/
def primaryPrompt : String := "λ> "

/-- The prompt while a statement is continued. -/
def secondaryPrompt : String := ". "

/-- A shell that has not been typed into. -/
def start (session : Session) : Shell := ⟨session, "", primaryPrompt, 0⟩

/-- What is shown first. -/
def intro : String :=
  "Lambda calculus interpreter :: Python backend\n" ++
    "Type ':help' for more information or ':quit' to exit."

/-- The help text. -/
def helpText : String :=
  "Welcome to the lambdacalc interpreter!\n\n" ++
    "Commands:\n" ++
    "  :help              - show this help message\n" ++
    "  :quit              - exit the interpreter\n" ++
    "  :def <name> <expr> - define a named expression (or type 'name := expr')\n" ++
    "  :defs              - list all definitions\n" ++
    "  :steps <expr>      - show evaluation steps\n" ++
    "  :clear             - clear all user definitions\n" ++
    "  <expr>             - evaluate a lambda expression\n\n" ++
    "Syntax: '\\x.e' or 'λx.e' for abstraction, 'e1 e2' for application, " ++
    "parentheses for grouping.\n" ++
    "Try typing '(\\x.x) y', which applies the identity function to 'y', " ++
    "giving 'y' as the result."

/-- An action of the shell's session. -/
def onSession {α : Type} (act : Action Session α) : Action Shell α :=
  act.onPart Shell.session fun session shell => { shell with session }

/-- An action of the shell's reporter. -/
def reporting {α : Type} (act : Action Reporter α) : Action Shell α :=
  onSession (Session.reporting act)

/-- Does what `act` does in a shell of its own, of which only the reporter is kept. -/
def within {α : Type} (start : Reporter → Shell) (act : Action Shell α) : Action Reporter α :=
  act.onPart start fun shell _ => shell.session.reporter

/-- Prints texts, each on a line. -/
def printLines (texts : List String) : Action Shell Unit :=
  reporting (modify (Reporter.printLines texts))

/-- Shows so many results, oldest first. -/
def showResults : Nat → Action Shell Unit
  | 0 => return
  | count + 1 => do
    printLines [← onSession Session.pop]
    showResults count

/-- Works on a line of a statement: holds a statement that is still open, and runs any other. -/
def takeStatement (line : String) : Action Shell Unit := do
  modify fun shell => { shell with lineNumber := shell.lineNumber + 1 }
  let shell ← get
  let line := Statement.clean line
  let text := if shell.held.isEmpty then line else Statement.join shell.held line
  if Statement.isOpen text then
    modify fun shell => { shell with held := text, prompt := secondaryPrompt }
  else
    modify fun shell => { shell with held := "", prompt := primaryPrompt }
    if !text.isEmpty then
      onSession (Session.add text (some (shell.lineNumber : Int)))
      onSession (Session.run false)
      showResults (← get).session.results.length

/-- Binds a term to a name; the name ends at the first space. -/
def takeDefinition (argument : String) : Action Shell Unit := do
  let argument := Text.trimmed argument
  let (name, body) := (Text.cut? " " argument).getD (argument, "")
  let shown := Text.trimmed body
  if name.isEmpty || shown.isEmpty then
    printLines ["Usage: :def <name> <expression>"]
  else
    let _ ← onSession (Session.define name body)
    printLines ["Defined " ++ name ++ " = " ++ shown]

/-- Shows the steps of an evaluation. The heading comes first, even if the evaluation fails. -/
def takeSteps (argument : String) : Action Shell Unit := do
  if (Text.trimmed argument).isEmpty then
    printLines ["Usage: :steps <expression>"]
  else
    printLines ["Evaluation steps:"]
    let steps ← Action.ofExcept ((← get).session.steps argument)
    printLines (Trace.numbered steps)

/-- Does what a command asks for. -/
def perform : Command → Action Shell Verdict
  | .blank => return .idle
  | .statement text => do
    takeStatement text
    return .proceed
  | .define text => do
    takeDefinition text
    return .proceed
  | .list => do
    let entries := (← get).session.definitions.entries
    printLines ("Defined terms:" ::
      entries.map fun (name, term) => "  " ++ name ++ " = " ++ term.render)
    return .proceed
  | .steps text => do
    takeSteps text
    return .proceed
  | .clear => do
    onSession Session.clear
    printLines ["All user definitions cleared."]
    return .proceed
  | .help => do
    printLines [helpText]
    return .proceed
  | .endOfInput => do
    printLines [""]
    return .stop
  | .quit => return .stop
  | .unknown line => do
    printLines ["Unknown command: ':" ++ line ++ "'. Type ':help' for a list of commands."]
    return .proceed

/-- Does what a line without colons asks for and deals with its fault. -/
def runLine (line : String) : Action Shell Verdict := do
  let verdict ← (perform (Command.ofLine line)).recover fun fault =>
    reporting (Reporter.settle fault)
  return verdict.getD .proceed

/-- Does what a typed line asks for and deals with its fault. -/
def takeLine (line : String) : Action Shell Verdict := runLine (Command.route line)

/-- Shows the prompt. -/
def showPrompt : Action Shell Unit := do
  let prompt := Output.prompt (← get).prompt
  reporting (modify fun r => { r with printed := r.printed ++ [prompt] })

/-- Prompts and takes lines until one of them stops the shell or the input ends. -/
def converse : List String → Action Shell Unit
  | [] => do
    showPrompt
    let _ ← runLine "EOF"
  | line :: lines => do
    showPrompt
    if (← takeLine line) ≠ .stop then converse lines

/-- Introduces the shell and takes lines. -/
def loop (introduction : String) (lines : List String) : Action Shell Unit := do
  printLines [introduction]
  converse lines

end Shell

end UntypedLambda
