import UntypedLambda.Calculus
import UntypedLambda.Text.Integer
import UntypedLambda.Text.Split

/-!
# Arguments of the command line

Arguments are first sorted, each on its own: options, which start with a dash, and plain words. Two
dashes make all later arguments plain. A long option may be cut short as long as it stays
unambiguous, and its value may follow an equals sign; the value of a short option may also follow
at once. What follows a short option that takes no value is further short options. A plain word
that looks like a negative number, or that holds a space, may start with a dash.

The sorted arguments are then taken in order. The last occurrence of an option counts. Asking for
help ends the matter at once, and so does a mistake in an option; words that nothing takes are
refused at the end. Two dashes in the place of a value, in the same argument as the option, leave
the option without a value.
-/

namespace UntypedLambda.CommandLine

/-- The options. -/
inductive Switch where
  /-- Shows a help text. -/
  | help
  /-- Evaluates one expression. -/
  | expr
  /-- Prints every step. -/
  | steps
  /-- Sets the budget. -/
  | maxSteps
  /-- Runs the examples. -/
  | examples
  deriving DecidableEq

namespace Switch

/-- The short spellings. -/
def short : List (String × Switch) := [("-h", help), ("-e", expr)]

/-- The long spellings. -/
def long : List (String × Switch) :=
  [("--help", help), ("--expr", expr), ("--steps", steps), ("--max-steps", maxSteps),
   ("--examples", examples)]

/-- All spellings. -/
def spellings : List (String × Switch) := short ++ long

/-- Whether the option takes a value. -/
def takesValue : Switch → Bool
  | expr | maxSteps => true
  | help | steps | examples => false

end Switch

/-- What stands behind an option in the same argument. -/
inductive Attached where
  /-- There is nothing. -/
  | none
  /-- This follows a long option and an equals sign. -/
  | equals (value : String)
  /-- This follows a short option, at once or behind an equals sign. -/
  | direct (value : List Char)
  deriving DecidableEq

/-- A sorted argument. -/
inductive Argument where
  /-- A word that is no option. -/
  | plain (word : String)
  /-- The two dashes that end the options. -/
  | dashes
  /-- An option. -/
  | option (switch : Switch) (attached : Attached)
  /-- Something that looks like an option but is none. -/
  | stranger (word : String)
  deriving DecidableEq

/-- Whether a text is a negative number: a dash, and digits with at most one point, which digits
follow. A line feed may end it. -/
def isNegativeNumber (text : List Char) : Bool :=
  match text with
  | '-' :: number =>
    let number := if number.getLast? = some '\n' then number.dropLast else number
    let whole := number.takeWhile Text.isDigit
    match number.dropWhile Text.isDigit with
    | [] => !whole.isEmpty
    | '.' :: part => !part.isEmpty && part.all Text.isDigit
    | _ => false
  | _ => false

/-- The value after an equals sign, if there was one. -/
def Attached.ofOption : Option String → Attached
  | some value => .equals value
  | .none => .none

/-- The option with a value behind an equals sign, if the text before the sign spells an option. -/
def withValue? (name value : String) : Option Argument :=
  match Switch.short.lookup name, Switch.long.lookup name with
  | some switch, _ => some (.option switch (.direct value.toList))
  | none, some switch => some (.option switch (.equals value))
  | none, none => none

/-- Sorts an argument that starts with a dash and is no option as a whole. -/
def sortDashed (word : String) : Option Argument :=
  let (name, value) :=
    match Text.cut? "=" word with
    | some (name, value) => (name, some value)
    | none => (word, none)
  let otherwise : Argument :=
    if isNegativeNumber word.toList || word.toList.contains ' ' then .plain word
    else .stranger word
  match value.bind (withValue? name) with
  | some argument => some argument
  | none =>
    match word.toList with
    | '-' :: '-' :: _ =>
      match Switch.long.filter fun spelling => name.toList.isPrefixOf spelling.1.toList with
      | [] => some otherwise
      | [(_, switch)] => some (.option switch (.ofOption value))
      | _ => none
    | '-' :: letter :: rest =>
      match Switch.spellings.lookup (String.ofList ['-', letter]) with
      | some switch => some (.option switch (.direct rest))
      | none => some otherwise
    | _ => some (.plain word)

/-- Sorts an argument; `none` if it could stand for several options. -/
def sort (word : String) : Option Argument :=
  if word.toList.head? ≠ some '-' then some (.plain word)
  else
    match Switch.spellings.lookup word with
    | some switch => some (.option switch .none)
    | none => sortDashed word

/-- Sorts all arguments. -/
def sortAll : List String → Option (List Argument)
  | [] => some []
  | word :: words =>
    if word = "--" then some (.dashes :: words.map .plain)
    else do
      let argument ← sort word
      let arguments ← sortAll words
      return argument :: arguments

/-- What the program is to do. -/
structure Options where
  /-- The file to run. -/
  file : Option String := none
  /-- Whether an expression is to be evaluated, and which one if it has a text. -/
  expr : Option (Option String) := none
  /-- Whether every step is printed. -/
  steps : Bool := false
  /-- The budget, if it has a value. -/
  budget : Option Int := some Calculus.defaultBudget
  /-- Whether the examples are run. -/
  examples : Bool := false
  deriving DecidableEq

/-- Why the program is not run. -/
inductive Halt where
  /-- The help text was asked for. -/
  | help
  /-- The arguments make no sense. -/
  | refused
  deriving DecidableEq

/-- What is known of the options while arguments are taken. -/
structure Taken where
  /-- The options so far. -/
  options : Options := {}
  /-- Whether the place of the file has been filled. -/
  placed : Bool := false
  /-- Whether a word was left over. -/
  leftover : Bool := false

/-- What comes of the short options behind one that asks for help: all of them have to make sense
before the help text is shown. -/
def bundle : List Char → List Argument → Halt
  | ['h'], _ => .help
  | 'h' :: rest, following => bundle rest following
  | ['e'], .plain _ :: _ => .help
  | ['e'], _ => .refused
  | 'e' :: _, _ => .help
  | _, _ => .refused

/-- The value that stands in the same argument as its option. -/
def writtenValue? (text : String) : Option String := if text = "--" then none else some text

/-- Sets an option to a value, or leaves it without one. -/
def Taken.setValue (taken : Taken) (switch : Switch) (value : Option String) :
    Except Halt Taken :=
  match switch, value with
  | .expr, value => .ok { taken with options := { taken.options with expr := some value } }
  | .maxSteps, none => .ok { taken with options := { taken.options with budget := none } }
  | .maxSteps, some text =>
    match Text.readInteger? text.toList with
    | some budget => .ok { taken with options := { taken.options with budget := some budget } }
    | none => .error .refused
  | _, _ => .error .refused

/-- Sets an option that takes no value. -/
def Taken.setFlag (taken : Taken) : Switch → Except Halt Taken
  | .help => .error .help
  | .steps => .ok { taken with options := { taken.options with steps := true } }
  | .examples => .ok { taken with options := { taken.options with examples := true } }
  | .expr | .maxSteps => .error .refused

/-- Puts a word in the place of the file, if that is free. -/
def Taken.place (taken : Taken) (word : Option String) : Taken :=
  if taken.placed then { taken with leftover := true }
  else { taken with options := { taken.options with file := word }, placed := true }

/-- Takes sorted arguments in order. The dashes belong to the word before or after them, if that
takes the place of the file. -/
def take (taken : Taken) : List Argument → Except Halt Taken
  | [] => .ok taken
  | .plain word :: .dashes :: rest =>
    if taken.placed then take { taken with leftover := true } rest
    else take (taken.place (some word)) rest
  | .plain word :: rest => take (taken.place (some word)) rest
  | .dashes :: .plain word :: rest => take (taken.place (some word)) rest
  | .dashes :: rest => take (taken.place none) rest
  | .stranger _ :: rest => take { taken with leftover := true } rest
  | .option switch attached :: rest =>
    if switch.takesValue then
      match attached, rest with
      | .equals value, rest => do take (← taken.setValue switch (writtenValue? value)) rest
      | .direct value, rest => do
        take (← taken.setValue switch (writtenValue? (String.ofList value))) rest
      | .none, .plain value :: rest => do take (← taken.setValue switch (some value)) rest
      | .none, _ => .error .refused
    else
      match attached with
      | .none => do take (← taken.setFlag switch) rest
      | .equals _ => .error .refused
      | .direct others => .error (bundle others rest)

/-- The options that arguments amount to. -/
def Options.ofArguments (arguments : List String) : Except Halt Options :=
  match sortAll arguments with
  | none => .error .refused
  | some sorted =>
    match take {} sorted with
    | .error halt => .error halt
    | .ok taken => if taken.leftover then .error .refused else .ok taken.options

end UntypedLambda.CommandLine
