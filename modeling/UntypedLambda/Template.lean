import UntypedLambda.Index
import UntypedLambda.Text.Digit
import UntypedLambda.Text.Quoted

/-!
# Message templates

A template is a text with fields in braces, filled from a row of texts. A field is empty and takes
the next text, or holds the index of a text; a template uses one of the two ways of numbering. A
brace that is meant literally is written twice.

A template is first cut into segments, which needs no texts, and then filled from left to right.
The first fault on the way is the outcome: a malformed field counts where it stands.
-/

namespace UntypedLambda

/-- What can be wrong with a template, or with the texts given to it. -/
inductive TemplateFault where
  /-- An opening brace is the last character. -/
  | loneOpening
  /-- A closing brace is neither doubled nor the end of a field. -/
  | loneClosing
  /-- The template ends inside the name of a field. -/
  | unclosed
  /-- A field's name holds an opening brace. -/
  | nestedOpening
  /-- The template ends where a conversion is announced. -/
  | missingConversion
  /-- A conversion is followed neither by a format nor by the end of the field. -/
  | strayConversion
  /-- The template ends inside a format. -/
  | unclosedFormat
  /-- An index is larger than any text row is long. -/
  | hugeIndex
  /-- An empty field comes after a numbered one. -/
  | automaticAfterManual
  /-- A numbered field comes after an empty one. -/
  | manualAfterAutomatic
  /-- There is no text with this index. -/
  | outOfRange (index : Nat)
  /-- A field asks for a text by name, and texts have no names. -/
  | unknownName (name : String)
  deriving DecidableEq

/-- The text of a fault. -/
def TemplateFault.message : TemplateFault → String
  | .loneOpening => "Single '\x7b' encountered in format string"
  | .loneClosing => "Single '\x7d' encountered in format string"
  | .unclosed => "expected '\x7d' before end of string"
  | .nestedOpening => "unexpected '\x7b' in field name"
  | .missingConversion => "end of string while looking for conversion specifier"
  | .strayConversion => "expected ':' after conversion specifier"
  | .unclosedFormat => "unmatched '\x7b' in format spec"
  | .hugeIndex => "Too many decimal digits in format string"
  | .automaticAfterManual =>
    "cannot switch from manual field specification to automatic field numbering"
  | .manualAfterAutomatic =>
    "cannot switch from automatic field numbering to manual field specification"
  | .outOfRange index =>
    "Replacement index " ++ toString index ++ " out of range for positional args tuple"
  | .unknownName name => Text.quoted name

namespace Template

/-- What a field asks for. -/
inductive Field where
  /-- The text after the one that the last empty field took. -/
  | next
  /-- The text with an index. -/
  | position (index : Nat)
  /-- A text with a name. -/
  | named (name : String)
  deriving DecidableEq

/-- A part of a template. -/
inductive Segment where
  /-- A character that stands for itself. -/
  | literal (c : Char)
  /-- A place for a text. -/
  | field (field : Field)
  /-- The place where the template stops making sense. -/
  | broken (fault : TemplateFault)
  deriving DecidableEq

/-- Reads an index; `none` if a character is no digit. Too large a number is noticed at once. -/
def readIndex (value : Nat) : List Char → Except TemplateFault (Option Nat)
  | [] => .ok (some value)
  | c :: rest =>
    match Text.digitValue? c with
    | none => .ok none
    | some digit =>
      if (Index.greatest - digit) / 10 < value then .error .hugeIndex
      else readIndex (10 * value + digit) rest

/-- The field with the given text between its braces. The name ends at a dot or a bracket. -/
def Segment.ofName (text : List Char) : Segment :=
  let name := text.takeWhile fun c => c ≠ '.' ∧ c ≠ '['
  if name.isEmpty then .field .next
  else
    match readIndex 0 name with
    | .error fault => .broken fault
    | .ok (some index) => .field (.position index)
    | .ok none => .field (.named (String.ofList name))

/-- Where the reader of a template is. Inside a field it holds the name read so far, backwards. -/
inductive Mode where
  /-- Outside of fields. -/
  | outside
  /-- In the name of a field. -/
  | name (read : List Char)
  /-- Between the square brackets of a name, where no character is special. -/
  | bracket (read : List Char)
  /-- Before the letter of a conversion. -/
  | conversion (read : List Char)
  /-- After the letter of a conversion. -/
  | converted (read : List Char)
  /-- In a format, inside the given number of open braces. -/
  | format (read : List Char) (depth : Nat)

/-- Cuts a template into segments. Nothing after a broken segment counts. -/
def segmentsFrom : Mode → List Char → List Segment
  | .outside, [] => []
  | .outside, '\x7b' :: [] => [.broken .loneOpening]
  | .outside, '\x7b' :: '\x7b' :: rest => .literal '\x7b' :: segmentsFrom .outside rest
  | .outside, '\x7b' :: rest => segmentsFrom (.name []) rest
  | .outside, '\x7d' :: '\x7d' :: rest => .literal '\x7d' :: segmentsFrom .outside rest
  | .outside, '\x7d' :: _ => [.broken .loneClosing]
  | .outside, c :: rest => .literal c :: segmentsFrom .outside rest
  | .name _, [] => [.broken .unclosed]
  | .name read, c :: rest =>
    if c = '\x7b' then [.broken .nestedOpening]
    else if c = '\x7d' then Segment.ofName read.reverse :: segmentsFrom .outside rest
    else if c = ':' then segmentsFrom (.format read 1) rest
    else if c = '!' then segmentsFrom (.conversion read) rest
    else if c = '[' then segmentsFrom (.bracket (c :: read)) rest
    else segmentsFrom (.name (c :: read)) rest
  | .bracket _, [] => [.broken .unclosed]
  | .bracket read, c :: rest =>
    if c = ']' then segmentsFrom (.name (c :: read)) rest
    else segmentsFrom (.bracket (c :: read)) rest
  | .conversion _, [] => [.broken .missingConversion]
  | .conversion read, _ :: rest => segmentsFrom (.converted read) rest
  | .converted _, [] => [.broken .unclosedFormat]
  | .converted read, c :: rest =>
    if c = '\x7d' then Segment.ofName read.reverse :: segmentsFrom .outside rest
    else if c = ':' then segmentsFrom (.format read 1) rest
    else [.broken .strayConversion]
  | .format _ _, [] => [.broken .unclosedFormat]
  | .format read depth, c :: rest =>
    if c = '\x7b' then segmentsFrom (.format read (depth + 1)) rest
    else if c = '\x7d' then
      if depth ≤ 1 then Segment.ofName read.reverse :: segmentsFrom .outside rest
      else segmentsFrom (.format read (depth - 1)) rest
    else segmentsFrom (.format read depth) rest

/-- The segments of a template. -/
def segments (template : String) : List Segment := segmentsFrom .outside template.toList

/-- How the fields of a template are numbered, as far as it is known. -/
inductive Numbering where
  /-- No field has been numbered yet. -/
  | undecided
  /-- By the template itself: the index of the next empty field. -/
  | automatic (next : Nat)
  /-- By the fields. -/
  | manual
  deriving DecidableEq

/-- The index of the text that a field asks for, and the numbering after it. -/
def Numbering.locate : Numbering → Field → Except TemplateFault (Nat × Numbering)
  | .undecided, .next => .ok (0, .automatic 1)
  | .automatic next, .next => .ok (next, .automatic (next + 1))
  | .manual, .next => .error .automaticAfterManual
  | .automatic _, .position _ => .error .manualAfterAutomatic
  | _, .position index => .ok (index, .manual)
  | _, .named name => .error (.unknownName name)

/-- Fills segments from left to right. -/
def fillSegments (texts : List String) :
    Numbering → List Segment → Except TemplateFault (List Char)
  | _, [] => .ok []
  | numbering, .literal c :: rest =>
    match fillSegments texts numbering rest with
    | .ok filled => .ok (c :: filled)
    | .error fault => .error fault
  | _, .broken fault :: _ => .error fault
  | numbering, .field field :: rest =>
    match numbering.locate field with
    | .error fault => .error fault
    | .ok (index, numbering) =>
      match texts[index]? with
      | none => .error (.outOfRange index)
      | some text =>
        match fillSegments texts numbering rest with
        | .ok filled => .ok (text.toList ++ filled)
        | .error fault => .error fault

/-- Fills a template from a row of texts. -/
def fill (template : String) (texts : List String) : Except TemplateFault String :=
  match fillSegments texts .undecided (segments template) with
  | .ok filled => .ok (String.ofList filled)
  | .error fault => .error fault

end Template

end UntypedLambda
