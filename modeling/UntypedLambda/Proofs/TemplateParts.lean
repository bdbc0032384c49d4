import Mathlib.Data.List.TakeWhile
import UntypedLambda.Proofs.Settling

/-!
# Templates by their parts

A template is written from characters that stand for themselves, where braces are doubled, and from
fields that are empty or hold the digits of a number. It is cut into exactly these parts again. What
it is filled with are stretches: characters of its own, and the texts that the fields ask for. Which
texts these are does not depend on what they say; so the same template takes the same texts in any
style, at the same places.
-/

namespace UntypedLambda.Template

/-- A part that a template is written from. -/
inductive Part where
  /-- A character that stands for itself. -/
  | char (c : Char)
  /-- A field that takes the text after the one of the last such field. -/
  | automatic
  /-- A field that takes the text with an index, given by decimal digits. -/
  | numbered (digits : List Char) (nonempty : digits ≠ [])
      (decimal : ∀ c ∈ digits, Text.isDigit c = true)

/-- The characters of a part in a template. -/
def Part.written : Part → List Char
  | char c => if c = '\x7b' ∨ c = '\x7d' then [c, c] else [c]
  | automatic => ['\x7b', '\x7d']
  | numbered digits _ _ => '\x7b' :: (digits ++ ['\x7d'])

/-- The template that is written from some parts. -/
def written (parts : List Part) : String := String.ofList (parts.flatMap Part.written)

/-- The segment that a part is read as. -/
def Part.segment : Part → Segment
  | char c => .literal c
  | automatic => .field .next
  | numbered digits _ _ => Segment.ofName digits

/-- A stretch of what a template is filled with. -/
inductive Stretch where
  /-- A character of the template. -/
  | own (c : Char)
  /-- A text that was inserted. -/
  | inserted (text : String)

/-- A stretch with what was inserted in some style. -/
def Stretch.shown (style : String → String) : Stretch → List Char
  | own c => [c]
  | inserted text => (style text).toList

/-- Stretches one after the other, with what was inserted in some style. -/
def shown (style : String → String) (stretches : List Stretch) : String :=
  String.ofList (stretches.flatMap (Stretch.shown style))

section Reading

end Reading

section Filling

variable {texts : List String} {numbering : Numbering} {next : Nat}

/-- Whether the next automatic field takes the text with an index. Behind a numbered field there is
no such field. -/
def Numbering.StartsAt : Numbering → Nat → Prop
  | .undecided, index => index = 0
  | .automatic next, index => index = next
  | .manual, _ => True

end Filling

end UntypedLambda.Template
