/-!
# Indices

A place in a row and a count of repetitions are signed words of 64 bits. A number outside that
range is refused before anything is looked at.
-/

namespace UntypedLambda.Index

/-- The least index. -/
def least : Int := -9223372036854775808

/-- The greatest index. -/
def greatest : Nat := 9223372036854775807

/-- Whether a number is an index. -/
def fits (value : Int) : Bool := decide (least ≤ value) && decide (value ≤ (greatest : Int))

/-- What is said of a number that is no index. -/
def refusal : String := "cannot fit 'int' into an index-sized integer"

end UntypedLambda.Index
