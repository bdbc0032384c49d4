import UntypedLambda.Table
import UntypedLambda.Term.Substitution

/-!
# Expanding definitions

Expanding a term replaces its free names by what they are defined as, until no defined name is
free. The definitions are put in one after the other, oldest first, in passes over the whole table.
A definition may mention names that were defined after it, so one pass need not be enough; but as
long as no definition leads back to itself, there are no more passes than definitions.
-/

namespace UntypedLambda

/-- Named terms, in order of definition. -/
abbrev Definitions := Table Term

namespace Definitions

/-- Puts one definition in place of its name. -/
def unfold (t : Term) (definition : String × Term) : Term :=
  if t.free definition.1 then t.subst definition.1 definition.2 else t

/-- Puts every definition in place of its name, one after the other. -/
def pass (definitions : Definitions) (t : Term) : Term := definitions.entries.foldl unfold t

/-- Whether a defined name is free in the term. -/
def mentions (definitions : Definitions) (t : Term) : Bool := definitions.names.any t.free

/-- Passes until no defined name is free, but no more than so many. -/
def expandWithin (definitions : Definitions) : Nat → Term → Term
  | 0, t => t
  | passes + 1, t =>
    if definitions.mentions t then definitions.expandWithin passes (definitions.pass t) else t

/-- The term with every defined name replaced. -/
def expand (definitions : Definitions) (t : Term) : Term :=
  definitions.expandWithin definitions.entries.length t

end Definitions

end UntypedLambda
