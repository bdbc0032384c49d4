import UntypedLambda.Main
import UntypedLambda.Proofs.Nameless.Translation
import UntypedLambda.Proofs.Substitution
import UntypedLambda.Proofs.Alpha
import UntypedLambda.Proofs.Contraction
import UntypedLambda.Proofs.Nameless.Reduction
import UntypedLambda.Proofs.Redex
import UntypedLambda.Proofs.Evaluation
import UntypedLambda.Proofs.Confluence
import UntypedLambda.Proofs.AlphaInvariance
import UntypedLambda.Proofs.Grammar
import UntypedLambda.Proofs.ParserTurn
import UntypedLambda.Proofs.Completion
import UntypedLambda.Proofs.Parsing
import UntypedLambda.Proofs.RecursiveStep
import UntypedLambda.Proofs.Spelling
import UntypedLambda.Proofs.Scanning
import UntypedLambda.Proofs.Reading
import UntypedLambda.Proofs.RoundTrip
import UntypedLambda.Proofs.Dependency
import UntypedLambda.Proofs.ExpansionLoop
import UntypedLambda.Proofs.SessionWork
import UntypedLambda.Proofs.ReachableSession
import UntypedLambda.Proofs.Occurrence
import UntypedLambda.Proofs.SimultaneousExpansion
import UntypedLambda.Proofs.Lexemes
import UntypedLambda.Proofs.Budget
import UntypedLambda.Proofs.Settling
import UntypedLambda.Proofs.Refusal
import UntypedLambda.Proofs.ShellWork
import UntypedLambda.Proofs.ShellPrompt
import UntypedLambda.Proofs.TypedLine
import UntypedLambda.Proofs.Balance
import UntypedLambda.Proofs.TypedFile
import UntypedLambda.Proofs.Arithmetic
import UntypedLambda.Proofs.ViablePrefix
import UntypedLambda.Proofs.LaterDefinitions
import UntypedLambda.Proofs.LambdaSpelling
import UntypedLambda.Proofs.Misplaced
import UntypedLambda.Proofs.RowBounds
import UntypedLambda.Proofs.Atomicity
import UntypedLambda.Proofs.QueueRun
import UntypedLambda.Proofs.NumeralShape
import UntypedLambda.Proofs.NumberReplacement
import UntypedLambda.Proofs.NumberEvaluation
import UntypedLambda.Proofs.ParenthesizedTerm
import UntypedLambda.Proofs.ReplacedPositions
import UntypedLambda.Proofs.OffendingSpan
import UntypedLambda.Proofs.DefinitionLine
import UntypedLambda.Proofs.InternalReport
import UntypedLambda.Proofs.Unambiguity
import UntypedLambda.Proofs.FreeNames
import UntypedLambda.Proofs.FailingFile
import UntypedLambda.Proofs.Normalization
import UntypedLambda.Proofs.PlainReplacement
import UntypedLambda.Proofs.Segmentation
import UntypedLambda.Proofs.PathLens
import UntypedLambda.Proofs.SubstitutionSize
import UntypedLambda.Proofs.TreeWalks
import UntypedLambda.Proofs.FreshNames
import UntypedLambda.Proofs.ScannerCalls
import UntypedLambda.Proofs.TemplateParts
import UntypedLambda.Proofs.Highlighting
