import UntypedLambda.Proofs.QueueRun
import UntypedLambda.Proofs.TypedFile

/-!
# A file with a term that runs out of steps

The program reads all statements of a file, then evaluates all terms among them, and prints the
results only after that. If a term runs out of steps, the program leaves in between. What it has
printed are the warnings that came up while the file was read, and the report with the line of the
term; the results of the terms before that one are not printed, although the session has them.
-/

namespace UntypedLambda

deriving instance DecidableEq for Queued

/-- Where a term in the queue comes from. -/
def Queued.origin (item : Queued) : Origin := ⟨some item.text, item.number⟩

namespace Statement

/-- Where a statement stands. -/
def origin (statement : Statement) : Origin := ⟨some statement.text, some (statement.line : Int)⟩

/-- Whether a statement is a term, which is to be evaluated. -/
def isTerm (statement : Statement) : Bool := (Text.cut? ":=" statement.text).isNone

/-- What is printed when a statement is read. -/
def warnings (statement : Statement) : List String :=
  match Text.cut? ":=" statement.text with
  | some (name, _) => Session.shadowing (Text.trimmed name)
  | none => []

end Statement

namespace Reporter

variable {r : Reporter}

end Reporter

namespace Session

/-- What a session is after some statements were read, none of which failed. -/
structure Collects (s : Session) (statements : List Statement) (t : Session) : Prop where
  /-- The path stays. -/
  path : t.path = s.path
  /-- The calculus stays. -/
  calculus : t.calculus = s.calculus
  /-- Warnings are printed, and no line is left behind. -/
  reporter : t.reporter = s.reporter.printLines (statements.flatMap Statement.warnings)
  /-- The terms wait behind those that waited before, in order. -/
  queue : t.queue.map Queued.origin =
    s.queue.map Queued.origin ++ (statements.filter Statement.isTerm).map Statement.origin
  /-- No term is spelled by nothing. -/
  spelled : ∀ statement ∈ statements, statement.isTerm = true → statement.text ≠ ""

variable {s t : Session} {statement : Statement} {statements : List Statement}

/-- Reading one more statement. -/
theorem Collects.cons {next : Session} (hfirst : s.Collects [statement] next)
    (hrest : next.Collects statements t) : s.Collects (statement :: statements) t where
  path := hrest.path.trans hfirst.path
  calculus := hrest.calculus.trans hfirst.calculus
  reporter := by
    rw [hrest.reporter, hfirst.reporter, Reporter.printLines_printLines, List.flatMap_singleton,
      List.flatMap_cons]
  queue := by
    rw [hrest.queue, hfirst.queue, List.append_assoc, ← List.map_append, ← List.filter_append,
      List.singleton_append]
  spelled := List.forall_mem_cons.mpr
    ⟨hfirst.spelled statement List.mem_cons_self, hrest.spelled⟩

end Session

namespace CommandLine

/-- A call of the program that is to run a file. -/
structure CallsFile (arguments : List String) (directory : Directory) (options : Options)
    (path contents : String) : Prop where
  /-- The arguments make sense. -/
  accepted : Options.ofArguments arguments = .ok options
  /-- The examples are not asked for. -/
  examples : options.examples = false
  /-- No expression is given. -/
  expr : options.expr = none
  /-- A path is given. -/
  file : options.file = some path
  /-- There is a file that can be read. -/
  readable : directory.read? path = some contents

section Run

variable {arguments : List String} {directory : Directory} {options : Options}
  {path contents : String} {built : Session} {before behind : List Queued} {forms : List Term}
  {item : Queued} {budget : Int}

/-- A call with a file is settled by the reporter if running the file fails. -/
theorem CallsFile.run_eq {fault : Fault} {t : Session} {shown : Reporter}
    (h : CallsFile arguments directory options path contents)
    (hrun : runFile (some contents) options.steps
      (.start path ⟨options.budget⟩ false (.start true)) = .error fault t)
    (hsettle : Reporter.settle fault t.reporter = .error (.leave "1") shown)
    (lines : List String) :
    run arguments directory lines = (.status 1, String.join (shown.printed.map written)) := by
  have hexecute : execute options (options.file.bind directory.read?) lines (.start true) =
      .error fault t.reporter := by
    unfold execute
    rw [h.examples, h.expr, h.file, Option.bind_some, h.readable, if_neg Bool.false_ne_true]
    dsimp only
    unfold Session.within Action.onPart
    rw [hrun]
  have hguarded : Reporter.guarded (execute options (options.file.bind directory.read?) lines)
      (.start true) = .error (.leave "1") shown := by
    unfold Reporter.guarded Action.recover
    rw [hexecute]
    dsimp only
    rw [hsettle]
  unfold run
  rw [h.accepted]
  dsimp only
  rw [hguarded]
  rfl

end Run

end CommandLine

end UntypedLambda
