import UntypedLambda.Proofs.SessionWork
import UntypedLambda.Shell

/-!
# What a line does to a shell

A line of a statement is put behind what the shell holds. If parentheses are still open, the shell
holds the text; a text without characters is done with; any other is worked on at once. If nothing
waits before, nothing waits afterwards, whether or not the work fails. A statement that fails leaves
its line with the reporter, and the definitions as they were.
-/

namespace UntypedLambda

/-- Work of a session that came to its end. The session has these definitions now, and has printed
these texts; nothing waits, and no line is noted for its path. -/
structure Session.Concludes (s : Session) (definitions : Definitions) (texts : List String)
    (s' : Session) : Prop where
  /-- The path stays. -/
  path : s'.path = s.path
  /-- The calculus stays. -/
  calculus : s'.calculus = s.calculus
  /-- The definitions are these. -/
  definitions : s'.definitions = definitions
  /-- Nothing is queued. -/
  queue : s'.queue = []
  /-- All results have been shown. -/
  results : s'.results = []
  /-- Errors are as fatal as before. -/
  fatal : s'.reporter.fatal = s.reporter.fatal
  /-- The texts have been printed. -/
  printed : s'.reporter.printed = s.reporter.printed ++ texts.map .line
  /-- No line is noted for the path. -/
  traceback : s'.reporter.traceback = s.reporter.traceback.put s.path .none

/-- Work of a session that failed. The definitions stay, nothing waits, and nothing was printed. -/
structure Session.Fails (s s' : Session) : Prop where
  /-- The calculus stays. -/
  calculus : s'.calculus = s.calculus
  /-- The definitions stay. -/
  definitions : s'.definitions = s.definitions
  /-- Nothing is queued. -/
  queue : s'.queue = []
  /-- There are no results. -/
  results : s'.results = []
  /-- Errors are as fatal as before. -/
  fatal : s'.reporter.fatal = s.reporter.fatal
  /-- Nothing has been printed. -/
  printed : s'.reporter.printed = s.reporter.printed

namespace Session

variable {s : Session} {text : String} {number : Option Int}

/-- Without anything in the queue, a run does nothing. -/
theorem run_of_nil (h : s.queue = []) (traced : Bool) : run traced s = .ok () s := by
  unfold run
  rw [Action.bind_of_ok (Action.get_eq_ok.mpr ⟨rfl, rfl⟩), h]
  rfl

/-- If nothing waits before it, a term that waits is all that a run evaluates. -/
theorem run_queued (h : s.queue = []) (text : String) (number : Option Int) (term : Term)
    (traced : Bool) : run traced (s.queued text number term) =
      runQueue traced [⟨number, text, term⟩] (s.queued text number term) := by
  have hqueue : (s.queued text number term).queue = [⟨number, text, term⟩] := by
    change s.queue ++ [⟨number, text, term⟩] = [⟨number, text, term⟩]
    rw [h, List.nil_append]
  unfold run
  rw [Action.bind_of_ok (Action.get_eq_ok.mpr ⟨rfl, rfl⟩), hqueue]

end Session

namespace Shell

variable {shell : Shell} {line text name body : String} {term result : Term}

/-- The statement that a line is put behind. -/
def continued (shell : Shell) (line : String) : String :=
  if shell.held.isEmpty then Statement.clean line
  else Statement.join shell.held (Statement.clean line)

/-- The shell after a line that leaves parentheses open. -/
def holding (shell : Shell) (text : String) : Shell :=
  { shell with held := text, prompt := secondaryPrompt, lineNumber := shell.lineNumber + 1 }

/-- The shell after any other line of a statement, before anything is done about it. -/
def ready (shell : Shell) : Shell :=
  { shell with held := "", prompt := primaryPrompt, lineNumber := shell.lineNumber + 1 }

/-- What the session succeeds in changes the session. -/
theorem onSession_of_ok {α : Type} {act : Action Session α} {a : α} {session : Session}
    (h : act shell.session = .ok a session) :
    onSession act shell = .ok a { shell with session } := by
  unfold onSession Action.onPart
  rw [h]

/-- What the session fails in changes the session, too. -/
theorem onSession_of_error {α : Type} {act : Action Session α} {fault : Fault} {session : Session}
    (h : act shell.session = .error fault session) :
    onSession act shell = .error fault { shell with session } := by
  unfold onSession Action.onPart
  rw [h]

/-- The shell with some more texts printed. -/
def printed (shell : Shell) (texts : List String) : Shell :=
  { shell with
    session := { shell.session with reporter := shell.session.reporter.printLines texts } }

/-- Texts are printed without fail. -/
theorem printLines_eq (texts : List String) (shell : Shell) :
    printLines texts shell = .ok () (shell.printed texts) := rfl

/-- The shell after a name is bound to a term. -/
def bound (shell : Shell) (name : String) (term : Term) : Shell :=
  { shell with session := shell.session.bound name term }

/-- The command for a definition is explained, if it says nothing to bind; or it binds the name; or
it is refused. -/
theorem takeDefinition_cases (argument : String) (shell : Shell) :
    let parts := (Text.cut? " " (Text.trimmed argument)).getD (Text.trimmed argument, "")
    ((parts.1.isEmpty || (Text.trimmed parts.2).isEmpty) = true ∧
      takeDefinition argument shell =
        .ok () (shell.printed ["Usage: :def <name> <expression>"])) ∨
    (∃ term, shell.session.definitions.Admits parts.1 parts.2 term ∧
      takeDefinition argument shell = .ok ()
        ((shell.bound (Text.trimmed parts.1) (shell.session.definitions.expand term)).printed
          ["Defined " ++ parts.1 ++ " = " ++ Text.trimmed parts.2])) ∨
    (∀ term, ¬shell.session.definitions.Admits parts.1 parts.2 term) ∧
      ∃ fault, Session.define parts.1 parts.2 shell.session = .error fault shell.session ∧
        takeDefinition argument shell = .error fault shell := by
  intro parts
  have hparts : (Text.cut? " " (Text.trimmed argument)).getD (Text.trimmed argument, "") =
    parts := rfl
  unfold takeDefinition
  dsimp only
  rw [hparts]
  split
  · next hnothing => exact .inl ⟨hnothing, rfl⟩
  by_cases hadmits : ∃ term, shell.session.definitions.Admits parts.1 parts.2 term
  · obtain ⟨term, hterm⟩ := hadmits
    have hdefine := onSession_of_ok (Session.define_of_admits hterm)
    exact .inr (.inl ⟨term, hterm, (Action.bind_of_ok hdefine).trans (printLines_eq _ _)⟩)
  · have hnone := not_exists.mp hadmits
    obtain ⟨fault, hdefine⟩ := Session.define_of_not_admits hnone
    have hrefused := onSession_of_error hdefine
    exact .inr (.inr ⟨hnone, fault, hdefine, Action.bind_of_error hrefused⟩)

/-- Works on a statement that is complete. -/
def finish (text : String) (number : Nat) : Action Shell Unit := do
  onSession (Session.add text (some (number : Int)))
  onSession (Session.run false)
  showResults (← get).session.results.length

/-- A statement is held, done with, or worked on. -/
theorem takeStatement_eq (line : String) (shell : Shell) :
    takeStatement line shell =
      if Statement.isOpen (shell.continued line) then
        .ok () (shell.holding (shell.continued line))
      else if (shell.continued line).isEmpty then .ok () shell.ready
      else finish (shell.continued line) (shell.lineNumber + 1) shell.ready := by
  unfold takeStatement
  rw [Action.bind_of_ok ((Action.modify_eq_ok (u := ())).mpr rfl)]
  rw [Action.bind_of_ok (Action.get_eq_ok.mpr ⟨rfl, rfl⟩)]
  change (if Statement.isOpen (shell.continued line) then _ else _ : Action Shell Unit) _ = _
  by_cases hopen : Statement.isOpen (shell.continued line) = true
  · rw [if_pos hopen, if_pos hopen]
    rfl
  · rw [if_neg hopen, if_neg hopen]
    rw [Action.bind_of_ok ((Action.modify_eq_ok (u := ())).mpr rfl)]
    change (if !(shell.continued line).isEmpty then _ else _ : Action Shell Unit) _ = _
    cases hempty : (shell.continued line).isEmpty with
    | true => rfl
    | false => rfl

/-- Showing one result takes it from the session and prints it. -/
theorem showResults_one (h : shell.session.results = [result]) :
    showResults 1 shell = .ok ()
      { shell with session := { shell.session with
          results := []
          reporter := shell.session.reporter.printLines [result.display] } } := by
  have hpop : Session.pop shell.session =
      .ok result.display { shell.session with results := [] } := by
    unfold Session.pop
    rw [Action.bind_of_ok (Action.get_eq_ok.mpr ⟨rfl, rfl⟩), h]
    rfl
  unfold showResults
  rw [Action.bind_of_ok (onSession_of_ok hpop)]
  rfl

/-- A statement that is worked on without a fault has its results shown. -/
theorem finish_of_ok {number : Nat} {added session : Session}
    (hadd : Session.add text (some (number : Int)) shell.session = .ok () added)
    (hrun : Session.run false added = .ok () session) :
    finish text number shell = showResults session.results.length { shell with session } := by
  unfold finish
  rw [Action.bind_of_ok (onSession_of_ok hadd), Action.bind_of_ok (onSession_of_ok hrun),
    Action.bind_of_ok (Action.get_eq_ok.mpr ⟨rfl, rfl⟩)]

section Idle

variable (hqueue : shell.session.queue = []) (hresults : shell.session.results = [])

include hqueue hresults

/-- A definition that passes the checks binds its name. -/
theorem finish_of_admits (hcut : Text.cut? ":=" text = some (name, body))
    (h : shell.session.definitions.Admits name body term) (number : Nat) :
    ∃ session, finish text number shell = .ok () { shell with session } ∧
      shell.session.Concludes
        (shell.session.definitions.put (Text.trimmed name) (shell.session.definitions.expand term))
        (Session.shadowing (Text.trimmed name)) session := by
  have hadd := Session.add_of_admits hcut h (some (number : Int))
  let bound := ((shell.session.entered text (some (number : Int))).bound (Text.trimmed name)
    (shell.session.definitions.expand term)).left
  have hnothing : bound.queue = [] := hqueue
  refine ⟨bound, ?_, ?_⟩
  · rw [finish_of_ok hadd (Session.run_of_nil hnothing false)]
    change showResults shell.session.results.length _ = _
    rw [hresults]
    rfl
  · exact {
      path := rfl
      calculus := rfl
      definitions := rfl
      queue := hqueue
      results := hresults
      fatal := rfl
      printed := rfl
      traceback := Table.put_put _ _ _ _ }

/-- A term with a normal form has it shown. -/
theorem finish_of_normalForm (hcut : Text.cut? ":=" text = none)
    (hread : shell.session.read text = .ok term)
    (hnormal : shell.session.calculus.normalForm term = .ok result) (number : Nat) :
    ∃ session, finish text number shell = .ok () { shell with session } ∧
      shell.session.Concludes shell.session.definitions [result.display] session := by
  have hadd := Session.add_of_read hcut hread (some (number : Int))
  let item : Queued := ⟨some (number : Int), text, term⟩
  let added := shell.session.queued text (some (number : Int)) term
  have hadded : added.calculus.normalForm item.term = .ok result := hnormal
  obtain ⟨steps, -, hrun⟩ := Session.runQueue_of_normalForm hadded false []
  rw [← Session.run_queued hqueue] at hrun
  let evaluated := Session.left { added.taken item [] with
    results := added.results ++ [result], traces := added.traces ++ steps }
  have hevaluated : evaluated.results = [result] := by
    change shell.session.results ++ [result] = [result]
    rw [hresults, List.nil_append]
  refine ⟨{ evaluated with
    results := [], reporter := evaluated.reporter.printLines [result.display] }, ?_, ?_⟩
  · rw [finish_of_ok hadd hrun]
    change showResults evaluated.results.length { shell with session := evaluated } = _
    have hshown : ({ shell with session := evaluated } : Shell).session.results = [result] :=
      hevaluated
    rw [hevaluated]
    exact showResults_one hshown
  · have htraceback : evaluated.reporter.traceback =
        shell.session.reporter.traceback.put shell.session.path .none := by
      refine (Table.put_put _ _ _ _).trans ?_
      refine (Table.put_put _ _ _ _).trans ?_
      exact Table.put_put _ _ _ _
    exact {
      path := rfl
      calculus := rfl
      definitions := rfl
      queue := rfl
      results := rfl
      fatal := rfl
      printed := rfl
      traceback := htraceback }

/-- A term without a normal form changes no definitions, and leaves nothing that waits. -/
theorem finish_of_no_normalForm {fault : Fault} (hcut : Text.cut? ":=" text = none)
    (hread : shell.session.read text = .ok term)
    (hnormal : shell.session.calculus.normalForm term = .error fault) (number : Nat) :
    ∃ session, finish text number shell = .error fault { shell with session } ∧
      shell.session.Fails session := by
  have hadd := Session.add_of_read hcut hread (some (number : Int))
  let item : Queued := ⟨some (number : Int), text, term⟩
  let added := shell.session.queued text (some (number : Int)) term
  have hadded : added.calculus.normalForm item.term = .error fault := hnormal
  have hrun := Session.runQueue_of_error hadded false []
  rw [← Session.run_queued hqueue] at hrun
  refine ⟨added.taken item [], ?_, ⟨rfl, rfl, rfl, hresults, rfl, rfl⟩⟩
  unfold finish
  rw [Action.bind_of_ok (onSession_of_ok hadd)]
  exact Action.bind_of_error (onSession_of_error hrun)

/-- A statement that is refused changes no definitions, and leaves nothing that waits. -/
theorem finish_of_refused {number : Nat} {fault : Fault}
    (hadd : Session.add text (some (number : Int)) shell.session =
      .error fault (shell.session.entered text (some (number : Int)))) :
    ∃ session, finish text number shell = .error fault { shell with session } ∧
      shell.session.Fails session := by
  refine ⟨shell.session.entered text (some (number : Int)), ?_,
    ⟨rfl, rfl, hqueue, hresults, rfl, rfl⟩⟩
  unfold finish
  exact Action.bind_of_error (onSession_of_error hadd)

/-- What is done about a statement comes to its end, or fails. -/
theorem finish_cases (text : String) (number : Nat) :
    (∃ definitions texts session, finish text number shell = .ok () { shell with session } ∧
      shell.session.Concludes definitions texts session) ∨
    ∃ fault session, finish text number shell = .error fault { shell with session } ∧
      shell.session.Fails session := by
  rcases Session.add_cases text (some (number : Int)) shell.session with
    ⟨name, body, term, hcut, hterm, -⟩ | ⟨term, hcut, hterm, -⟩ | ⟨fault, hadd⟩
  · exact .inl ⟨_, _, finish_of_admits hqueue hresults hcut hterm number⟩
  · cases hnormal : shell.session.calculus.normalForm term with
    | ok result =>
      exact .inl ⟨_, _, finish_of_normalForm hqueue hresults hcut hterm hnormal number⟩
    | error fault =>
      exact .inr ⟨_, finish_of_no_normalForm hqueue hresults hcut hterm hnormal number⟩
  · exact .inr ⟨fault, finish_of_refused hqueue hresults hadd⟩

end Idle

end Shell

end UntypedLambda
