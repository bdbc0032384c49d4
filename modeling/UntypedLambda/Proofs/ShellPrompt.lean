import UntypedLambda.Proofs.Refusal
import UntypedLambda.Proofs.ShellWork

/-!
# The shell at its prompt

Between two lines a shell is clean: nothing waits to be evaluated or shown, no line is noted, errors
are no reason to leave, and the prompt tells whether a statement is being continued. A line that
fails may leave its own line noted, but nothing else, and the reporter forgets it when it deals with
the fault. So the shell is clean after every line, and a line that fails defines nothing.
-/

namespace UntypedLambda.Shell

variable {shell : Shell}

/-- What holds of a shell after a line, whether or not it failed. -/
structure Tidy (shell : Shell) : Prop where
  /-- No term waits for its evaluation. -/
  queue : shell.session.queue = []
  /-- No result waits to be shown. -/
  results : shell.session.results = []
  /-- Errors are no reason to leave. -/
  fatal : shell.session.reporter.fatal = false
  /-- The prompt tells whether there is a statement with open parentheses to be continued. -/
  prompted : shell.held = "" ∧ shell.prompt = "λ> " ∨
    Text.count ')' shell.held < Text.count '(' shell.held ∧ shell.prompt = ". "

/-- What holds of a shell at its prompt. -/
structure Clean (shell : Shell) : Prop extends Tidy shell where
  /-- No line is noted for any file. -/
  lines : ∀ entry ∈ shell.session.reporter.traceback.entries, entry.2 = .none

/-- An action that leaves a shell clean if it succeeds, and leaves it tidy and with the same
definitions if it fails. -/
structure Leaves {α : Type} (shell : Shell) (act : Action Shell α) : Prop where
  /-- After a success the shell is clean. -/
  clean : ∀ a after, act shell = .ok a after → after.Clean
  /-- After a fault the shell is tidy, and its definitions are the same. -/
  failed : ∀ fault after, act shell = .error fault after →
    after.Tidy ∧ after.session.definitions = shell.session.definitions

section Leaves

variable {α β : Type} {act : Action Shell α} {after : Shell}

/-- A success leaves a clean shell. -/
theorem Leaves.of_ok {a : α} (h : act shell = .ok a after) (hclean : after.Clean) :
    shell.Leaves act := by
  constructor
  · intro b other hother
    rw [h] at hother
    cases hother
    exact hclean
  · intro fault other hother
    nomatch h.symm.trans hother

/-- A fault leaves a tidy shell with the same definitions. -/
theorem Leaves.of_error {fault : Fault} (h : act shell = .error fault after) (htidy : after.Tidy)
    (hsame : after.session.definitions = shell.session.definitions) : shell.Leaves act := by
  constructor
  · intro b other hother
    nomatch h.symm.trans hother
  · intro reported other hother
    rw [h] at hother
    cases hother
    exact ⟨htidy, hsame⟩

/-- What is done after a success counts, if the success changed no definitions. -/
theorem Leaves.bind_of_ok {first : Action Shell β} {next : β → Action Shell α} {b : β}
    (h : first shell = .ok b after) (hsame : after.session.definitions = shell.session.definitions)
    (hnext : after.Leaves (next b)) : shell.Leaves (first >>= next) := by
  constructor
  · intro a last hlast
    rw [Action.bind_of_ok h] at hlast
    exact hnext.clean a last hlast
  · intro fault last hlast
    rw [Action.bind_of_ok h] at hlast
    obtain ⟨htidy, hkept⟩ := hnext.failed fault last hlast
    exact ⟨htidy, hkept.trans hsame⟩

/-- Another value makes no difference. -/
theorem Leaves.bind_pure (h : shell.Leaves act) (b : β) :
    shell.Leaves (act >>= fun _ => pure b) := by
  cases hact : act shell with
  | ok a after => exact .of_ok (Action.bind_of_ok hact) (h.clean a after hact)
  | error fault after =>
    obtain ⟨htidy, hsame⟩ := h.failed fault after hact
    exact .of_error (Action.bind_of_error hact) htidy hsame

end Leaves

/-- Printing leaves a clean shell. -/
theorem Clean.printed (h : shell.Clean) (texts : List String) : (shell.printed texts).Clean :=
  ⟨⟨h.queue, h.results, h.fatal, h.prompted⟩, h.lines⟩

/-- Printing leaves a clean shell. -/
theorem Clean.leaves_printLines (h : shell.Clean) (texts : List String) :
    shell.Leaves (printLines texts) :=
  .of_ok (printLines_eq texts shell) (h.printed texts)

/-- Work that came to its end leaves a clean shell. -/
theorem Clean.concluded (h : shell.Clean) {definitions : Definitions} {texts : List String}
    {session : Session} (hconcludes : shell.session.Concludes definitions texts session) :
    { shell with session }.Clean := by
  refine ⟨⟨hconcludes.queue, hconcludes.results, hconcludes.fatal.trans h.fatal, h.prompted⟩, ?_⟩
  intro ⟨path, origin⟩ hentry
  rw [hconcludes.traceback, Table.mem_put] at hentry
  rcases hentry with ⟨-, hnone⟩ | ⟨-, hbefore⟩
  · exact hnone
  · exact h.lines _ hbefore

/-- A line of a statement leaves a clean shell, or a tidy one. -/
theorem Clean.leaves_takeStatement (h : shell.Clean) (line : String) :
    shell.Leaves (takeStatement line) := by
  have heq := takeStatement_eq line shell
  by_cases hopen : Statement.isOpen (shell.continued line) = true
  · rw [if_pos hopen] at heq
    have hmore := of_decide_eq_true hopen
    exact .of_ok heq ⟨⟨h.queue, h.results, h.fatal, .inr ⟨hmore, rfl⟩⟩, h.lines⟩
  have hready : shell.ready.Clean := ⟨⟨h.queue, h.results, h.fatal, .inl ⟨rfl, rfl⟩⟩, h.lines⟩
  rw [if_neg hopen] at heq
  by_cases hempty : (shell.continued line).isEmpty = true
  · rw [if_pos hempty] at heq
    exact .of_ok heq hready
  rw [if_neg hempty] at heq
  rcases finish_cases hready.queue hready.results (shell.continued line) (shell.lineNumber + 1) with
    ⟨definitions, texts, session, hok, hconcludes⟩ | ⟨fault, session, herror, hfails⟩
  · exact .of_ok (heq.trans hok) (hready.concluded hconcludes)
  · have htidy : ({ shell.ready with session } : Shell).Tidy :=
      ⟨hfails.queue, hfails.results, hfails.fatal.trans h.fatal, .inl ⟨rfl, rfl⟩⟩
    exact .of_error (heq.trans herror) htidy hfails.definitions

/-- A definition leaves a clean shell, or a tidy one. -/
theorem Clean.leaves_takeDefinition (h : shell.Clean) (argument : String) :
    shell.Leaves (takeDefinition argument) := by
  rcases takeDefinition_cases argument shell with
    ⟨-, hok⟩ | ⟨term, -, hok⟩ | ⟨-, fault, -, herror⟩
  · exact .of_ok hok (h.printed _)
  · exact .of_ok hok ⟨⟨h.queue, h.results, h.fatal, h.prompted⟩, h.lines⟩
  · exact .of_error herror h.toTidy rfl

/-- The steps of an evaluation leave a clean shell, or a tidy one. -/
theorem Clean.leaves_takeSteps (h : shell.Clean) (argument : String) :
    shell.Leaves (takeSteps argument) := by
  unfold takeSteps
  split
  · exact h.leaves_printLines _
  have hheaded : (shell.printed ["Evaluation steps:"]).Clean := h.printed _
  refine .bind_of_ok (printLines_eq _ shell) rfl ?_
  refine .bind_of_ok (Action.get_eq_ok.mpr ⟨rfl, rfl⟩) rfl ?_
  cases hsteps : shell.session.steps argument with
  | ok steps => exact .bind_of_ok (Action.ofExcept_of_ok hsteps _) rfl (hheaded.leaves_printLines _)
  | error fault =>
    exact .of_error (Action.bind_of_error (Action.ofExcept_of_error hsteps _)) hheaded.toTidy rfl

/-- Whatever is asked of a clean shell leaves a clean shell, or a tidy one. -/
theorem Clean.leaves_perform (h : shell.Clean) (command : Command) :
    shell.Leaves (perform command) := by
  cases command with
  | blank => exact .of_ok rfl h
  | statement text =>
    rw [perform]
    exact (h.leaves_takeStatement text).bind_pure _
  | define text =>
    rw [perform]
    exact (h.leaves_takeDefinition text).bind_pure _
  | list =>
    rw [perform]
    refine .bind_of_ok (Action.get_eq_ok.mpr ⟨rfl, rfl⟩) rfl ?_
    exact (h.leaves_printLines _).bind_pure _
  | steps text =>
    rw [perform]
    exact (h.leaves_takeSteps text).bind_pure _
  | clear =>
    rw [perform]
    let session := { shell.session with definitions := Prelude.table }
    have hclear : onSession Session.clear shell = .ok () { shell with session } := rfl
    have hcleared : { shell with session }.Clean :=
      ⟨⟨h.queue, h.results, h.fatal, h.prompted⟩, h.lines⟩
    exact .of_ok ((Action.bind_of_ok hclear).trans (Action.bind_of_ok (printLines_eq _ _)))
      (hcleared.printed _)
  | help =>
    rw [perform]
    exact (h.leaves_printLines _).bind_pure _
  | endOfInput =>
    rw [perform]
    exact (h.leaves_printLines _).bind_pure _
  | quit => exact .of_ok rfl h
  | unknown line =>
    rw [perform]
    exact (h.leaves_printLines _).bind_pure _

/-- What is printed about a fault makes a tidy shell clean. -/
theorem state_runLine_of_error {line : String} {fault : Fault} {after : Shell}
    (h : perform (Command.ofLine line) shell = .error fault after)
    (hfatal : after.session.reporter.fatal = false) :
    ∃ texts, Action.state (runLine line shell) =
      { after with session := { after.session with
          reporter := (after.session.reporter.printLines texts).forgetLines } } := by
  have hpresentable : fault.Presentable := (perform_presented _).isKind shell fault after h
  obtain ⟨texts, hsettled⟩ := Reporter.state_settle hpresentable hfatal
  refine ⟨texts, ?_⟩
  unfold runLine
  rw [Action.state_bind_pure, Action.state_recover_of_error h]
  unfold reporting onSession Session.reporting
  rw [Action.state_onPart, Action.state_onPart, hsettled]

/-- A line that succeeds leaves what it asks for. -/
theorem runLine_of_ok {line : String} {verdict : Verdict} {after : Shell}
    (h : perform (Command.ofLine line) shell = .ok verdict after) :
    runLine line shell = .ok verdict after := by
  have hrecovered : (perform (Command.ofLine line)).recover
      (fun fault => reporting (Reporter.settle fault)) shell = .ok (some verdict) after := by
    unfold Action.recover
    rw [h]
  exact Action.bind_of_ok hrecovered

/-- A clean shell is clean after the next line, and a line that fails defines nothing. -/
theorem Clean.runLine (h : shell.Clean) (line : String) :
    (Action.state (runLine line shell)).Clean ∧
      ∀ fault after, perform (Command.ofLine line) shell = .error fault after →
        (Action.state (Shell.runLine line shell)).session.definitions =
          shell.session.definitions := by
  have hleaves := h.leaves_perform (Command.ofLine line)
  cases hperform : perform (Command.ofLine line) shell with
  | ok verdict after =>
    rw [runLine_of_ok hperform]
    refine ⟨hleaves.clean verdict after hperform, fun fault failed hfault => ?_⟩
    cases hfault
  | error fault after =>
    obtain ⟨htidy, hsame⟩ := hleaves.failed fault after hperform
    obtain ⟨texts, hstate⟩ := state_runLine_of_error hperform htidy.fatal
    rw [hstate]
    -- Dealing with the fault changes the reporter only, and leaves no line with it.
    refine ⟨⟨⟨htidy.queue, htidy.results, htidy.fatal, htidy.prompted⟩, ?_⟩, fun _ _ _ => hsame⟩
    intro entry hentry
    obtain ⟨before, -, rfl⟩ := List.mem_map.mp hentry
    rfl

/-- A clean shell is clean after the next typed line. -/
theorem Clean.takeLine (h : shell.Clean) (line : String) :
    (Action.state (takeLine line shell)).Clean :=
  (h.runLine (Command.route line)).1

/-- The shell with its prompt shown. -/
def asking (shell : Shell) : Shell :=
  { shell with session := { shell.session with reporter := { shell.session.reporter with
      printed := shell.session.reporter.printed ++ [.prompt shell.prompt] } } }

/-- The prompt is shown without fail. -/
theorem showPrompt_eq (shell : Shell) : showPrompt shell = .ok () shell.asking := rfl

/-- Showing the prompt leaves a clean shell. -/
theorem Clean.asking (h : shell.Clean) : shell.asking.Clean :=
  ⟨⟨h.queue, h.results, h.fatal, h.prompted⟩, h.lines⟩

/-- A conversation leaves a clean shell, however it ends. -/
theorem Clean.converse (h : shell.Clean) (lines : List String) :
    (Action.state (converse lines shell)).Clean := by
  induction lines generalizing shell with
  | nil =>
    unfold Shell.converse
    rw [Action.bind_of_ok (showPrompt_eq shell), Action.state_bind_pure]
    exact (h.asking.runLine "EOF").1
  | cons line lines ih =>
    have hnext := h.asking.takeLine line
    unfold Shell.converse
    rw [Action.bind_of_ok (showPrompt_eq shell)]
    cases htake : Shell.takeLine line shell.asking with
    | error fault after =>
      rw [htake] at hnext
      rw [Action.bind_of_error htake]
      exact hnext
    | ok verdict after =>
      rw [htake] at hnext
      rw [Action.bind_of_ok htake]
      split
      · exact ih hnext
      · exact hnext

/-- The shell after some lines, one after the other. -/
def afterLines (shell : Shell) (lines : List String) : Shell :=
  lines.foldl (fun shell line => Action.state (takeLine line shell)) shell

/-- A clean shell is clean after any lines. -/
theorem Clean.afterLines (h : shell.Clean) (lines : List String) :
    (shell.afterLines lines).Clean := by
  induction lines generalizing shell with
  | nil => exact h
  | cons line lines ih => exact ih (h.takeLine line)

/-- A shell that has not been typed into is clean. -/
theorem clean_start (calculus : Calculus) (fatal : Bool) :
    (start (.start Session.inputPath calculus true (.start fatal))).Clean := by
  refine ⟨⟨rfl, rfl, rfl, .inl ⟨rfl, rfl⟩⟩, fun entry hentry => ?_⟩
  obtain rfl := List.mem_singleton.mp hentry
  rfl

/-- After any lines that are typed into a fresh shell, the shell is clean, and so it is after a
whole conversation of these lines; and if the next line fails, the definitions are as they were
before it. -/
theorem prompt_clean (calculus : Calculus) (fatal : Bool) (lines : List String) :
    let fresh := start (.start Session.inputPath calculus true (.start fatal))
    let shell := fresh.afterLines lines
    shell.Clean ∧ (Action.state (converse lines fresh)).Clean ∧
      ∀ line fault after, perform (Command.ofLine (Command.route line)) shell = .error fault after →
        (Action.state (takeLine line shell)).session.definitions = shell.session.definitions := by
  intro fresh shell
  have hfresh : fresh.Clean := clean_start calculus fatal
  have hclean : shell.Clean := hfresh.afterLines lines
  exact ⟨hclean, hfresh.converse lines, fun line => (hclean.runLine (Command.route line)).2⟩

/-- A definition, and a statement that is left open and then closed behind a character that starts
no token. -/
theorem prompt_clean_refused :
    let shell := (start (.start Session.inputPath default true (.start true))).afterLines
      [":def two SUCC 1", "(two"]
    shell.held = "(two" ∧ shell.Clean ∧ "two" ∈ shell.session.definitions.names ∧
      ∃ fault after,
        perform (Command.ofLine (Command.route "$)")) shell = .error fault after ∧
        (Action.state (takeLine "$)" shell)).session.definitions = shell.session.definitions := by
  intro shell
  obtain ⟨hclean, -, hfails⟩ := prompt_clean default true [":def two SUCC 1", "(two"]
  have hheld : shell.held = "(two" := by decide +kernel
  have hbound : "two" ∈ shell.session.definitions.names := by decide +kernel
  have hrefused : (Action.outcome
      (perform (Command.ofLine (Command.route "$)")) shell)).toOption = none := by decide +kernel
  cases hperform : perform (Command.ofLine (Command.route "$)")) shell with
  | ok verdict after =>
    rw [hperform] at hrefused
    nomatch hrefused
  | error fault after =>
    exact ⟨hheld, hclean, hbound, fault, after, rfl, hfails "$)" fault after hperform⟩

end UntypedLambda.Shell
