import UntypedLambda.Proofs.ErrorReport
import UntypedLambda.Proofs.ShellPrompt

/-!
# What a line reports

A line that is typed into a shell prints one error report if what it asks for fails, and none if it
does not. The shell goes on in both cases, with one exception: under a budget below zero a line that
comes to the reduction of a term is a misuse of the reducer, which is reported as internal and
passed on. Only the two commands for leaving stop the shell.
-/

namespace UntypedLambda

/-- The term that a statement has to be evaluated, if it is no definition and can be read. -/
def Session.statementTerm? (s : Session) (text : String) : Option Term :=
  if (Text.cut? ":=" text).isSome then none else (s.read text).toOption

/-- The steps from a text that can be read are told exactly if the term has a normal form. -/
theorem Session.steps_of_read {s : Session} {text : String} {term : Term}
    (h : s.read text = .ok term) :
    (∃ steps form, s.steps text = .ok steps ∧ s.calculus.normalForm term = .ok form) ∨
      ∃ fault, s.steps text = .error fault ∧ s.calculus.normalForm term = .error fault := by
  unfold Session.steps Calculus.normalForm
  rw [h]
  cases hbudget : s.calculus.budgetOr none with
  | error fault => exact .inr ⟨fault, rfl, rfl⟩
  | ok budget =>
    rcases term.trace_cases budget with ⟨trace, htrace, hsame⟩ | ⟨fault, htrace, hsame⟩
    · refine .inl ⟨trace.steps, trace.result, ?_, hsame⟩
      refine except_bind_eq_ok.mpr ⟨term, rfl, except_bind_eq_ok.mpr ⟨budget, rfl, ?_⟩⟩
      exact except_bind_eq_ok.mpr ⟨trace, htrace, rfl⟩
    · refine .inr ⟨fault, ?_, hsame⟩
      refine except_bind_eq_error.mpr (.inr ⟨term, rfl, except_bind_eq_error.mpr (.inr ?_)⟩)
      exact ⟨budget, rfl, except_bind_eq_error.mpr (.inl htrace)⟩

namespace Shell

variable {α : Type} {shell after : Shell} {act : Action Shell α} {reducing : Option Term}
  {fault : Fault}

/-- The term whose reduction a command comes to, if there is one: that of a complete statement, or
of the text whose steps are to be shown. -/
def reducing? (shell : Shell) : Command → Option Term
  | .statement line =>
    if Statement.isOpen (shell.continued line) || (shell.continued line).isEmpty then none
    else shell.session.statementTerm? (shell.continued line)
  | .steps text =>
    if (Text.trimmed text).isEmpty then none else (shell.session.read text).toOption
  | _ => none

/-- What a shell becomes by the work of a command itself, whether or not it fails: at most one name
is bound, the calculus is kept, and no error report is printed. -/
structure Becomes (shell after : Shell) : Prop where
  /-- At most one name is bound. -/
  rebinds : shell.session.definitions.Rebinds after.session.definitions
  /-- The calculus stays. -/
  calculus : after.session.calculus = shell.session.calculus
  /-- No error report is printed. -/
  quiet : Reporter.Printed 0 shell.session.reporter after.session.reporter

/-- What a command that comes to the reduction of a term, or of none, answers. -/
inductive Answers (shell : Shell) (act : Action Shell α) (reducing : Option Term) : Prop where
  /-- It succeeds. The term has a normal form. -/
  | done {a : α} {after : Shell} (result : act shell = .ok a after) (becomes : shell.Becomes after)
      (normal : ∀ term ∈ reducing, ∃ form, shell.session.calculus.normalForm term = .ok form)
  /-- It is refused before there is any term. -/
  | refused {fault : Fault} {after : Shell} (result : act shell = .error fault after)
      (becomes : shell.Becomes after) (refuses : fault.Refuses) (none : reducing = none)
  /-- The reduction fails. -/
  | failed {fault : Fault} {after : Shell} {term : Term} (result : act shell = .error fault after)
      (becomes : shell.Becomes after) (some : reducing = some term)
      (abnormal : shell.session.calculus.normalForm term = .error fault)

/-- Nothing may be done at all. -/
theorem Becomes.refl (shell : Shell) : shell.Becomes shell := ⟨.kept, rfl, .refl _⟩

/-- Counting the line makes no difference. -/
theorem Becomes.of_ready (h : shell.ready.Becomes after) : shell.Becomes after :=
  ⟨h.rebinds, h.calculus, h.quiet⟩

/-- A definition prints a warning at most. -/
theorem becomes_of_concludes {name body : String} {term : Term} {session : Session}
    (hadmits : shell.session.definitions.Admits name body term)
    (hconcludes : shell.session.Concludes
      (shell.session.definitions.put (Text.trimmed name) (shell.session.definitions.expand term))
      (Session.shadowing (Text.trimmed name)) session) : shell.Becomes { shell with session } :=
  ⟨hconcludes.definitions ▸ .bound hadmits, hconcludes.calculus,
    Reporter.printed_of_quiet hconcludes.printed (Reporter.isErrorReport_shadowing _)⟩

/-- A statement that fails prints nothing itself. -/
theorem becomes_of_fails {session : Session} (h : shell.session.Fails session) :
    shell.Becomes { shell with session } :=
  ⟨h.definitions ▸ .kept, h.calculus, Reporter.printed_of_eq h.printed⟩

/-- Texts may be printed that are no error reports. -/
theorem becomes_printed {texts : List String}
    (hquiet : ∀ text ∈ texts, Text.isErrorReport text = false) (shell : Shell) :
    shell.Becomes (shell.printed texts) :=
  ⟨.kept, rfl, Reporter.printed_of_quiet rfl hquiet⟩

/-- More of them may be printed afterwards. -/
theorem Becomes.printed (h : shell.Becomes after) {texts : List String}
    (hquiet : ∀ text ∈ texts, Text.isErrorReport text = false) :
    shell.Becomes (after.printed texts) :=
  ⟨h.rebinds, h.calculus, h.quiet.trans (Reporter.printed_of_quiet rfl hquiet)⟩

/-- A name may be bound, and that be told. -/
theorem becomes_defined {name text : String} {term : Term}
    (h : shell.session.definitions.Admits name text term) (told shown : String) :
    shell.Becomes ((shell.bound (Text.trimmed name) (shell.session.definitions.expand term)).printed
      ["Defined " ++ told ++ " = " ++ shown]) := by
  have hbound :
      shell.Becomes (shell.bound (Text.trimmed name) (shell.session.definitions.expand term)) :=
    ⟨.bound h, rfl, Reporter.printed_of_quiet rfl (Reporter.isErrorReport_shadowing _)⟩
  refine hbound.printed fun text htext => ?_
  obtain rfl := List.mem_singleton.mp htext
  exact Text.isErrorReport_of_head (by simp [String.toList_append])

/-- Without a reduction, it is enough that the command succeeds. -/
theorem Answers.of_ok {a : α} (result : act shell = .ok a after) (becomes : shell.Becomes after) :
    shell.Answers act none :=
  .done result becomes fun _ hnone => absurd hnone (Option.not_mem_none _)

/-- Another value makes no difference. -/
theorem Answers.bind_pure {β : Type} (h : shell.Answers act reducing) (b : β) :
    shell.Answers (act >>= fun _ => pure b) reducing := by
  cases h with
  | done result becomes normal => exact .done (Action.bind_of_ok result) becomes normal
  | refused result becomes refuses none =>
    exact .refused (Action.bind_of_error result) becomes refuses none
  | failed result becomes some abnormal =>
    exact .failed (Action.bind_of_error result) becomes some abnormal

/-- Printing texts that are no error reports succeeds. -/
theorem answers_printLines {texts : List String}
    (hquiet : ∀ text ∈ texts, Text.isErrorReport text = false) (shell : Shell) :
    shell.Answers (printLines texts) none :=
  .of_ok (printLines_eq texts shell) (becomes_printed hquiet shell)

/-- A statement that is worked on answers for its term. -/
theorem answers_finish (hqueue : shell.session.queue = []) (hresults : shell.session.results = [])
    (hprimed : shell.session.definitions.Primed) (text : String) (number : Nat) :
    shell.Answers (finish text number) (shell.session.statementTerm? text) := by
  rcases Session.add_cases text (some (number : Int)) shell.session with
    ⟨name, body, term, hcut, hadmits, -⟩ | ⟨term, hcut, hread, -⟩ | ⟨fault, hadd⟩
  · obtain ⟨session, hok, hconcludes⟩ := finish_of_admits hqueue hresults hcut hadmits number
    have hnone : shell.session.statementTerm? text = none := by
      unfold Session.statementTerm?
      rw [hcut]
      rfl
    exact .done hok (becomes_of_concludes hadmits hconcludes)
      fun term hterm => nomatch hnone.symm.trans hterm
  · have hsome : shell.session.statementTerm? text = some term := by
      unfold Session.statementTerm?
      rw [hcut, hread]
      rfl
    cases hnormal : shell.session.calculus.normalForm term with
    | ok form =>
      obtain ⟨session, hok, hconcludes⟩ :=
        finish_of_normalForm hqueue hresults hcut hread hnormal number
      have hform : form.Primed := by
        obtain ⟨budget, -, hevaluate⟩ := except_bind_eq_ok.mp hnormal
        exact (Session.primed_of_read hprimed hread).evaluate hevaluate
      refine .done hok ⟨hconcludes.definitions ▸ .kept, hconcludes.calculus, ?_⟩
        fun other hother => ?_
      · refine Reporter.printed_of_quiet hconcludes.printed fun text htext => ?_
        obtain rfl := List.mem_singleton.mp htext
        exact Reporter.isErrorReport_display hform
      · obtain rfl : term = other := Option.some.inj (hsome.symm.trans hother)
        exact ⟨form, hnormal⟩
    | error fault =>
      obtain ⟨session, herror, hfails⟩ :=
        finish_of_no_normalForm hqueue hresults hcut hread hnormal number
      exact .failed herror (becomes_of_fails hfails) hsome hnormal
  · obtain ⟨session, herror, hfails⟩ := finish_of_refused hqueue hresults hadd
    have hnone : shell.session.statementTerm? text = none := by
      unfold Session.statementTerm?
      split
      · rfl
      · next hcut =>
        cases hread : shell.session.read text with
        | error _ => rfl
        | ok term =>
          have hadded := Session.add_of_read (Option.not_isSome_iff_eq_none.mp hcut) hread
            (some (number : Int))
          nomatch hadd.symm.trans hadded
    exact .refused herror (becomes_of_fails hfails) ((Session.add_refuses _ _).isKind _ _ _ hadd)
      hnone

/-- A line of a statement answers for the term of the statement that it completes. -/
theorem Clean.answers_takeStatement (h : shell.Clean) (hprimed : shell.session.definitions.Primed)
    (line : String) :
    shell.Answers (takeStatement line) (shell.reducing? (.statement line)) := by
  have heq := takeStatement_eq line shell
  rw [reducing?]
  by_cases hopen : Statement.isOpen (shell.continued line) = true
  · rw [if_pos hopen] at heq
    rw [hopen, Bool.true_or, if_pos rfl]
    exact .of_ok heq ⟨.kept, rfl, .refl _⟩
  rw [if_neg hopen] at heq
  rw [Bool.not_eq_true] at hopen
  by_cases hempty : (shell.continued line).isEmpty = true
  · rw [if_pos hempty] at heq
    rw [hempty, Bool.or_true, if_pos rfl]
    exact .of_ok heq ⟨.kept, rfl, .refl _⟩
  · rw [if_neg hempty] at heq
    rw [hopen, Bool.false_or, if_neg hempty]
    have hqueue : shell.ready.session.queue = [] := h.queue
    have hfinish : shell.ready.Answers (finish (shell.continued line) (shell.lineNumber + 1))
        (shell.session.statementTerm? (shell.continued line)) :=
      answers_finish hqueue h.results hprimed _ _
    cases hfinish with
    | done result becomes normal =>
      exact .done (heq.trans result) becomes.of_ready normal
    | refused result becomes refuses none =>
      exact .refused (heq.trans result) becomes.of_ready refuses none
    | failed result becomes some abnormal =>
      exact .failed (heq.trans result) becomes.of_ready some abnormal

/-- A definition comes to no reduction. -/
theorem answers_takeDefinition (argument : String) (shell : Shell) :
    shell.Answers (takeDefinition argument) none := by
  rcases takeDefinition_cases argument shell with
    ⟨-, hok⟩ | ⟨term, hadmits, hok⟩ | ⟨-, fault, hdefine, herror⟩
  · exact .of_ok hok (becomes_printed (by decide +kernel) shell)
  · exact .of_ok hok (becomes_defined hadmits _ _)
  · exact .refused herror (.refl shell) ((Session.define_refuses _ _).isKind _ _ _ hdefine) rfl

/-- The steps of an evaluation are told and shown behind a heading. -/
theorem takeSteps_eq {argument : String} (h : ¬(Text.trimmed argument).isEmpty = true)
    (shell : Shell) :
    takeSteps argument shell =
      (Action.ofExcept (shell.session.steps argument) >>= fun steps =>
        printLines (Trace.numbered steps)) (shell.printed ["Evaluation steps:"]) := by
  unfold takeSteps
  rw [if_neg h, Action.bind_of_ok (printLines_eq _ shell),
    Action.bind_of_ok (Action.get_eq_ok.mpr ⟨rfl, rfl⟩)]
  rfl

/-- The steps of an evaluation are shown for the term of their text. -/
theorem answers_takeSteps (argument : String) (shell : Shell) :
    shell.Answers (takeSteps argument) (shell.reducing? (.steps argument)) := by
  rw [reducing?]
  by_cases hempty : (Text.trimmed argument).isEmpty = true
  · unfold takeSteps
    rw [if_pos hempty, if_pos hempty]
    exact answers_printLines (by decide +kernel) shell
  rw [if_neg hempty]
  have heq := takeSteps_eq hempty shell
  have hheaded : shell.Becomes (shell.printed ["Evaluation steps:"]) :=
    becomes_printed (by decide +kernel) shell
  have hrefused {fault : Fault} (hsteps : shell.session.steps argument = .error fault) :
      takeSteps argument shell = .error fault (shell.printed ["Evaluation steps:"]) :=
    heq.trans (Action.bind_of_error (Action.ofExcept_of_error hsteps _))
  cases hread : shell.session.read argument with
  | error fault =>
    have hsteps : shell.session.steps argument = .error fault :=
      except_bind_eq_error.mpr (.inl hread)
    exact .refused (hrefused hsteps) hheaded
      ((Session.read_refuses _ _).isKind _ hread) rfl
  | ok term =>
    rcases Session.steps_of_read hread with ⟨steps, form, hsteps, hnormal⟩ | ⟨fault, hsteps, hfails⟩
    · refine .done (heq.trans ((Action.bind_of_ok (Action.ofExcept_of_ok hsteps _)).trans
        (printLines_eq _ _))) (hheaded.printed fun text htext => ?_) fun other hother => ?_
      · obtain ⟨index, hindex, rfl⟩ := List.mem_mapIdx.mp htext
        exact Text.isErrorReport_of_head (by simp [String.toList_append])
      · obtain rfl : term = other := Option.some.inj hother
        exact ⟨form, hnormal⟩
    · exact .failed (hrefused hsteps) hheaded rfl hfails

/-- Every command answers for the term whose reduction it comes to. -/
theorem Clean.answers_perform (h : shell.Clean) (hprimed : shell.session.definitions.Primed)
    (command : Command) : shell.Answers (perform command) (shell.reducing? command) := by
  cases command with
  | blank => exact .of_ok rfl (.refl shell)
  | statement line => exact (h.answers_takeStatement hprimed line).bind_pure _
  | define text => exact (answers_takeDefinition text shell).bind_pure _
  | list =>
    have hquiet : ∀ text ∈ "Defined terms:" :: shell.session.definitions.entries.map
        (fun entry => "  " ++ entry.1 ++ " = " ++ entry.2.render),
        Text.isErrorReport text = false := by
      refine List.forall_mem_cons.mpr ⟨by decide +kernel, fun text htext => ?_⟩
      obtain ⟨entry, -, rfl⟩ := List.mem_map.mp htext
      exact Text.isErrorReport_of_head (by simp [String.toList_append])
    exact .of_ok rfl (becomes_printed hquiet shell)
  | steps text => exact (answers_takeSteps text shell).bind_pure _
  | clear =>
    have hcleared : shell.Becomes { shell with session :=
        { shell.session with definitions := Prelude.table } } := ⟨.cleared, rfl, .refl _⟩
    have hclear : onSession Session.clear shell = .ok () { shell with session :=
        { shell.session with definitions := Prelude.table } } := rfl
    rw [perform]
    exact .of_ok ((Action.bind_of_ok hclear).trans (Action.bind_of_ok (printLines_eq _ _)))
      (hcleared.printed (by decide +kernel))
  | help =>
    have hquiet : ∀ text ∈ [helpText], Text.isErrorReport text = false := by
      have hhead : helpText.toList.head? = some 'W' := by
        unfold helpText
        simp only [String.toList_append, List.append_assoc, -String.reduceAppend]
        rw [List.head?_append]
        rfl
      exact List.forall_mem_singleton.mpr (Text.isErrorReport_of_head (by simp [hhead]))
    exact (answers_printLines hquiet shell).bind_pure _
  | endOfInput => exact (answers_printLines (by decide +kernel) shell).bind_pure _
  | quit => exact .of_ok rfl (.refl shell)
  | unknown line =>
    have hquiet : ∀ text ∈
        ["Unknown command: ':" ++ line ++ "'. Type ':help' for a list of commands."],
        Text.isErrorReport text = false :=
      List.forall_mem_singleton.mpr (Text.isErrorReport_of_head (by simp [String.toList_append]))
    exact (answers_printLines hquiet shell).bind_pure _

/-- Only the commands for leaving stop the shell. -/
theorem ne_stop_of_perform {command : Command} {verdict : Verdict}
    (hquit : command ≠ .quit) (hend : command ≠ .endOfInput)
    (h : perform command shell = .ok verdict after) : verdict ≠ .stop := by
  cases command with
  | quit => exact absurd rfl hquit
  | endOfInput => exact absurd rfl hend
  | blank =>
    obtain ⟨rfl, -⟩ := Action.pure_eq_ok.mp h
    nofun
  | statement _ | define _ | steps _ | help | unknown _ =>
    obtain ⟨_, _, -, hlast⟩ := Action.bind_eq_ok.mp h
    obtain ⟨rfl, -⟩ := Action.pure_eq_ok.mp hlast
    nofun
  | list | clear =>
    obtain ⟨_, _, -, hrest⟩ := Action.bind_eq_ok.mp h
    obtain ⟨_, _, -, hlast⟩ := Action.bind_eq_ok.mp hrest
    obtain ⟨rfl, -⟩ := Action.pure_eq_ok.mp hlast
    nofun

/-- A line whose fault can be dealt with leaves what dealing with it leaves. -/
theorem runLine_of_settled {line : String} {failed : Shell} {reporter : Reporter}
    (h : perform (Command.ofLine line) shell = .error fault failed)
    (hsettle : Reporter.settle fault failed.session.reporter = .ok () reporter) :
    runLine line shell =
      .ok .proceed { failed with session := { failed.session with reporter } } := by
  have hreporting := onSession_of_ok (Session.reporting_of_ok hsettle)
  have hrecover : (perform (Command.ofLine line)).recover
      (fun fault => reporting (Reporter.settle fault)) shell =
        .ok none { failed with session := { failed.session with reporter } } := by
    unfold Action.recover
    rw [h]
    dsimp only
    unfold reporting
    rw [hreporting]
  exact Action.bind_of_ok hrecover

/-- A line whose fault is passed on ends with the fault. -/
theorem runLine_of_passed {line : String} {failed : Shell} {reporter : Reporter} {passed : Fault}
    (h : perform (Command.ofLine line) shell = .error fault failed)
    (hsettle : Reporter.settle fault failed.session.reporter = .error passed reporter) :
    runLine line shell =
      .error passed { failed with session := { failed.session with reporter } } := by
  have hreporting := onSession_of_error (Session.reporting_of_error hsettle)
  have hrecover : (perform (Command.ofLine line)).recover
      (fun fault => reporting (Reporter.settle fault)) shell =
        .error passed { failed with session := { failed.session with reporter } } := by
    unfold Action.recover
    rw [h]
    dsimp only
    unfold reporting
    rw [hreporting]
  exact Action.bind_of_error hrecover

/-- A line that is refused prints one error report, and changes nothing else on top of its work. -/
theorem runLine_of_refuses {line : String} {failed : Shell}
    (h : perform (Command.ofLine line) shell = .error fault failed) (becomes : shell.Becomes failed)
    (hrefuses : fault.Refuses) (hfatal : failed.session.reporter.fatal = false) :
    ∃ reporter, runLine line shell =
        .ok .proceed { failed with session := { failed.session with reporter } } ∧
      Reporter.Printed 1 shell.session.reporter reporter := by
  obtain ⟨reporter, hsettle, hprinted⟩ := Reporter.settle_of_refuses hrefuses hfatal
  exact ⟨reporter, runLine_of_settled h hsettle, becomes.quiet.trans hprinted⟩

/-- What a line reports, and whether the shell goes on after it, under a budget. -/
structure Reports (budget : Int) (shell : Shell) (line : String) : Prop where
  /-- One error report is printed if what the line asks for fails, and none if it succeeds. -/
  reported : Reporter.Printed
    (if (Action.outcome (perform (Command.ofLine line) shell)).isOk then 0 else 1)
    shell.session.reporter (Action.state (runLine line shell)).session.reporter
  /-- Without a reduction under a budget below zero, the shell goes on. -/
  goesOn : ¬(budget < 0 ∧ (shell.reducing? (Command.ofLine line)).isSome) →
    ∃ verdict, Action.outcome (runLine line shell) = .ok verdict ∧ verdict ≠ .stop
  /-- A reduction under a budget below zero fails, and its defect is passed on. -/
  passesOn : budget < 0 ∧ (shell.reducing? (Command.ofLine line)).isSome →
    Action.outcome (perform (Command.ofLine line) shell) =
        .error (.defect (.negativeBudget budget)) ∧
      Action.outcome (runLine line shell) = .error (.defect (.negativeBudget budget))

/-- A line that is refused reports that, and the shell goes on. -/
theorem reports_of_refuses {budget : Int} {line : String} {failed : Shell}
    (h : perform (Command.ofLine line) shell = .error fault failed) (becomes : shell.Becomes failed)
    (hrefuses : fault.Refuses) (hfatal : failed.session.reporter.fatal = false)
    (hproper : ¬(budget < 0 ∧ (shell.reducing? (Command.ofLine line)).isSome)) :
    shell.Reports budget line := by
  obtain ⟨reporter, hrun, hprinted⟩ := runLine_of_refuses h becomes hrefuses hfatal
  refine ⟨?_, fun _ => ?_, fun hmisused => absurd hmisused hproper⟩
  · rw [h, hrun]
    exact hprinted
  · rw [hrun]
    exact ⟨_, rfl, nofun⟩

/-- A defect whose class and text hold no braces is reported, and passed on. -/
theorem reports_of_negativeBudget {budget : Int} {line : String} {failed : Shell}
    (h : perform (Command.ofLine line) shell =
      .error (.defect (.negativeBudget budget)) failed)
    (becomes : shell.Becomes failed) (hfatal : failed.session.reporter.fatal = false)
    (hmisused : budget < 0 ∧ (shell.reducing? (Command.ofLine line)).isSome) :
    shell.Reports budget line := by
  obtain ⟨hkind, hmessage⟩ := negativeBudget_presentable budget
  obtain ⟨reporter, hsettle, hprinted⟩ := Reporter.settle_of_plain hkind hmessage hfatal
  have hrun := runLine_of_passed h hsettle
  refine ⟨?_, fun hproper => absurd hmisused hproper, fun _ => ?_⟩
  · rw [h, hrun]
    exact becomes.quiet.trans hprinted
  · rw [h, hrun]
    exact ⟨rfl, rfl⟩

/-- Every line but those for leaving reports its own failure, and nothing else. -/
theorem Clean.reports (h : shell.Clean) (hprimed : shell.session.definitions.Primed) {budget : Int}
    (hbudget : shell.session.calculus = ⟨some budget⟩) {line : String}
    (hquit : Command.ofLine line ≠ .quit) (hend : Command.ofLine line ≠ .endOfInput) :
    shell.Reports budget line := by
  have hleaves := h.leaves_perform (Command.ofLine line)
  have hnormal (term : Term) :
      shell.session.calculus.normalForm term = term.evaluate budget := by
    rw [hbudget]
    rfl
  cases h.answers_perform hprimed (Command.ofLine line) with
  | done result becomes normal =>
    have hrun := runLine_of_ok result
    have hproper : ¬(budget < 0 ∧ (shell.reducing? (Command.ofLine line)).isSome) := by
      rintro ⟨hnegative, hsome⟩
      obtain ⟨term, hterm⟩ := Option.isSome_iff_exists.mp hsome
      obtain ⟨form, hform⟩ := normal term hterm
      rw [hnormal, Term.evaluate_of_neg term hnegative] at hform
      nomatch hform
    refine ⟨?_, fun _ => ?_, fun hmisused => absurd hmisused hproper⟩
    · rw [result, hrun]
      exact becomes.quiet
    · rw [hrun]
      exact ⟨_, rfl, ne_stop_of_perform hquit hend result⟩
  | refused result becomes refuses none =>
    have hfatal := (hleaves.failed _ _ result).1.fatal
    exact reports_of_refuses result becomes refuses hfatal fun hmisused => by
      rw [none] at hmisused
      nomatch hmisused.2
  | @failed fault failed term result becomes some abnormal =>
    have hfatal := (hleaves.failed _ _ result).1.fatal
    rw [hnormal] at abnormal
    obtain rfl := Term.eq_budgetFault abnormal
    rcases Term.budgetFault_cases budget with ⟨hnegative, hdefect⟩ | ⟨hnonneg, hranOut⟩
    · rw [hdefect] at result
      exact reports_of_negativeBudget result becomes hfatal ⟨hnegative, by rw [some]; rfl⟩
    · exact reports_of_refuses result becomes (hranOut.refuses nofun) hfatal fun hmisused =>
        absurd hmisused.1 (Int.not_lt.mpr hnonneg)

end Shell

end UntypedLambda
