import UntypedLambda.CommandLine.Program
import UntypedLambda.Proofs.Balance
import UntypedLambda.Proofs.ShellPrompt
import UntypedLambda.Proofs.TypedLine

/-!
# A file and its lines, typed

A session reads all statements of a file before it evaluates any of them; a shell is given the same
lines one by one and evaluates each statement at once. Both come to the same, since an evaluation
binds no names and a definition evaluates nothing: working on the statements in order is told by a
relation that knows nothing of lines, queues and prompts, and both keep to it. A statement that is
left open at the end of a file is refused, so the shell never ends in the middle of one.
-/

namespace UntypedLambda

/-- What comes of a statement. -/
inductive Effect where
  /-- A name is bound. -/
  | bound (name : String)
  /-- A term has a normal form. -/
  | normal (result : Term)
  deriving DecidableEq

namespace Effect

/-- The warnings that are printed. -/
def warnings : Effect → List String
  | bound name => Session.shadowing name
  | normal _ => []

/-- All that a shell prints: warnings, and results as they are shown. -/
def texts : Effect → List String
  | bound name => Session.shadowing name
  | normal result => [result.display]

/-- The normal form, if there is one. -/
def result? : Effect → Option Term
  | bound _ => none
  | normal result => some result

end Effect

/-- Statements are worked on in order, from the first definitions to the last, with these
effects. -/
inductive Works (calculus : Calculus) :
    Definitions → List String → List Effect → Definitions → Prop where
  /-- There are no statements. -/
  | done (definitions : Definitions) : Works calculus definitions [] [] definitions
  /-- A definition passes the checks. -/
  | bind {definitions last : Definitions} {text name body : String} {term : Term}
      {texts : List String} {effects : List Effect}
      (hcut : Text.cut? ":=" text = some (name, body)) (h : definitions.Admits name body term)
      (rest : Works calculus (definitions.put (Text.trimmed name) (definitions.expand term)) texts
        effects last) :
      Works calculus definitions (text :: texts) (.bound (Text.trimmed name) :: effects) last
  /-- A term has a normal form. -/
  | evaluate {definitions last : Definitions} {text : String} {term result : Term}
      {texts : List String} {effects : List Effect} (hcut : Text.cut? ":=" text = none)
      (hread : (Session.readLiterals text).map definitions.expand = .ok term)
      (hnormal : calculus.normalForm term = .ok result)
      (rest : Works calculus definitions texts effects last) :
      Works calculus definitions (text :: texts) (.normal result :: effects) last

/-- A statement that is worked on closes what it opens. -/
theorem Works.isOpen_head {calculus : Calculus} {definitions last : Definitions} {text : String}
    {texts : List String} {effects : List Effect}
    (h : Works calculus definitions (text :: texts) effects last) :
    Statement.isOpen text = false := by
  cases h with
  | bind hcut hadmits _ => exact Session.isOpen_of_admits hcut hadmits
  | evaluate _ hread _ _ => exact Session.isOpen_of_read hread

namespace Session

/-- A run evaluates all terms in the queue, and changes nothing else that counts. -/
theorem runQueue_eq_ok {traced : Bool} {items : List Queued} {s t : Session}
    (h : runQueue traced items s = .ok () t) :
    ∃ results, List.Forall₂ (fun item result => s.calculus.normalForm item.term = .ok result)
        items results ∧
      t.results = s.results ++ results ∧ t.definitions = s.definitions ∧
        t.reporter.printed = s.reporter.printed := by
  induction items generalizing s with
  | nil =>
    obtain ⟨-, rfl⟩ := Action.pure_eq_ok.mp h
    exact ⟨[], .nil, (List.append_nil _).symm, rfl, rfl⟩
  | cons item items ih =>
    cases hnormal : s.calculus.normalForm item.term with
    | error fault =>
      rw [runQueue_of_error hnormal] at h
      nomatch h
    | ok result =>
      obtain ⟨added, -, hrest⟩ := runQueue_of_normalForm hnormal traced items
      rw [hrest] at h
      obtain ⟨results, hall, hresults, hdefinitions, hprinted⟩ := ih h
      refine ⟨result :: results, .cons hnormal hall, ?_, hdefinitions, hprinted⟩
      rw [hresults]
      exact List.append_assoc _ _ _

/-- Once all statements of a file have been read, the terms among them wait; with their normal
forms, the statements have been worked on. -/
theorem addAll_eq_ok {statements : List Statement} {s t : Session}
    (h : addAll statements s = .ok () t) :
    ∃ items, t.queue = s.queue ++ items ∧ t.results = s.results ∧ t.calculus = s.calculus ∧
      ∀ results, List.Forall₂ (fun item result => s.calculus.normalForm item.term = .ok result)
          items results →
        ∃ effects, Works s.calculus s.definitions (statements.map Statement.text) effects
            t.definitions ∧
          effects.filterMap Effect.result? = results ∧
          t.reporter.printed =
            s.reporter.printed ++ (effects.flatMap Effect.warnings).map .line := by
  -- Nothing is evaluated while statements are read, so the normal forms are a premise of the
  -- conclusion: they are only known once the queue has been run.
  induction statements generalizing s with
  | nil =>
    obtain ⟨-, rfl⟩ := Action.pure_eq_ok.mp h
    refine ⟨[], (List.append_nil _).symm, rfl, rfl, fun results hall => ?_⟩
    cases hall
    exact ⟨[], .done _, rfl, (List.append_nil _).symm⟩
  | cons statement statements ih =>
    unfold addAll at h
    rcases add_cases statement.text (some (statement.line : Int)) s with
      ⟨name, body, term, hcut, hterm, hadd⟩ | ⟨term, hcut, hread, hadd⟩ | ⟨fault, hadd⟩
    · rw [Action.bind_of_ok hadd] at h
      obtain ⟨items, hqueue, hresults, hcalculus, hworks⟩ := ih h
      refine ⟨items, hqueue, hresults, hcalculus, fun results hall => ?_⟩
      obtain ⟨effects, hrest, hshown, hprinted⟩ := hworks results hall
      refine ⟨.bound (Text.trimmed name) :: effects, .bind hcut hterm hrest, hshown, ?_⟩
      rw [hprinted, List.flatMap_cons, List.map_append, ← List.append_assoc]
      rfl
    · rw [Action.bind_of_ok hadd] at h
      obtain ⟨items, hqueue, hresults, hcalculus, hworks⟩ := ih h
      refine ⟨⟨some (statement.line : Int), statement.text, term⟩ :: items, ?_, hresults,
        hcalculus, fun results hall => ?_⟩
      · rw [hqueue]
        exact List.append_assoc _ _ _
      · cases hall with
        | @cons _ result _ others hnormal hothers =>
          obtain ⟨effects, hrest, hshown, hprinted⟩ := hworks others hothers
          exact ⟨.normal result :: effects, .evaluate hcut hread hnormal hrest,
            congrArg (result :: ·) hshown, hprinted⟩
    · rw [Action.bind_of_error hadd] at h
      nomatch h

end Session

namespace Shell

/-- A shell takes lines, none of which fails or stops it, and they lead to another shell. -/
inductive Takes : Shell → List String → Shell → Prop where
  /-- There are no lines. -/
  | nothing (shell : Shell) : Takes shell [] shell
  /-- What the first line asks for is done, and then what the others ask for. -/
  | line {shell next last : Shell} {line : String} {lines : List String}
      (h : perform (Command.ofLine (Command.route line)) shell = .ok .proceed next)
      (rest : Takes next lines last) : Takes shell (line :: lines) last

/-- A shell that has not been told to wait, with the statement that it holds. -/
structure Holds (shell : Shell) (held : Option Statement) : Prop where
  /-- Nothing is queued. -/
  queue : shell.session.queue = []
  /-- There are no results. -/
  results : shell.session.results = []
  /-- What is held is the statement, if there is one. -/
  held_eq : shell.held = (held.map Statement.text).getD ""
  /-- The statement opens more parentheses than it closes. -/
  isOpen : ∀ statement ∈ held, Statement.isOpen statement.text = true

variable {shell next : Shell} {line : String}

/-- A line without a colon is taken as a line of a statement. -/
theorem perform_line (hplain : line.toList.head? ≠ some ':')
    (h : takeStatement (Text.trimmed line) shell = .ok () next) :
    perform (Command.ofLine (Command.route line)) shell = .ok .proceed next := by
  rw [Command.ofLine_route hplain, perform]
  exact Action.bind_of_ok h

/-- Trimming a line makes no difference to the statement. -/
theorem continued_trimmed (shell : Shell) (line : String) :
    shell.continued (Text.trimmed line) = shell.continued line := by
  unfold continued
  rw [Statement.clean_trimmed]

/-- A line goes on with the statement that the shell holds, in a file as in the shell. -/
theorem Holds.segmentFrom_cons {held : Option Statement} (h : shell.Holds held) (number : Nat)
    (line : String) (lines : List String) :
    ∃ start, Statement.segmentFrom number held (line :: lines) =
      if Statement.isOpen (shell.continued line) then
        Statement.segmentFrom (number + 1) (some ⟨start, shell.continued line⟩) lines
      else if (shell.continued line).isEmpty then Statement.segmentFrom (number + 1) none lines
      else ⟨start, shell.continued line⟩ :: Statement.segmentFrom (number + 1) none lines := by
  cases held with
  | none =>
    have hcontinued : shell.continued line = Statement.clean line := by
      rw [continued, h.held_eq]
      rfl
    refine ⟨number, ?_⟩
    rw [hcontinued, Statement.segmentFrom]
    by_cases hempty : (Statement.clean line).isEmpty = true
    · have hclosed : ¬Statement.isOpen (Statement.clean line) = true := by
        rw [String.isEmpty_iff.mp hempty]
        decide
      rw [if_pos hempty, if_neg hclosed, if_pos hempty]
    · rw [if_neg hempty, if_neg hempty]
  | some statement =>
    have hopen := h.isOpen statement rfl
    have hcontinued : shell.continued line =
        Statement.join statement.text (Statement.clean line) := by
      have hheld : shell.held = statement.text := h.held_eq
      rw [continued, hheld, Statement.isEmpty_of_isOpen hopen]
      rfl
    refine ⟨statement.line, ?_⟩
    rw [hcontinued, Statement.segmentFrom, Statement.isEmpty_join hopen]
    rfl

/-- Work that came to its end leaves a shell that holds nothing. -/
theorem Holds.concluded {definitions : Definitions} {texts : List String} {session : Session}
    (h : shell.Holds none) (hconcludes : shell.session.Concludes definitions texts session) :
    { shell with session }.Holds none :=
  ⟨hconcludes.queue, hconcludes.results, h.held_eq, nofun⟩

/-- A shell works on the first of the statements that are worked on in order. -/
theorem Holds.finish_of_works {text : String} {texts : List String} {effects : List Effect}
    {last : Definitions} (h : shell.Holds none)
    (hworks : Works shell.session.calculus shell.session.definitions (text :: texts) effects last)
    (number : Nat) :
    ∃ definitions effect others session, effects = effect :: others ∧
      finish text number shell = .ok () { shell with session } ∧
      shell.session.Concludes definitions effect.texts session ∧
      Works session.calculus session.definitions texts others last := by
  cases hworks with
  | bind hcut hadmits hrest =>
    obtain ⟨session, hfinish, hconcludes⟩ :=
      finish_of_admits h.queue h.results hcut hadmits number
    rw [← hconcludes.calculus, ← hconcludes.definitions] at hrest
    exact ⟨_, _, _, session, rfl, hfinish, hconcludes, hrest⟩
  | evaluate hcut hread hnormal hrest =>
    obtain ⟨session, hfinish, hconcludes⟩ :=
      finish_of_normalForm h.queue h.results hcut hread hnormal number
    rw [← hconcludes.calculus, ← hconcludes.definitions] at hrest
    exact ⟨_, _, _, session, rfl, hfinish, hconcludes, hrest⟩

/-- A shell works on the lines that a file is cut into statements from. -/
theorem Holds.takes {held : Option Statement} {number : Nat} {lines : List String}
    {effects : List Effect} {last : Definitions} (h : shell.Holds held)
    (hplain : ∀ line ∈ lines, line.toList.head? ≠ some ':')
    (hworks : Works shell.session.calculus shell.session.definitions
      ((Statement.segmentFrom number held lines).map Statement.text) effects last) :
    ∃ after, Takes shell lines after ∧ after.Holds none ∧ after.session.definitions = last ∧
      after.session.reporter.printed =
        shell.session.reporter.printed ++ (effects.flatMap Effect.texts).map .line := by
  -- The induction is on the lines: each of them is held, skipped or worked on by the shell, and the
  -- cut of the file goes on from it with the same statement held.
  induction lines generalizing shell held number effects with
  | nil =>
    cases held with
    | none =>
      cases hworks
      exact ⟨shell, .nothing shell, h, rfl, (List.append_nil _).symm⟩
    | some statement =>
      -- The file ends in the middle of a statement, which nothing can be made of.
      have hclosed : Statement.isOpen statement.text = false := hworks.isOpen_head
      nomatch hclosed.symm.trans (h.isOpen statement rfl)
  | cons line lines ih =>
    obtain ⟨hline, hlines⟩ := List.forall_mem_cons.mp hplain
    obtain ⟨start, hsegment⟩ := h.segmentFrom_cons number line lines
    have htake := takeStatement_eq (Text.trimmed line) shell
    rw [continued_trimmed] at htake
    rw [hsegment] at hworks
    by_cases hopen : Statement.isOpen (shell.continued line) = true
    · rw [if_pos hopen] at htake hworks
      have hholding : (shell.holding (shell.continued line)).Holds
          (some ⟨start, shell.continued line⟩) := by
        refine ⟨h.queue, h.results, rfl, fun statement hstatement => ?_⟩
        obtain rfl := Option.some.inj hstatement
        exact hopen
      obtain ⟨after, htakes, hafter⟩ := ih hholding hlines hworks
      exact ⟨after, .line (perform_line hline htake) htakes, hafter⟩
    rw [if_neg hopen] at htake hworks
    have hready : shell.ready.Holds none := ⟨h.queue, h.results, rfl, nofun⟩
    by_cases hempty : (shell.continued line).isEmpty = true
    · rw [if_pos hempty] at htake hworks
      obtain ⟨after, htakes, hafter⟩ := ih hready hlines hworks
      exact ⟨after, .line (perform_line hline htake) htakes, hafter⟩
    rw [if_neg hempty] at htake hworks
    obtain ⟨definitions, effect, others, session, rfl, hfinish, hconcludes, hrest⟩ :=
      hready.finish_of_works hworks (shell.lineNumber + 1)
    obtain ⟨after, htakes, hafter, hlast, hprinted⟩ :=
      ih (hready.concluded hconcludes) hlines hrest
    refine ⟨after, .line (perform_line hline (htake.trans hfinish)) htakes, hafter, hlast, ?_⟩
    rw [hprinted, hconcludes.printed, List.flatMap_cons, List.map_append, List.append_assoc]
    rfl

/-- Lines that are taken lead to where a shell is after them. -/
theorem Takes.afterLines_eq {last : Shell} {lines : List String} (h : shell.Takes lines last) :
    shell.afterLines lines = last := by
  induction h with
  | nothing shell => rfl
  | line h _ ih =>
    unfold afterLines at ih ⊢
    rw [List.foldl_cons, takeLine, runLine_of_ok h]
    exact ih

end Shell

/-- All results of a session can be popped and printed, oldest first. -/
theorem CommandLine.printResults_all {s : Session} {results : List Term} (h : s.results = results) :
    ∃ popped, printResults results.length s = .ok () popped ∧ popped.results = [] ∧
      popped.reporter.printed = s.reporter.printed ++ (results.map Term.display).map .line := by
  induction results generalizing s with
  | nil => exact ⟨s, rfl, h, (List.append_nil _).symm⟩
  | cons result results ih =>
    let next := { s with results, reporter := s.reporter.printLines [result.display] }
    have hnext : next.results = results := rfl
    obtain ⟨popped, hrest, hnone, hprinted⟩ := ih hnext
    have hpop : Session.pop s = .ok result.display { s with results } := by
      unfold Session.pop
      rw [Action.bind_of_ok (Action.get_eq_ok.mpr ⟨rfl, rfl⟩), h]
      rfl
    refine ⟨popped, (Action.bind_of_ok hpop).trans hrest, hnone, ?_⟩
    rw [hprinted]
    exact List.append_assoc _ _ _

namespace Session

/-- A session has worked on some lines: on the statements that they are cut into, or on a file that
holds them. -/
def Loads (s : Session) (lines : List String) (built : Session) : Prop :=
  addAll (Statement.segment lines) s = .ok () built ∨
    ∃ contents, Text.fileLines contents = lines ∧ load false (some contents) s = .ok () built

/-- Working on a file is working on the statements that its lines are cut into. -/
theorem Loads.addAll {s built : Session} {lines : List String} (h : s.Loads lines built) :
    Session.addAll (Statement.segment lines) s = .ok () built := by
  rcases h with hlines | ⟨contents, rfl, hfile⟩
  · exact hlines
  unfold load at hfile
  rw [Action.bind_of_ok (Action.get_eq_ok.mpr ⟨rfl, rfl⟩)] at hfile
  split at hfile
  · nomatch hfile
  · split at hfile
    · nomatch hfile
    · exact hfile

/-- What a shell and the session of a file have in common if statements had these effects on both,
since the reporters were as they are given. -/
structure AgreesWith (file : Session) (shell : Shell) (effects : List Effect)
    (reporter typed : Reporter) : Prop where
  /-- The shell does not wait for the rest of a statement. -/
  held : shell.held = ""
  /-- The definitions are the same. -/
  definitions : shell.session.definitions = file.definitions
  /-- The shell has printed warnings and results, in the order of the statements. -/
  printed : shell.session.reporter.printed =
    typed.printed ++ (effects.flatMap Effect.texts).map .line
  /-- The session has printed the same warnings. -/
  warned : file.reporter.printed = reporter.printed ++ (effects.flatMap Effect.warnings).map .line
  /-- The session has the same results. -/
  results : file.results = effects.filterMap Effect.result?
  /-- All results of the session can be popped, and are shown in this order. -/
  popped : ∃ popped, CommandLine.printResults file.results.length file = .ok () popped ∧
    popped.results = [] ∧ popped.reporter.printed =
      file.reporter.printed ++ (file.results.map Term.display).map .line

/-- If a session works on the lines of a file and is run without a fault, a fresh shell takes the
same lines without a fault. It ends with the same definitions, and prints the results that the
session has, each as it is shown when it is popped. -/
theorem typed_lines_agree {lines : List String} {path : String} {calculus : Calculus}
    {reporter typed : Reporter} {traced : Bool} {built file : Session}
    (hplain : ∀ line ∈ lines, line.toList.head? ≠ some ':')
    (hload : (start path calculus false reporter).Loads lines built)
    (hrun : run traced built = .ok () file) :
    let fresh := Shell.start (start inputPath calculus true typed)
    ∃ shell effects, fresh.Takes lines shell ∧ fresh.afterLines lines = shell ∧
      file.AgreesWith shell effects reporter typed := by
  intro fresh
  obtain ⟨items, hqueue, hresults, hcalculus, hworks⟩ := addAll_eq_ok hload.addAll
  have hitems : runQueue traced items built = .ok () file := by
    unfold run at hrun
    rw [Action.bind_of_ok (Action.get_eq_ok.mpr ⟨rfl, rfl⟩), hqueue] at hrun
    exact hrun
  obtain ⟨results, hall, hshown, hdefinitions, hprinted⟩ := runQueue_eq_ok hitems
  rw [hcalculus] at hall
  obtain ⟨effects, heffects, hnormal, hwarned⟩ := hworks results hall
  have hfresh : fresh.Holds none := ⟨rfl, rfl, rfl, nofun⟩
  obtain ⟨shell, htakes, hholds, hlast, htyped⟩ := hfresh.takes hplain heffects
  refine ⟨shell, effects, htakes, htakes.afterLines_eq, ?_⟩
  exact {
    held := hholds.held_eq
    definitions := hlast.trans hdefinitions.symm
    printed := htyped
    warned := hprinted.trans hwarned
    results := by
      rw [hshown, hresults, hnormal]
      rfl
    popped := CommandLine.printResults_all rfl }

/-- Lines that bind a name of the prelude anew, between the lines of a term with blank lines and
comments inside. -/
theorem typed_lines_agree_continued :
    let lines :=
      ["I := \\x.x x ;; not the identity", "", "((\\f.", "  ;; goes on", "", " f) I", ") K"]
    let s := start "terms.lc" default false (.start true)
    let built := Action.state (addAll (Statement.segment lines) s)
    let file := Action.state (run true built)
    ∃ shell effects,
      (Shell.start (start inputPath default true (.start true))).Takes lines shell ∧
        file.AgreesWith shell effects (.start true) (.start true) ∧
        file.results = [.abs "y" (.abs "x" (.abs "y" (.var "x")))] := by
  intro lines s built file
  have hplain : ∀ line ∈ lines, line.toList.head? ≠ some ':' := by decide +kernel
  have hbuilt : addAll (Statement.segment lines) s = .ok () built :=
    Action.eq_ok_of_outcome (by decide +kernel)
  have hfile : run true built = .ok () file := Action.eq_ok_of_outcome (by decide +kernel)
  have hresults : file.results = [.abs "y" (.abs "x" (.abs "y" (.var "x")))] := by decide +kernel
  obtain ⟨shell, effects, htakes, -, hagrees⟩ :=
    @typed_lines_agree lines _ _ _ (.start true) _ _ _ hplain (.inl hbuilt) hfile
  exact ⟨shell, effects, htakes, hagrees, hresults⟩

end Session

end UntypedLambda
