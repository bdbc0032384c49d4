import UntypedLambda.Proofs.Budget
import UntypedLambda.Proofs.Report
import UntypedLambda.Session

/-!
# What a statement does to a session

A definition passes all of its checks before anything is changed. If it passes them, the name is
bound to the expanded term, after a warning where it is a name of the prelude; if it fails one, the
session is as it was. A statement is worked on between two notes to the reporter, of which a
statement that fails leaves the first one there. A run of the queue binds no names.
-/

namespace UntypedLambda

/-- A definition that passes all checks, with the term that its text spells. -/
structure Definitions.Admits (definitions : Definitions) (name text : String) (term : Term) :
    Prop where
  /-- The name is one. -/
  isName : Session.isName (Text.trimmed name) = .ok true
  /-- The text can be read. -/
  reads : Session.readLiterals text = .ok term
  /-- The term does not hold the name. -/
  notMem : Text.trimmed name ∉ term.freeNames
  /-- The definitions that the term refers to do not lead to the name. -/
  notMem_expand : Text.trimmed name ∉ (definitions.expand term).freeNames

/-- The normal form of a term within the budget of the calculus. -/
def Calculus.normalForm (calculus : Calculus) (term : Term) : Except Fault Term := do
  term.evaluate (← calculus.budgetOr none)

namespace Session

/-- What is printed where a name is bound: a warning if it is a name of the prelude. -/
def shadowing (name : String) : List String :=
  if Prelude.table.contains name then
    [Text.Colour.magenta.bold "warning: " ++
      String.ofList ('\'' :: (Text.bold name).toList ++ "' shadows a prelude definition".toList)]
  else []

/-- The session after a name is bound to a term. -/
def bound (s : Session) (name : String) (term : Term) : Session :=
  { s with
    reporter := s.reporter.printLines (shadowing name)
    definitions := s.definitions.put name term }

/-- The session while a statement is worked on. -/
def entered (s : Session) (text : String) (number : Option Int) : Session :=
  { s with reporter := s.reporter.registerLine s.path (some text) number }

/-- The session after the work on a statement. -/
def left (s : Session) : Session := { s with reporter := s.reporter.removeLine s.path }

/-- The session after the work on a term, which waits for its evaluation. -/
def queued (s : Session) (text : String) (number : Option Int) (term : Term) : Session :=
  left { s.entered text number with queue := s.queue ++ [⟨number, text, term⟩] }

/-- What goes to the traces along with results: for each of them a row of texts, which ends with
the text of the result; or nothing, if no texts are wanted. -/
def TracesOf (traced : Bool) (results : List Term) (added : List (List String)) : Prop :=
  match traced with
  | true => List.Forall₂ (fun result steps => steps.getLast? = some result.render) results added
  | false => added = []

variable {s : Session} {name text body : String} {term result : Term} {number : Option Int}

/-- The warning is printed, whatever the name. -/
theorem warn_shadowing (name : String) (r : Reporter) :
    Reporter.warn
        { template := "'\x7b\x7d' shadows a prelude definition", texts := [name],
          diagnosis := false } r =
      .ok () (r.printLines [Text.Colour.magenta.bold "warning: " ++ String.ofList
        ('\'' :: (Text.bold name).toList ++ "' shadows a prelude definition".toList)]) := by
  have hcut : Template.segments "'\x7b\x7d' shadows a prelude definition" =
      ['\''].map Template.Segment.literal ++ Template.Segment.field .next ::
        "' shadows a prelude definition".toList.map Template.Segment.literal := by decide +kernel
  have htext (text : String) : [text][0]? = some text := rfl
  have hbold := Template.fill_field hcut rfl (htext (Text.bold name))
  exact Reporter.warn_eq_ok (Template.fill_field hcut rfl (htext name)) hbold
    (List.cons_ne_nil _ _) rfl r

/-- What the reporter succeeds in changes the reporter. -/
theorem reporting_of_ok {α : Type} {act : Action Reporter α} {a : α} {reporter : Reporter}
    (h : act s.reporter = .ok a reporter) : reporting act s = .ok a { s with reporter } := by
  unfold reporting Action.onPart
  rw [h]

/-- What the reporter fails in changes the reporter, too. -/
theorem reporting_of_error {α : Type} {act : Action Reporter α} {fault : Fault}
    {reporter : Reporter} (h : act s.reporter = .error fault reporter) :
    reporting act s = .error fault { s with reporter } := by
  unfold reporting Action.onPart
  rw [h]

/-- A definition that passes the checks binds the name. -/
theorem define_of_admits (h : s.definitions.Admits name text term) :
    define name text s =
      .ok (s.definitions.expand term)
        (s.bound (Text.trimmed name) (s.definitions.expand term)) := by
  have hfree : (term.free (Text.trimmed name) ||
      (s.definitions.expand term).free (Text.trimmed name)) = false := by
    rw [Term.free_eq_false_iff.mpr h.notMem, Term.free_eq_false_iff.mpr h.notMem_expand]
    rfl
  unfold define
  rw [Action.bind_of_ok (Action.ofExcept_of_ok h.isName s)]
  dsimp only
  rw [if_neg (by decide), Action.bind_of_ok (Action.ofExcept_of_ok h.reads s),
    Action.bind_of_ok (Action.get_eq_ok.mpr ⟨rfl, rfl⟩), hfree, if_neg (by decide)]
  unfold bound shadowing
  by_cases hprelude : Prelude.table.contains (Text.trimmed name) = true
  · rw [if_pos hprelude, if_pos hprelude]
    rw [Action.bind_of_ok (reporting_of_ok (warn_shadowing _ _))]
    rfl
  · rw [if_neg hprelude, if_neg hprelude, Reporter.printLines_nil]
    rfl

/-- A definition that fails a check changes nothing. -/
theorem define_of_not_admits (h : ∀ term, ¬s.definitions.Admits name text term) :
    ∃ fault, define name text s = .error fault s := by
  unfold define
  dsimp only
  cases hname : isName (Text.trimmed name) with
  | error fault => exact ⟨fault, Action.bind_of_error (Action.ofExcept_of_error rfl s)⟩
  | ok valid =>
    rw [Action.bind_of_ok (Action.ofExcept_of_ok rfl s)]
    cases valid with
    | false => exact ⟨_, Action.bind_of_error rfl⟩
    | true =>
      rw [if_neg (by decide)]
      cases hread : readLiterals text with
      | error fault => exact ⟨fault, Action.bind_of_error (Action.ofExcept_of_error rfl s)⟩
      | ok term =>
        have hfree : (term.free (Text.trimmed name) ||
            (s.definitions.expand term).free (Text.trimmed name)) = true := by
          refine (Bool.not_eq_false _).mp fun hnone => ?_
          rw [Bool.or_eq_false_iff, Term.free_eq_false_iff, Term.free_eq_false_iff] at hnone
          exact h term ⟨hname, hread, hnone.1, hnone.2⟩
        rw [Action.bind_of_ok (Action.ofExcept_of_ok rfl s),
          Action.bind_of_ok (Action.get_eq_ok.mpr ⟨rfl, rfl⟩), hfree, if_pos rfl]
        exact ⟨_, Action.bind_of_error rfl⟩

/-- A text that can be read is put into the queue. -/
theorem enqueue_of_read (h : s.read text = .ok term) (number : Option Int) :
    enqueue text number s = .ok () { s with queue := s.queue ++ [⟨number, text, term⟩] } := by
  unfold enqueue
  rw [Action.bind_of_ok (Action.get_eq_ok.mpr ⟨rfl, rfl⟩),
    Action.bind_of_ok (Action.ofExcept_of_ok h s)]
  rfl

/-- A text that cannot be read changes nothing. -/
theorem enqueue_of_error {fault : Fault} (h : s.read text = .error fault) (number : Option Int) :
    enqueue text number s = .error fault s := by
  unfold enqueue
  rw [Action.bind_of_ok (Action.get_eq_ok.mpr ⟨rfl, rfl⟩)]
  exact Action.bind_of_error (Action.ofExcept_of_error h s)

/-- The line is noted before anything else is done. -/
theorem enterLine_eq (text : String) (number : Option Int) (s : Session) :
    enterLine text number s = .ok () (s.entered text number) := rfl

/-- The line is forgotten after everything else is done. -/
theorem leaveLine_eq (s : Session) : leaveLine s = .ok () s.left := rfl

/-- A definition that passes the checks is worked on to its end. -/
theorem add_of_admits (hcut : Text.cut? ":=" text = some (name, body))
    (h : s.definitions.Admits name body term) (number : Option Int) :
    add text number s = .ok ()
      ((s.entered text number).bound (Text.trimmed name) (s.definitions.expand term)).left := by
  have hdefine := define_of_admits (s := s.entered text number) h
  unfold add
  rw [Action.bind_of_ok (enterLine_eq text number s), hcut]
  dsimp only
  rw [Action.bind_of_ok hdefine]
  exact leaveLine_eq _

/-- A term that can be read is worked on to its end. -/
theorem add_of_read (hcut : Text.cut? ":=" text = none) (h : s.read text = .ok term)
    (number : Option Int) : add text number s = .ok () (s.queued text number term) := by
  have henqueue := enqueue_of_read (s := s.entered text number) h number
  unfold add
  rw [Action.bind_of_ok (enterLine_eq text number s), hcut]
  dsimp only
  rw [Action.bind_of_ok henqueue]
  exact leaveLine_eq _

/-- A term that cannot be read leaves its line with the reporter, and changes nothing else. -/
theorem add_of_error {fault : Fault} (hcut : Text.cut? ":=" text = none)
    (h : s.read text = .error fault) (number : Option Int) :
    add text number s = .error fault (s.entered text number) := by
  have henqueue := enqueue_of_error (s := s.entered text number) h number
  unfold add
  rw [Action.bind_of_ok (enterLine_eq text number s), hcut]
  exact Action.bind_of_error henqueue

/-- A statement that fails leaves its line with the reporter, and changes nothing else. -/
theorem add_of_refused
    (hdefinition : ∀ name body, Text.cut? ":=" text = some (name, body) →
      ∀ term, ¬s.definitions.Admits name body term)
    (hterm : Text.cut? ":=" text = none → ∀ term, s.read text ≠ .ok term) (number : Option Int) :
    ∃ fault, add text number s = .error fault (s.entered text number) := by
  cases hcut : Text.cut? ":=" text with
  | some parts =>
    obtain ⟨name, body⟩ := parts
    obtain ⟨fault, hfault⟩ := define_of_not_admits (s := s.entered text number)
      (hdefinition name body hcut)
    unfold add
    rw [Action.bind_of_ok (enterLine_eq text number s), hcut]
    exact ⟨fault, Action.bind_of_error hfault⟩
  | none =>
    cases hread : s.read text with
    | ok term => exact absurd hread (hterm hcut term)
    | error fault => exact ⟨fault, add_of_error hcut hread number⟩

/-- A statement binds a name, has its term wait, or is refused. -/
theorem add_cases (text : String) (number : Option Int) (s : Session) :
    (∃ name body term, Text.cut? ":=" text = some (name, body) ∧
      s.definitions.Admits name body term ∧ add text number s = .ok ()
        ((s.entered text number).bound (Text.trimmed name) (s.definitions.expand term)).left) ∨
    (∃ term, Text.cut? ":=" text = none ∧ s.read text = .ok term ∧
      add text number s = .ok () (s.queued text number term)) ∨
    ∃ fault, add text number s = .error fault (s.entered text number) := by
  by_cases hadmits : ∃ name body term,
      Text.cut? ":=" text = some (name, body) ∧ s.definitions.Admits name body term
  · obtain ⟨name, body, term, hcut, hterm⟩ := hadmits
    exact .inl ⟨name, body, term, hcut, hterm, add_of_admits hcut hterm number⟩
  by_cases hread : ∃ term, Text.cut? ":=" text = none ∧ s.read text = .ok term
  · obtain ⟨term, hcut, hterm⟩ := hread
    exact .inr (.inl ⟨term, hcut, hterm, add_of_read hcut hterm number⟩)
  · exact .inr (.inr (add_of_refused
      (fun name body hcut term hterm => hadmits ⟨name, body, term, hcut, hterm⟩)
      (fun hcut term hterm => hread ⟨term, hcut, hterm⟩) number))

/-- A term with a normal form has it among the results after its evaluation, and the texts on the
way to it among the traces. -/
theorem evaluate_of_normalForm (h : s.calculus.normalForm term = .ok result) (traced : Bool) :
    ∃ added, TracesOf traced [result] added ∧ evaluate term traced s =
      .ok () { s with results := s.results ++ [result], traces := s.traces ++ added } := by
  obtain ⟨budget, hbudget, hevaluate⟩ := except_bind_eq_ok.mp h
  unfold evaluate
  rw [Action.bind_of_ok (Action.get_eq_ok.mpr ⟨rfl, rfl⟩),
    Action.bind_of_ok (Action.ofExcept_of_ok hbudget s)]
  cases traced with
  | true =>
    rcases term.trace_cases budget with ⟨trace, htrace, hsame⟩ | ⟨fault, -, hfault⟩
    · obtain rfl := Except.ok.inj (hsame.symm.trans hevaluate)
      have htraces : TracesOf true [trace.result] [trace.steps] :=
        .cons (Term.getLast?_steps htrace) .nil
      rw [if_pos rfl]
      exact ⟨_, htraces, Action.bind_of_ok (Action.ofExcept_of_ok htrace s)⟩
    · nomatch hfault.symm.trans hevaluate
  | false =>
    rw [if_neg Bool.false_ne_true]
    refine ⟨[], rfl, ?_⟩
    rw [List.append_nil]
    exact Action.bind_of_ok (Action.ofExcept_of_ok hevaluate s)

/-- The evaluation of a term without a normal form changes nothing. -/
theorem evaluate_of_error {fault : Fault} (h : s.calculus.normalForm term = .error fault)
    (traced : Bool) : evaluate term traced s = .error fault s := by
  unfold Calculus.normalForm at h
  unfold evaluate
  rw [Action.bind_of_ok (Action.get_eq_ok.mpr ⟨rfl, rfl⟩)]
  cases hbudget : s.calculus.budgetOr none with
  | error other =>
    rw [hbudget] at h
    obtain rfl : other = fault := Except.error.inj h
    exact Action.bind_of_error (Action.ofExcept_of_error rfl s)
  | ok budget =>
    rw [hbudget] at h
    have hevaluate : term.evaluate budget = .error fault := h
    rw [Action.bind_of_ok (Action.ofExcept_of_ok rfl s)]
    cases traced with
    | true =>
      rcases term.trace_cases budget with ⟨trace, -, hok⟩ | ⟨other, htrace, hsame⟩
      · nomatch hok.symm.trans hevaluate
      · obtain rfl := Except.error.inj (hsame.symm.trans hevaluate)
        rw [if_pos rfl]
        exact Action.bind_of_error (Action.ofExcept_of_error htrace s)
    | false =>
      rw [if_neg Bool.false_ne_true]
      exact Action.bind_of_error (Action.ofExcept_of_error hevaluate s)

/-- The session while a term off the queue is evaluated. -/
def taken (s : Session) (item : Queued) (items : List Queued) : Session :=
  entered { s with queue := items } item.text item.number

/-- The first term of the queue is taken off it, and then evaluated. -/
theorem runQueue_cons (traced : Bool) (item : Queued) (items : List Queued) (s : Session) :
    runQueue traced (item :: items) s =
      (evaluate item.term traced >>= fun _ => leaveLine >>= fun _ => runQueue traced items)
        (s.taken item items) := rfl

/-- A term with a normal form is evaluated, and then the terms behind it. -/
theorem runQueue_of_normalForm {item : Queued}
    (h : s.calculus.normalForm item.term = .ok result) (traced : Bool) (items : List Queued) :
    ∃ added, TracesOf traced [result] added ∧ runQueue traced (item :: items) s =
      runQueue traced items (left { s.taken item items with
        results := s.results ++ [result], traces := s.traces ++ added }) := by
  have hterm : (s.taken item items).calculus.normalForm item.term = .ok result := h
  obtain ⟨added, htraces, hok⟩ := evaluate_of_normalForm hterm traced
  refine ⟨added, htraces, ?_⟩
  rw [runQueue_cons, Action.bind_of_ok hok]
  exact Action.bind_of_ok (leaveLine_eq _)

/-- A term without a normal form ends the run. It is off the queue, and its line is noted. -/
theorem runQueue_of_error {item : Queued} {fault : Fault}
    (h : s.calculus.normalForm item.term = .error fault) (traced : Bool) (items : List Queued) :
    runQueue traced (item :: items) s = .error fault (s.taken item items) := by
  have hterm : (s.taken item items).calculus.normalForm item.term = .error fault := h
  rw [runQueue_cons]
  exact Action.bind_of_error (evaluate_of_error hterm traced)

/-- A run of the queue binds no names, whether or not it fails. -/
theorem definitions_runQueue (traced : Bool) (items : List Queued) (s : Session) :
    (Action.state (runQueue traced items s)).definitions = s.definitions := by
  induction items generalizing s with
  | nil => rfl
  | cons item items ih =>
    cases hnormal : s.calculus.normalForm item.term with
    | error fault =>
      rw [runQueue_of_error hnormal]
      rfl
    | ok result =>
      obtain ⟨added, -, hrest⟩ := runQueue_of_normalForm hnormal traced items
      rw [hrest, ih]
      rfl

end Session

end UntypedLambda
