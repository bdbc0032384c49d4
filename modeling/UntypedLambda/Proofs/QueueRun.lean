import Mathlib.Data.List.Forall2
import UntypedLambda.Proofs.SessionWork

/-!
# A run of the queue loses nothing

A run takes terms off the queue and puts their normal forms behind the results, up to the first term
that has none. That term is off the queue as well, its line is noted, and the terms behind it wait
for the next run. So runs one after the other turn every term of the queue into a result or a fault,
once and in order. Keeping the texts on the way makes no difference to that.
-/

namespace UntypedLambda

namespace Calculus

/-- Whether terms that wait have these normal forms. -/
def Evaluates (calculus : Calculus) (items : List Queued) (forms : List Term) : Prop :=
  List.Forall₂ (fun item form => calculus.normalForm item.term = .ok form) items forms

/-- The first of the terms that wait which has no normal form, and what stands around it. -/
structure FailsFirst (calculus : Calculus) (items before : List Queued) (forms : List Term)
    (item : Queued) (fault : Fault) (behind : List Queued) : Prop where
  /-- The term stands between those before and those behind it. -/
  split : items = before ++ item :: behind
  /-- The terms before it have normal forms. -/
  evaluates : calculus.Evaluates before forms
  /-- It has none. -/
  fails : calculus.normalForm item.term = .error fault

/-- The normal forms of the terms that have one. -/
def forms (calculus : Calculus) (items : List Queued) : List Term :=
  items.filterMap fun item => (calculus.normalForm item.term).toOption

/-- The faults of the terms that have no normal form. -/
def faults (calculus : Calculus) (items : List Queued) : List Fault :=
  items.filterMap fun item =>
    match calculus.normalForm item.term with
    | .ok _ => none
    | .error fault => some fault

variable {calculus : Calculus} {items before behind : List Queued} {forms : List Term}
  {item : Queued} {fault : Fault}

/-- All terms have normal forms, or one of them is the first that has none. -/
theorem evaluates_or_failsFirst (calculus : Calculus) (items : List Queued) :
    (∃ forms, calculus.Evaluates items forms) ∨
      ∃ before forms item fault behind,
        calculus.FailsFirst items before forms item fault behind := by
  induction items with
  | nil => exact .inl ⟨[], .nil⟩
  | cons item items ih =>
    cases hitem : calculus.normalForm item.term with
    | error fault => exact .inr ⟨[], [], item, fault, items, rfl, .nil, hitem⟩
    | ok form =>
      rcases ih with ⟨forms, hforms⟩ | ⟨before, forms, other, fault, behind, hfirst⟩
      · exact .inl ⟨form :: forms, .cons hitem hforms⟩
      · refine .inr ⟨item :: before, form :: forms, other, fault, behind, ?_, ?_, hfirst.fails⟩
        · rw [hfirst.split, List.cons_append]
        · exact .cons hitem hfirst.evaluates

/-- The normal forms of the first terms come first. -/
theorem Evaluates.forms_append (h : calculus.Evaluates before forms) (behind : List Queued) :
    calculus.forms (before ++ behind) = forms ++ calculus.forms behind := by
  induction h with
  | nil => rfl
  | cons hitem _ ih =>
    rw [List.cons_append, Calculus.forms, List.filterMap_cons, hitem]
    exact congrArg _ ih

/-- The first terms have no faults. -/
theorem Evaluates.faults_append (h : calculus.Evaluates before forms) (behind : List Queued) :
    calculus.faults (before ++ behind) = calculus.faults behind := by
  induction h with
  | nil => rfl
  | cons hitem _ ih =>
    rw [List.cons_append, Calculus.faults, List.filterMap_cons, hitem]
    exact ih

/-- Terms that all have normal forms have these and no faults. -/
theorem Evaluates.accounts (h : calculus.Evaluates items forms) :
    calculus.forms items = forms ∧ calculus.faults items = [] := by
  have hforms := h.forms_append []
  have hfaults := h.faults_append []
  rw [List.append_nil] at hforms hfaults
  exact ⟨hforms.trans (List.append_nil forms), hfaults⟩

/-- The fault of the first term that has no normal form comes first, and the normal forms of the
terms behind it follow those of the terms before it. -/
theorem FailsFirst.accounts (h : calculus.FailsFirst items before forms item fault behind) :
    calculus.forms items = forms ++ calculus.forms behind ∧
      calculus.faults items = fault :: calculus.faults behind := by
  rw [h.split, h.evaluates.forms_append, h.evaluates.faults_append]
  constructor
  · rw [Calculus.forms, List.filterMap_cons, h.fails]
    rfl
  · rw [Calculus.faults, List.filterMap_cons, h.fails]
    rfl

end Calculus

namespace Session

/-- How far a session came with its queue: these normal forms are new among the results, and these
terms still wait. -/
structure Advances (traced : Bool) (s : Session) (forms : List Term) (behind : List Queued)
    (t : Session) : Prop where
  /-- The path stays. -/
  path : t.path = s.path
  /-- The calculus stays. -/
  calculus : t.calculus = s.calculus
  /-- The definitions stay. -/
  definitions : t.definitions = s.definitions
  /-- The terms wait, and no others. -/
  queue : t.queue = behind
  /-- The normal forms stand behind the results from before. -/
  results : t.results = s.results ++ forms
  /-- The texts on the way to them stand behind the traces from before, if they are wanted. -/
  traces : ∃ added, t.traces = s.traces ++ added ∧ TracesOf traced forms added

/-- Runs one after the other until one succeeds. In between, the reporter deals with the fault of
the last run; the faults are listed in order. -/
inductive Drains (traced : Bool) : Session → List Fault → Session → Prop where
  /-- The run succeeds. -/
  | finished {s t : Session} (h : run traced s = .ok () t) : Drains traced s [] t
  /-- The run fails, and there is another one. -/
  | again {s t u : Session} {fault : Fault} {faults : List Fault}
      (h : run traced s = .error fault t) (reporter : Reporter)
      (rest : Drains traced { t with reporter } faults u) : Drains traced s (fault :: faults) u

variable {s t u : Session} {traced : Bool} {forms others : List Term}
  {before behind rest : List Queued} {item : Queued} {fault : Fault} {faults : List Fault}
  {added more : List (List String)}

/-- What goes to the traces along with some results and then others goes there along with all. -/
theorem TracesOf.append (h : TracesOf traced forms added) (hmore : TracesOf traced others more) :
    TracesOf traced (forms ++ others) (added ++ more) := by
  cases traced with
  | true => exact List.rel_append h hmore
  | false =>
    obtain rfl : added = [] := h
    exact hmore

/-- A session that came so far can come further. -/
theorem Advances.trans (h : s.Advances traced forms behind t)
    (hrest : t.Advances traced others rest u) : s.Advances traced (forms ++ others) rest u := by
  obtain ⟨added, hadded, htraces⟩ := h.traces
  obtain ⟨more, hmore, hothers⟩ := hrest.traces
  exact {
    path := hrest.path.trans h.path
    calculus := hrest.calculus.trans h.calculus
    definitions := hrest.definitions.trans h.definitions
    queue := hrest.queue
    results := by rw [hrest.results, h.results, List.append_assoc]
    traces := ⟨added ++ more, by rw [hmore, hadded, List.append_assoc], htraces.append hothers⟩ }

/-- Sessions that came as far from the same start have the same terms waiting, and the same results,
whether or not the texts on the way are wanted. -/
theorem Advances.same {wanted : Bool} (h : s.Advances traced forms behind t)
    (h' : s.Advances wanted forms behind u) : t.queue = u.queue ∧ t.results = u.results :=
  ⟨h.queue.trans h'.queue.symm, h.results.trans h'.results.symm⟩

/-- A run is a walk through the queue. -/
theorem run_eq (traced : Bool) (s : Session) : run traced s = runQueue traced s.queue s := rfl

/-- Terms with normal forms at the start of the queue are evaluated, and then those behind them. -/
theorem runQueue_of_evaluates {calculus : Calculus} (h : calculus.Evaluates before forms)
    (hcalculus : s.calculus = calculus) (hqueue : s.queue = before ++ behind) (traced : Bool) :
    ∃ t, runQueue traced (before ++ behind) s = runQueue traced behind t ∧
      s.Advances traced forms behind t := by
  induction h generalizing s with
  | nil =>
    have htraces : TracesOf traced [] [] := by cases traced <;> constructor
    exact ⟨s, rfl, rfl, rfl, rfl, hqueue, (List.append_nil _).symm,
      [], (List.append_nil _).symm, htraces⟩
  | @cons item form items forms hitem _ ih =>
    have hterm : s.calculus.normalForm item.term = .ok form := hcalculus ▸ hitem
    obtain ⟨added, htraces, hrun⟩ := runQueue_of_normalForm hterm traced (items ++ behind)
    let t := left { s.taken item (items ++ behind) with
      results := s.results ++ [form], traces := s.traces ++ added }
    have hstep : s.Advances traced [form] (items ++ behind) t :=
      ⟨rfl, rfl, rfl, rfl, rfl, added, rfl, htraces⟩
    obtain ⟨u, hrest, hadvances⟩ := ih (s := t) hcalculus rfl
    exact ⟨u, hrun.trans hrest, hstep.trans hadvances⟩

/-- If all terms in the queue have normal forms, the run succeeds and nothing waits. -/
theorem run_of_evaluates (h : s.calculus.Evaluates s.queue forms) (traced : Bool) :
    ∃ t, run traced s = .ok () t ∧ s.Advances traced forms [] t := by
  obtain ⟨t, hrun, hadvances⟩ :=
    runQueue_of_evaluates h rfl (List.append_nil s.queue).symm traced
  rw [List.append_nil] at hrun
  exact ⟨t, hrun, hadvances⟩

/-- Otherwise the run ends with the first term that has none. It is off the queue, and noted. -/
theorem run_of_failsFirst
    (h : s.calculus.FailsFirst s.queue before forms item fault behind) (traced : Bool) :
    ∃ t, run traced s = .error fault t ∧ s.Advances traced forms behind t ∧
      t.reporter.traceback.get? s.path = some ⟨some item.text, item.number⟩ := by
  obtain ⟨u, hrun, hadvances⟩ := runQueue_of_evaluates h.evaluates rfl h.split traced
  have hfault : u.calculus.normalForm item.term = .error fault := by
    rw [hadvances.calculus]
    exact h.fails
  have hlast := runQueue_of_error hfault traced behind
  refine ⟨u.taken item behind, ?_, { hadvances with queue := rfl }, ?_⟩
  · rw [run_eq, h.split]
    exact hrun.trans hlast
  · rw [← hadvances.path]
    exact Table.get?_put_self _ _ _

/-- A run that keeps the texts on the way differs from one that does not in the traces only. -/
theorem run_traced_eq (s : Session) :
    Action.outcome (run true s) = Action.outcome (run false s) ∧
      (Action.state (run true s)).queue = (Action.state (run false s)).queue ∧
      (Action.state (run true s)).results = (Action.state (run false s)).results := by
  rcases s.calculus.evaluates_or_failsFirst s.queue with
    ⟨forms, hforms⟩ | ⟨before, forms, item, fault, behind, hfirst⟩
  · obtain ⟨t, ht, htraced⟩ := run_of_evaluates hforms true
    obtain ⟨u, hu, huntraced⟩ := run_of_evaluates hforms false
    rw [ht, hu]
    exact ⟨rfl, htraced.same huntraced⟩
  · obtain ⟨t, ht, htraced, -⟩ := run_of_failsFirst hfirst true
    obtain ⟨u, hu, huntraced, -⟩ := run_of_failsFirst hfirst false
    rw [ht, hu]
    exact ⟨rfl, htraced.same huntraced⟩

/-- Runs one after the other come to an end. -/
theorem exists_drains (traced : Bool) (s : Session) : ∃ faults t, Drains traced s faults t := by
  -- Every run that fails takes at least the failing term off the queue.
  induction hlength : s.queue.length using Nat.strongRecOn generalizing s with
  | ind length ih =>
    rcases s.calculus.evaluates_or_failsFirst s.queue with
      ⟨forms, hforms⟩ | ⟨before, forms, item, fault, behind, hfirst⟩
    · obtain ⟨t, hrun, -⟩ := run_of_evaluates hforms traced
      exact ⟨[], t, .finished hrun⟩
    · obtain ⟨t, hrun, hadvances, -⟩ := run_of_failsFirst hfirst traced
      have hless : t.queue.length < length := by
        rw [← hlength, hfirst.split, hadvances.queue, List.length_append, List.length_cons]
        omega
      obtain ⟨faults, u, hrest⟩ := ih t.queue.length hless t rfl
      exact ⟨fault :: faults, u, .again hrun t.reporter hrest⟩

/-- Runs one after the other account for every term of the queue, once and in order: those that have
a normal form have it among the results, and the others end a run with their fault. -/
theorem Drains.accounts (h : Drains traced s faults u) :
    faults = s.calculus.faults s.queue ∧
      s.Advances traced (s.calculus.forms s.queue) [] u := by
  induction h with
  | @finished s t hrun =>
    rcases s.calculus.evaluates_or_failsFirst s.queue with
      ⟨forms, hforms⟩ | ⟨before, forms, item, fault, behind, hfirst⟩
    · obtain ⟨t', hok, hadvances⟩ := run_of_evaluates hforms traced
      obtain ⟨-, rfl⟩ := EStateM.Result.ok.inj (hok.symm.trans hrun)
      rw [hforms.accounts.1, hforms.accounts.2]
      exact ⟨rfl, hadvances⟩
    · obtain ⟨t', herror, -⟩ := run_of_failsFirst hfirst traced
      nomatch herror.symm.trans hrun
  | @again s t u fault faults hrun reporter _ ih =>
    rcases s.calculus.evaluates_or_failsFirst s.queue with
      ⟨forms, hforms⟩ | ⟨before, forms, item, fault', behind, hfirst⟩
    · obtain ⟨t', hok, -⟩ := run_of_evaluates hforms traced
      nomatch hok.symm.trans hrun
    · obtain ⟨t', herror, hadvances, -⟩ := run_of_failsFirst hfirst traced
      obtain ⟨rfl, rfl⟩ := EStateM.Result.error.inj (herror.symm.trans hrun)
      have hdealt : s.Advances traced forms behind { t' with reporter } := { hadvances with }
      generalize ({ t' with reporter } : Session) = dealt at hdealt ih
      rw [hdealt.calculus, hdealt.queue] at ih
      rw [hfirst.accounts.1, hfirst.accounts.2, ih.1]
      exact ⟨rfl, hdealt.trans ih.2⟩

/-- A run turns the terms of the queue into results up to the first that has no normal form, and the
runs after it go on behind that one, until every term is accounted for. -/
theorem run_loses_nothing (s : Session) :
    (∀ forms, s.calculus.Evaluates s.queue forms →
      ∀ traced, ∃ t, run traced s = .ok () t ∧ s.Advances traced forms [] t) ∧
    (∀ before forms item fault behind,
      s.calculus.FailsFirst s.queue before forms item fault behind →
        ∀ traced, ∃ t, run traced s = .error fault t ∧ s.Advances traced forms behind t ∧
          t.reporter.traceback.get? s.path = some ⟨some item.text, item.number⟩) ∧
    ((∃ forms, s.calculus.Evaluates s.queue forms) ∨
      ∃ before forms item fault behind,
        s.calculus.FailsFirst s.queue before forms item fault behind) ∧
    (Action.outcome (run true s) = Action.outcome (run false s) ∧
      (Action.state (run true s)).queue = (Action.state (run false s)).queue ∧
      (Action.state (run true s)).results = (Action.state (run false s)).results) ∧
    ∀ traced, (∃ faults t, Drains traced s faults t) ∧
      ∀ faults t, Drains traced s faults t →
        faults = s.calculus.faults s.queue ∧
          s.Advances traced (s.calculus.forms s.queue) [] t := by
  refine ⟨fun forms hforms => run_of_evaluates hforms,
    fun before forms item fault behind hfirst => run_of_failsFirst hfirst,
    s.calculus.evaluates_or_failsFirst s.queue, run_traced_eq s, fun traced => ?_⟩
  exact ⟨exists_drains traced s, fun faults t hdrains => hdrains.accounts⟩

/-- Three terms wait, and the second has no normal form. The first run ends there with one result,
and the second run has the result of the third term. -/
theorem run_loses_nothing_second_fails :
    let duplicator := Term.abs "x" (.app (.var "x") (.var "x"))
    let first : Queued := ⟨some 1, "(\\x.x) y", .app (.abs "x" (.var "x")) (.var "y")⟩
    let second : Queued := ⟨some 2, "(\\x.x x) (\\x.x x)", .app duplicator duplicator⟩
    let third : Queued := ⟨none, "z", .var "z"⟩
    let s : Session := { start inputPath (.ofBudget (some 10)) true (.start true) with
      queue := [first, second, third] }
    ∃ fault t u, s.calculus.FailsFirst s.queue [first] [.var "y"] second fault [third] ∧
      run true s = .error fault t ∧ s.Advances true [.var "y"] [third] t ∧
      t.reporter.traceback.get? inputPath = some ⟨some second.text, some 2⟩ ∧
      t.calculus.Evaluates t.queue [.var "z"] ∧
      run true t = .ok () u ∧ t.Advances true [.var "z"] [] u ∧
      Drains true s [fault] u ∧ s.calculus.faults s.queue = [fault] := by
  intro duplicator first second third s
  have hy : s.calculus.normalForm first.term = .ok (.var "y") :=
    Term.toOption_eq_some.mp (by decide +kernel)
  have hz : s.calculus.normalForm third.term = .ok (.var "z") :=
    Term.toOption_eq_some.mp (by decide +kernel)
  have hnone : (s.calculus.normalForm second.term).toOption = none := by decide +kernel
  cases hfault : s.calculus.normalForm second.term with
  | ok form =>
    rw [hfault] at hnone
    nomatch hnone
  | error fault =>
    have hfails : s.calculus.FailsFirst s.queue [first] [.var "y"] second fault [third] :=
      ⟨rfl, .cons hy .nil, hfault⟩
    obtain ⟨t, hrun, hadvances, hnoted⟩ := (run_loses_nothing s).2.1 _ _ _ _ _ hfails true
    have hrest : t.calculus.Evaluates t.queue [.var "z"] := by
      rw [hadvances.calculus, hadvances.queue]
      exact .cons hz .nil
    obtain ⟨u, hagain, hfurther⟩ := (run_loses_nothing t).1 _ hrest true
    have hdrains : Drains true s [fault] u := .again hrun t.reporter (.finished hagain)
    have haccounts := ((run_loses_nothing s).2.2.2.2 true).2 _ _ hdrains
    exact ⟨fault, t, u, hfails, hrun, hadvances, hnoted, hrest, hagain, hfurther, hdrains,
      haccounts.1.symm⟩

end Session

end UntypedLambda
