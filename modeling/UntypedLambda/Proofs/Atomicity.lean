import UntypedLambda.Proofs.LaterDefinitions

/-!
# A statement is worked on as a whole or not at all

A statement is refused before it has changed anything: what the session holds is as it was, nothing
has been printed, and the line of the statement is noted. Any other statement either binds one name,
with a warning if the name is one of the prelude, or has one term wait, and its line is forgotten.
-/

namespace UntypedLambda

/-- No defined name is free in the term of a checked definition, its own name included. -/
theorem Definitions.Acyclic.notMem_put {definitions : Definitions} (h : definitions.Acyclic)
    {given text : String} {term : Term} (hadmits : definitions.Admits given text term)
    (other : Term) {name : String}
    (hname : name ∈ (definitions.put (Text.trimmed given) other).names) :
    name ∉ (definitions.expand term).freeNames := by
  rcases Table.mem_names_put.mp hname with rfl | hold
  · exact hadmits.notMem_expand
  · exact h.notMem_expand term name hold

/-- The name of a checked definition is an identifier. -/
theorem Definitions.Admits.isIdentifier {definitions : Definitions} {given text : String}
    {term : Term} (h : definitions.Admits given text term) :
    UntypedLambda.isIdentifier (Text.trimmed given) = true := by
  have hidentifier := Session.isIdentifier_of_isName h.isName
  rwa [Text.trimmed, Text.trimmed, String.toList_ofList, Text.trim_trim] at hidentifier

namespace Session

/-- Sessions in use: calls lead to them, and results may be taken away in between. -/
inductive InUse : Session → Prop where
  /-- A session that calls lead to. -/
  | reached {s : Session} (h : Reachable s) : InUse s
  /-- The oldest result is taken away, if there is one. -/
  | popped {s : Session} (h : InUse s) : InUse (Action.state (pop s))
  /-- One more call. -/
  | call {s : Session} (h : InUse s) (call : Call) : InUse (call.after s)
  /-- Another state of the reporter. -/
  | reported {s : Session} (h : InUse s) (reporter : Reporter) : InUse { s with reporter }

/-- A statement was refused: nothing but the reporter has changed, which has printed nothing and
knows the line. -/
structure Refuses (s : Session) (text : String) (number : Option Int) (s' : Session) : Prop where
  /-- The definitions stay. -/
  definitions : s'.definitions = s.definitions
  /-- What waits stays. -/
  queue : s'.queue = s.queue
  /-- The results stay. -/
  results : s'.results = s.results
  /-- The traces stay. -/
  traces : s'.traces = s.traces
  /-- Nothing is printed. -/
  printed : s'.reporter.printed = s.reporter.printed
  /-- The line is noted. -/
  noted : s'.reporter.traceback.get? s.path = some ⟨some text, number⟩

/-- A statement bound a name. -/
structure Defines (s : Session) (name : String) (s' : Session) : Prop where
  /-- The name is an identifier. -/
  isIdentifier : isIdentifier name = true
  /-- The name is bound to a term in which no defined name is free. -/
  bound : ∃ term, s'.definitions.get? name = some term ∧
    ∀ other ∈ s'.definitions.names, other ∉ term.freeNames
  /-- Other names stand for what they stood for. -/
  others : ∀ other, other ≠ name → s'.definitions.get? other = s.definitions.get? other
  /-- The names keep their order, and a new one comes last. -/
  names : s'.definitions.names =
    if name ∈ s.definitions.names then s.definitions.names else s.definitions.names ++ [name]
  /-- What waits stays. -/
  queue : s'.queue = s.queue
  /-- The results stay. -/
  results : s'.results = s.results
  /-- The traces stay. -/
  traces : s'.traces = s.traces
  /-- The warning is all that is printed. -/
  printed : s'.reporter.printed = s.reporter.printed ++ (shadowing name).map .line
  /-- There is a warning exactly if the name is one of the prelude. -/
  warned : s'.reporter.printed ≠ s.reporter.printed ↔ name ∈ Prelude.table.names

/-- A statement had a term wait. -/
structure Queues (s : Session) (text : String) (number : Option Int) (s' : Session) : Prop where
  /-- The term of the text waits behind what waited before. -/
  queue : ∃ term, s.read text = .ok term ∧ s'.queue = s.queue ++ [⟨number, text, term⟩]
  /-- The definitions stay. -/
  definitions : s'.definitions = s.definitions
  /-- The results stay. -/
  results : s'.results = s.results
  /-- The traces stay. -/
  traces : s'.traces = s.traces
  /-- Nothing is printed. -/
  printed : s'.reporter.printed = s.reporter.printed

variable {s s' : Session} {name text body : String} {term : Term} {number : Option Int}

/-- Taking a result away keeps the definitions. -/
theorem definitions_pop (s : Session) : (Action.state (pop s)).definitions = s.definitions := by
  unfold pop
  rw [Action.bind_of_ok (Action.get_eq_ok.mpr ⟨rfl, rfl⟩)]
  cases s.results <;> rfl

/-- No definition leads back to its own name while a session is in use. -/
theorem InUse.acyclic (h : InUse s) : s.definitions.Acyclic := by
  induction h with
  | reached h => exact h.acyclic
  | @popped s _ ih =>
    rw [definitions_pop]
    exact ih
  | @call s _ call ih => exact (rebinds_after call s).acyclic ih
  | reported _ _ ih => exact ih

/-- A warning is due exactly for the names of the prelude. -/
theorem shadowing_ne_nil_iff : shadowing name ≠ [] ↔ name ∈ Prelude.table.names := by
  unfold shadowing Table.contains
  split <;> simp_all

/-- A statement that is refused leaves everything as it was. -/
theorem refuses_entered (s : Session) (text : String) (number : Option Int) :
    s.Refuses text number (s.entered text number) where
  definitions := rfl
  queue := rfl
  results := rfl
  traces := rfl
  printed := rfl
  noted := Table.get?_put_self _ _ _

/-- A checked definition binds its name only. -/
theorem defines_bound (hacyclic : s.definitions.Acyclic)
    (hadmits : s.definitions.Admits name body term) (text : String) (number : Option Int) :
    s.Defines (Text.trimmed name)
      ((s.entered text number).bound (Text.trimmed name) (s.definitions.expand term)).left where
  isIdentifier := hadmits.isIdentifier
  bound := ⟨_, Table.get?_put_self _ _ _, fun _ => hacyclic.notMem_put hadmits _⟩
  others _ hother := Table.get?_put_of_ne hother _ _
  names := Table.names_put _ _ _
  queue := rfl
  results := rfl
  traces := rfl
  printed := rfl
  warned := by
    rw [← shadowing_ne_nil_iff, not_iff_not]
    exact List.append_right_eq_self.trans List.map_eq_nil_iff

/-- A term that can be read waits, and nothing else changes. -/
theorem queues_queued (h : s.read text = .ok term) (number : Option Int) :
    s.Queues text number (s.queued text number term) where
  queue := ⟨term, h, rfl⟩
  definitions := rfl
  results := rfl
  traces := rfl
  printed := rfl

/-- The line of a path is forgotten at the end of the work on a statement. -/
theorem get?_left (s : Session) : s.left.reporter.traceback.get? s.path = some .none :=
  Table.get?_put_self _ _ _

/-- A statement that binds a name has no term wait. -/
theorem Defines.not_queues (h : s.Defines name s') : ¬s.Queues text number s' := by
  intro hqueues
  obtain ⟨term, -, hqueue⟩ := hqueues.queue
  rw [h.queue] at hqueue
  exact List.cons_ne_nil _ _ (List.self_eq_append_right.mp hqueue)

/-- A statement is refused and changes nothing, or else it does one of two things: if it holds the
sign of a definition, it binds the name in front of the first such sign; if not, its term waits. -/
theorem add_atomic (h : InUse s) (text : String) (number : Option Int) :
    match add text number s with
    | .error _ s' => s.Refuses text number s'
    | .ok _ s' => s'.reporter.traceback.get? s.path = some .none ∧
        Xor (∃ name body, text = name ++ ":=" ++ body ∧ ¬":=".toList <:+: name.toList ∧
            s.Defines (Text.trimmed name) s')
          (¬":=".toList <:+: text.toList ∧ s.Queues text number s') := by
  rcases add_cases text number s with
    ⟨name, body, term, hcut, hadmits, hadd⟩ | ⟨term, hcut, hread, hadd⟩ | ⟨fault, hadd⟩
  · rw [hadd]
    have hdefines := defines_bound h.acyclic hadmits text number
    obtain ⟨htext, hfirst⟩ := Text.eq_of_cut? (by decide) hcut
    exact ⟨get?_left _, .inl ⟨⟨name, body, htext, hfirst, hdefines⟩,
      fun hqueues => hdefines.not_queues hqueues.2⟩⟩
  · rw [hadd]
    have hqueues := queues_queued hread number
    exact ⟨get?_left _, .inr ⟨⟨Text.cut?_eq_none_iff.mp hcut, hqueues⟩,
      fun ⟨_, _, _, _, hdefines⟩ => hdefines.not_queues hqueues⟩⟩
  · rw [hadd]
    exact refuses_entered s text number

/-- A definition that would lead back to its own name, one of a name of the prelude, and a term. -/
theorem add_atomic_each_way :
    let s := Call.after (.start inputPath default true (.start true)) (.define "f" "g x")
    InUse s ∧
      (∃ fault s', add "g := f" (some 3) s = .error fault s' ∧ s.Refuses "g := f" (some 3) s') ∧
      (∃ s' name, add "I := f f" none s = .ok () s' ∧ s.Defines (Text.trimmed name) s' ∧
        s'.reporter.printed ≠ s.reporter.printed) ∧
      ∃ s', add "f" (some 4) s = .ok () s' ∧ s.Queues "f" (some 4) s' := by
  intro s
  have huse : InUse s := .reached ((Reachable.start _ _ _ _).call _)
  have hrefuse := add_atomic huse "g := f" (some 3)
  have hdefine := add_atomic huse "I := f f" none
  have hqueue := add_atomic huse "f" (some 4)
  refine ⟨huse, ?_, ?_, ?_⟩
  · cases hadd : add "g := f" (some 3) s with
    | ok _ s' =>
      have hfails : (Action.outcome (add "g := f" (some 3) s)).toOption = none := by
        decide +kernel
      rw [hadd] at hfails
      nomatch hfails
    | error fault s' =>
      rw [hadd] at hrefuse
      exact ⟨fault, s', rfl, hrefuse⟩
  · have hadd : add "I := f f" none s = .ok () _ := Action.eq_ok_of_outcome (by decide +kernel)
    rw [hadd] at hdefine
    rcases hdefine.2 with ⟨⟨name, _, _, _, hdefines⟩, -⟩ | ⟨⟨hnone, -⟩, -⟩
    · exact ⟨_, name, hadd, hdefines, by decide +kernel⟩
    · exact absurd (by decide +kernel) hnone
  · have hadd : add "f" (some 4) s = .ok () _ := Action.eq_ok_of_outcome (by decide +kernel)
    rw [hadd] at hqueue
    rcases hqueue.2 with ⟨⟨name, body, htext, -, -⟩, -⟩ | ⟨⟨-, hqueues⟩, -⟩
    · have hin : ":=".toList <:+: "f".toList := by
        rw [htext, String.toList_append, String.toList_append]
        exact List.infix_append _ _ _
      exact absurd hin (by decide +kernel)
    · exact ⟨_, hadd, hqueues⟩

end Session

end UntypedLambda
