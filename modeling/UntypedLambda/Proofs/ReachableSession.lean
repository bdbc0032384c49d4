import UntypedLambda.Proofs.ExpansionLoop
import UntypedLambda.Proofs.SessionWork

/-!
# Sessions that can be reached

Whatever is asked of a session, and whether or not it succeeds, the definitions are kept, go back to
those of the prelude, or get one more that passed the checks. The checks see to it that the new
definition refers to no other, so no definition ever leads back to its own name. That is what the
expansion of a term needs in order to come to an end.
-/

namespace UntypedLambda

/-- What a call may do to the definitions. -/
inductive Definitions.Rebinds (definitions : Definitions) : Definitions → Prop where
  /-- The definitions stay. -/
  | kept : Rebinds definitions definitions
  /-- Only the prelude is left. -/
  | cleared : Rebinds definitions Prelude.table
  /-- A definition that passed the checks is bound. -/
  | bound {name text : String} {term : Term} (h : definitions.Admits name text term) :
      Rebinds definitions (definitions.put (Text.trimmed name) (definitions.expand term))

/-- No name is free in a definition of the prelude. -/
theorem Definitions.freeNames_prelude :
    ∀ entry ∈ Prelude.table.entries, entry.2.freeNames = [] := by
  decide +kernel

/-- The definitions of the prelude refer to nothing. -/
theorem Definitions.acyclic_prelude : Acyclic Prelude.table := by
  refine acyclic_of_not_refers fun name other ⟨term, hentry, hfree, _⟩ => ?_
  rw [freeNames_prelude _ hentry] at hfree
  exact absurd hfree List.not_mem_nil

/-- Binding a checked definition makes no cycle. -/
theorem Definitions.Rebinds.acyclic {definitions changed : Definitions}
    (h : definitions.Rebinds changed) (hacyclic : definitions.Acyclic) : changed.Acyclic := by
  cases h with
  | kept => exact hacyclic
  | cleared => exact acyclic_prelude
  | bound hadmits => exact hacyclic.put hadmits.notMem_expand (hacyclic.notMem_expand _)

/-- What holds of the prelude and of all terms that are read, and is kept by substitution, holds of
all definitions still after a call. -/
theorem Definitions.Rebinds.keeps {kept : Term → Prop} {definitions changed : Definitions}
    (h : definitions.Rebinds changed)
    (hsubst : ∀ {t new : Term} {name : String}, kept t → kept new → kept (t.subst name new))
    (hprelude : ∀ entry ∈ Prelude.table.entries, kept entry.2)
    (hread : ∀ {text : String} {t : Term}, Session.readLiterals text = .ok t → kept t)
    (hentries : ∀ entry ∈ definitions.entries, kept entry.2) :
    ∀ entry ∈ changed.entries, kept entry.2 := by
  cases h with
  | kept => exact hentries
  | cleared => exact hprelude
  | bound hadmits =>
    rintro ⟨name, term⟩ hentry
    rcases Table.mem_put.mp hentry with ⟨-, rfl⟩ | ⟨-, hbefore⟩
    · exact keeps_expand hsubst hentries (hread hadmits.reads)
    · exact hentries _ hbefore

namespace Session

/-- What can be asked of a session. -/
inductive Call where
  /-- To bind the term of a text to a name. -/
  | define (name text : String)
  /-- To work on a statement. -/
  | add (text : String) (number : Option Int)
  /-- To evaluate the terms in the queue. -/
  | run (traced : Bool)
  /-- To go back to the prelude. -/
  | clear

/-- The session after a call, whether or not the call failed. -/
def Call.after (s : Session) : Call → Session
  | define name text => Action.state (Session.define name text s)
  | add text number => Action.state (Session.add text number s)
  | run traced => Action.state (Session.run traced s)
  | clear => Action.state (Session.clear s)

/-- The sessions that calls lead to, one after the other. The reporter is not the session's own:
it may be changed in between, as it is when a failed call is dealt with. -/
inductive Reachable : Session → Prop where
  /-- A fresh session. -/
  | start (path : String) (calculus : Calculus) (interactive : Bool) (reporter : Reporter) :
      Reachable (.start path calculus interactive reporter)
  /-- One more call. -/
  | call {s : Session} (h : Reachable s) (call : Call) : Reachable (call.after s)
  /-- Another state of the reporter. -/
  | reported {s : Session} (h : Reachable s) (reporter : Reporter) : Reachable { s with reporter }

/-- A definition binds its name, or changes no definitions. -/
theorem rebinds_define (name text : String) (s : Session) :
    s.definitions.Rebinds (Action.state (define name text s)).definitions := by
  by_cases hadmits : ∃ term, s.definitions.Admits name text term
  · obtain ⟨term, hterm⟩ := hadmits
    rw [define_of_admits hterm]
    exact .bound hterm
  · obtain ⟨fault, hfault⟩ := define_of_not_admits (not_exists.mp hadmits)
    rw [hfault]
    exact .kept

/-- A statement binds a name, or changes no definitions. -/
theorem rebinds_add (text : String) (number : Option Int) (s : Session) :
    s.definitions.Rebinds (Action.state (add text number s)).definitions := by
  rcases add_cases text number s with
    ⟨name, body, term, -, hterm, hadd⟩ | ⟨term, -, -, hadd⟩ | ⟨fault, hadd⟩
  · rw [hadd]
    exact .bound hterm
  · rw [hadd]
    exact .kept
  · rw [hadd]
    exact .kept

/-- A call binds at most one name. -/
theorem rebinds_after (call : Call) (s : Session) :
    s.definitions.Rebinds (call.after s).definitions := by
  cases call with
  | define name text => exact rebinds_define name text s
  | add text number => exact rebinds_add text number s
  | run traced =>
    have hkept : (Call.after s (.run traced)).definitions = s.definitions :=
      definitions_runQueue traced s.queue s
    rw [hkept]
    exact .kept
  | clear => exact .cleared

/-- What holds of the prelude and stays true whenever a name is bound holds of the definitions of
every session that can be reached. -/
theorem Reachable.invariant {invariant : Definitions → Prop} (initially : invariant Prelude.table)
    (preserved : ∀ definitions changed : Definitions,
      invariant definitions → definitions.Rebinds changed → invariant changed)
    {s : Session} (h : Reachable s) : invariant s.definitions := by
  induction h with
  | start path calculus interactive reporter => exact initially
  | call _ call ih => exact preserved _ _ ih (rebinds_after call _)
  | reported _ _ ih => exact ih

/-- No definition leads back to its own name. -/
theorem Reachable.acyclic {s : Session} (h : Reachable s) : s.definitions.Acyclic :=
  h.invariant Definitions.acyclic_prelude fun _ _ hacyclic hrebinds => hrebinds.acyclic hacyclic

/-- Several calls lead to a session that can be reached. -/
theorem Reachable.calls {s : Session} (h : Reachable s) (calls : List Call) :
    Reachable (calls.foldl Call.after s) := by
  induction calls generalizing s with
  | nil => exact h
  | cons call calls ih => exact ih (h.call call)

/-- Working on statements one after the other is calling. -/
theorem Reachable.addAll {s : Session} (h : Reachable s) (statements : List Statement) :
    Reachable (Action.state (addAll statements s)) := by
  induction statements generalizing s with
  | nil => exact h
  | cons statement statements ih =>
    have hnext : Reachable (Action.state (add statement.text (some (statement.line : Int)) s)) :=
      h.call (.add statement.text (some (statement.line : Int)))
    unfold Session.addAll
    cases hadd : add statement.text (some (statement.line : Int)) s with
    | ok _ t =>
      rw [hadd] at hnext
      rw [Action.bind_of_ok hadd]
      exact ih hnext
    | error fault t =>
      rw [hadd] at hnext
      rw [Action.bind_of_error hadd]
      exact hnext

/-- Working on a file leads from a fresh session to one that can be reached. -/
theorem Reachable.load {s : Session} (h : Reachable s) (interactive : Bool)
    (contents : Option String) : Reachable (Action.state (load interactive contents s)) := by
  unfold Session.load
  rw [Action.bind_of_ok (Action.get_eq_ok.mpr ⟨rfl, rfl⟩)]
  split
  · split <;> exact h
  · split
    · exact h
    · split
      · exact h
      · exact h.addAll _

/-- In every session that can be reached, the definitions refer to one another without cycles; the
passes over them come to an end, which is the expansion and has no defined name free. -/
theorem expansion_ends {s : Session} (h : Reachable s) :
    s.definitions.Acyclic ∧
      ∀ t, (∀ result, s.definitions.Expands t result ↔ result = s.definitions.expand t) ∧
        ∀ name ∈ s.definitions.names, name ∉ (s.definitions.expand t).freeNames := by
  refine ⟨h.acyclic, fun t => ⟨fun result => ⟨fun hresult => ?_, ?_⟩, h.acyclic.notMem_expand t⟩⟩
  · exact hresult.unique (h.acyclic.expands t)
  · rintro rfl
    exact h.acyclic.expands t

/-- A definition that mentions names before they are defined, a refused definition that would lead
back to its own name, and a name of the prelude that is bound anew. -/
theorem expansion_ends_names_defined_later :
    let calls : List Call := [.define "f" "g x", .add "g := f" none, .add "x := λy.y" none,
      .define "g" "x x", .add "I := f" none]
    let s := calls.foldl Call.after (.start inputPath default true (.start true))
    let t := Term.abs "y" (.var "y")
    Reachable s ∧ s.definitions.Refers "f" "g" ∧ s.definitions.Refers "f" "x" ∧
      s.definitions.Acyclic ∧ s.definitions.Expands (.var "I") (.app (.app t t) t) ∧
      "g" ∉ (s.definitions.expand (.var "I")).freeNames := by
  intro calls s t
  have hreachable : Reachable s := (Reachable.start _ _ _ _).calls calls
  have hends := expansion_ends hreachable
  have hentry : ("f", Term.app (.var "g") (.var "x")) ∈ s.definitions.entries := by decide +kernel
  have hg : "g" ∈ s.definitions.names := by decide +kernel
  have hx : "x" ∈ s.definitions.names := by decide +kernel
  have hresult : Term.app (.app t t) t = s.definitions.expand (.var "I") := by decide +kernel
  exact ⟨hreachable, ⟨_, hentry, by decide, hg⟩, ⟨_, hentry, by decide, hx⟩, hends.1,
    ((hends.2 _).1 _).mpr hresult, (hends.2 _).2 "g" hg⟩

end Session

end UntypedLambda
