import UntypedLambda.Proofs.ReachableSession
import UntypedLambda.Proofs.RecursiveStep
import UntypedLambda.Proofs.RoundTrip

/-!
# Names with primes

The names that can be typed are identifiers, and so are those of the prelude. Substitution makes a
name only by putting primes behind another one; hence steps, evaluation and the expansion of
definitions lead from terms whose names are identifiers with primes to terms with such names, and in
every session that can be reached all definitions have such names. This tells which characters the
text of a term can hold.
-/

namespace UntypedLambda

/-- Whether a name is an identifier with any number of primes behind it. -/
def IsPrimed (name : String) : Prop :=
  ∃ base primes, isIdentifier base = true ∧
    name = base ++ String.ofList (List.replicate primes '\'')

/-- An identifier has no primes, which is a number of them. -/
theorem isPrimed_of_isIdentifier {name : String} (h : isIdentifier name = true) :
    IsPrimed name :=
  ⟨name, 0, h, String.append_empty.symm⟩

/-- One more prime. -/
theorem IsPrimed.prime {name : String} (h : IsPrimed name) : IsPrimed (name ++ "'") := by
  obtain ⟨base, primes, hbase, rfl⟩ := h
  refine ⟨base, primes + 1, hbase, ?_⟩
  rw [String.append_assoc, List.replicate_succ', String.ofList_append]

/-- Letters, digits and primes are all that such a name holds. -/
theorem IsPrimed.mem_toList {name : String} (h : IsPrimed name) :
    ∀ c ∈ name.toList, c.isAlphanum = true ∨ c = '\'' := by
  obtain ⟨base, primes, hbase, rfl⟩ := h
  obtain ⟨_, _, -, -, hall⟩ := isIdentifier_cases hbase
  intro c hc
  rw [String.toList_append, List.mem_append, String.toList_ofList] at hc
  exact hc.imp (hall c) List.eq_of_mem_replicate

namespace Term

/-- Whether all names of a term are identifiers with primes. -/
def Primed (t : Term) : Prop := ∀ name ∈ t.names, IsPrimed name

/-- A variable has its name only. -/
@[simp]
theorem primed_var {name : String} : (var name).Primed ↔ IsPrimed name :=
  List.forall_mem_singleton

/-- An abstraction has its parameter and the names of its body. -/
@[simp]
theorem primed_abs {param : String} {body : Term} :
    (abs param body).Primed ↔ IsPrimed param ∧ body.Primed :=
  List.forall_mem_cons

/-- An application has the names of both sides. -/
@[simp]
theorem primed_app {left right : Term} :
    (app left right).Primed ↔ left.Primed ∧ right.Primed :=
  List.forall_mem_append

/-- A fresh name has more primes than its base. -/
theorem isPrimed_fresh {base : String} (h : IsPrimed base) (t : Term) :
    IsPrimed (fresh base t) := by
  have hunused (name : String) : IsPrimed name → IsPrimed (t.unused name) := by
    fun_induction unused t name with
    | case1 name _ ih => exact fun hname => ih hname.prime
    | case2 name _ => exact id
  exact hunused _ h.prime

/-- Substitution makes no names but by adding primes. -/
theorem Primed.subst {t new : Term} {name : String} (h : t.Primed) (hnew : new.Primed) :
    (t.subst name new).Primed := by
  induction t, name, new using subst_induction with
  | var x name new =>
    rw [subst_var]
    split
    · exact hnew
    · exact h
  | shadowed body name new => rwa [subst_abs_self]
  | renamed param body name new hparam hfree hbody ihrename ihsubst =>
    obtain ⟨hname, hinner⟩ := primed_abs.mp h
    have hfresh : IsPrimed (fresh param (app new body)) := isPrimed_fresh hname _
    rw [subst_abs_renamed hparam hfree hbody, primed_abs]
    exact ⟨hfresh, ihsubst _ (ihrename _ hinner (primed_var.mpr hfresh)) hnew⟩
  | kept param body name new hparam hnone ih =>
    obtain ⟨hname, hinner⟩ := primed_abs.mp h
    rw [subst_abs_kept hparam hnone, primed_abs]
    exact ⟨hname, ih hinner hnew⟩
  | app left right name new ihl ihr =>
    obtain ⟨hleft, hright⟩ := primed_app.mp h
    rw [subst_app, primed_app]
    exact ⟨ihl hleft hnew, ihr hright hnew⟩

/-- A step makes no names but by adding primes. -/
theorem Primed.step? {t u : Term} (h : t.Primed) (hstep : t.step? = some u) : u.Primed := by
  rw [step?_eq_reduceOnce?] at hstep
  induction t generalizing u with
  | var name =>
    rw [reduceOnce?] at hstep
    cases hstep
  | abs param body ih =>
    obtain ⟨hparam, hbody⟩ := primed_abs.mp h
    rw [reduceOnce?] at hstep
    obtain ⟨body', hbody', rfl⟩ := Option.map_eq_some_iff.mp hstep
    exact primed_abs.mpr ⟨hparam, ih hbody hbody'⟩
  | app left right ihl ihr =>
    obtain ⟨hleft, hright⟩ := primed_app.mp h
    rw [reduceOnce?.eq_def] at hstep
    dsimp only at hstep
    split at hstep
    · next left' hleft' =>
      obtain rfl := Option.some.inj hstep
      exact primed_app.mpr ⟨ihl hleft hleft', hright⟩
    · split at hstep
      · next right' hright' =>
        obtain rfl := Option.some.inj hstep
        exact primed_app.mpr ⟨hleft, ihr hright hright'⟩
      · split at hstep
        · next param body _ _ =>
          obtain rfl := Option.some.inj hstep
          exact (primed_abs.mp hleft).2.subst hright
        · cases hstep

/-- A run makes no names but by adding primes. -/
theorem Primed.run {t result : Term} {earlier : List Term} (h : t.Primed)
    (hrun : Run t earlier result) : result.Primed := by
  induction hrun with
  | normal _ => exact h
  | step hstep _ ih => exact ih (h.step? hstep)

/-- Evaluation makes no names but by adding primes. -/
theorem Primed.evaluate {t result : Term} {budget : Int} (h : t.Primed)
    (hresult : t.evaluate budget = .ok result) : result.Primed := by
  obtain ⟨earlier, -, hrun⟩ := run_of_evaluate hresult
  exact h.run hrun

/-- The names of a term that is read are identifiers. -/
theorem primed_of_readLiterals {text : String} {t : Term}
    (h : Session.readLiterals text = .ok t) : t.Primed := by
  obtain ⟨expanded, -, hparse⟩ := except_bind_eq_ok.mp h
  exact fun name hname => isPrimed_of_isIdentifier (isIdentifier_of_parse hparse name hname)

/-- The text of a term with such names holds letters, digits, primes, and no others than those of
the layout. -/
theorem Primed.mem_render {t : Term} (h : t.Primed) {c : Char} (hc : c ∈ t.render.toList) :
    c.isAlphanum = true ∨ c ∈ ['\'', '(', 'λ', '.', ' ', ')'] := by
  rw [render_eq_spelling] at hc
  rcases mem_spelling hc with hlayout | ⟨name, hname, hmem⟩
  · exact .inr (List.mem_cons_of_mem _ hlayout)
  · rcases (h name hname).mem_toList c hmem with halphanum | rfl
    · exact .inl halphanum
    · exact .inr List.mem_cons_self

end Term

namespace Definitions

/-- Whether all names of all definitions are identifiers with primes. -/
def Primed (definitions : Definitions) : Prop := ∀ entry ∈ definitions.entries, entry.2.Primed

variable {definitions : Definitions}

/-- Expansion makes no names but by adding primes. -/
theorem Primed.expand (h : definitions.Primed) {t : Term} (ht : t.Primed) :
    (definitions.expand t).Primed :=
  keeps_expand Term.Primed.subst h ht

/-- The prelude has no primes. -/
theorem primed_prelude : Primed Prelude.table := by
  have hnames : ∀ entry ∈ Prelude.table.entries, ∀ name ∈ entry.2.names,
      isIdentifier name = true := by decide +kernel
  exact fun entry hentry name hname => isPrimed_of_isIdentifier (hnames entry hentry name hname)

/-- Binding a name makes no names but by adding primes. -/
theorem Rebinds.primed {changed : Definitions} (h : definitions.Rebinds changed)
    (hprimed : definitions.Primed) : changed.Primed :=
  h.keeps Term.Primed.subst primed_prelude Term.primed_of_readLiterals hprimed

end Definitions

namespace Session

/-- The names in the definitions of a session that can be reached are identifiers with primes. -/
theorem Reachable.primed {s : Session} (h : Reachable s) : s.definitions.Primed :=
  h.invariant Definitions.primed_prelude fun _ _ hprimed hrebinds => hrebinds.primed hprimed

/-- The names of a term that is read and expanded are identifiers with primes. -/
theorem primed_of_read {s : Session} (h : s.definitions.Primed) {text : String} {t : Term}
    (hread : s.read text = .ok t) : t.Primed := by
  unfold read at hread
  cases hliterals : readLiterals text with
  | error fault =>
    rw [hliterals] at hread
    nomatch hread
  | ok typed =>
    rw [hliterals] at hread
    obtain rfl : s.definitions.expand typed = t := Except.ok.inj hread
    exact h.expand (Term.primed_of_readLiterals hliterals)

end Session

end UntypedLambda
