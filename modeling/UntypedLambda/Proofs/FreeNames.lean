import UntypedLambda.Proofs.Budget
import UntypedLambda.Proofs.PrimedNames

/-!
# Free names have no primes

Substitution keeps the free names but for the one that it replaces, and brings in those of the new
term only where that name is free. So a contraction makes no name free, and neither do steps. The
names that are made by adding primes are parameters and bound by them: what is free in a text that
is read is an identifier, and stays one through steps and the expansion of definitions.
-/

namespace UntypedLambda

namespace Term

/-- What is free in an abstraction is free in its body. -/
theorem freeNames_body_subset {param : String} {body : Term} :
    (abs param body).freeNames ⊆ body.freeNames :=
  List.filter_subset_self _

/-- The free names are among all names. -/
theorem freeNames_subset_names (t : Term) : t.freeNames ⊆ t.names := by
  induction t with
  | var name => exact List.Subset.refl _
  | abs param body ih =>
    exact fun x hx => List.mem_cons_of_mem _ (ih (freeNames_body_subset hx))
  | app left right ihl ihr =>
    exact List.append_subset.mpr ⟨List.Subset.trans ihl (List.subset_append_left _ _),
      List.Subset.trans ihr (List.subset_append_right _ _)⟩

/-- The names of a node are among all names. -/
theorem names_node_subset {t sub : Term} (h : sub ∈ t.nodes) : sub.names ⊆ t.names := by
  cases t with
  | var name => nomatch h
  | abs param body =>
    obtain rfl := List.mem_singleton.mp h
    exact List.subset_cons_self _ _
  | app left right =>
    rcases List.mem_pair.mp h with rfl | rfl
    · exact List.subset_append_left _ _
    · exact List.subset_append_right _ _

/-- The names of a sub term are among all names. -/
theorem names_get_subset {t sub : Term} {path : Path} (h : t.get path = .ok sub) :
    sub.names ⊆ t.names := by
  induction path generalizing t with
  | nil =>
    obtain rfl := Except.ok.inj h
    exact List.Subset.refl _
  | cons index path ih =>
    obtain ⟨inner, hnode, hinner⟩ := get_cons_eq_ok.mp h
    exact List.Subset.trans (ih hinner) (names_node_subset (mem_nodes_of_node hnode))

/-- A contraction makes no name free. -/
theorem ContractsAt.freeNames_subset {path : Path} {t u : Term} (h : ContractsAt path t u) :
    u.freeNames ⊆ t.freeNames := by
  induction h with
  | root param body argument =>
    intro x hx
    rcases mem_freeNames_subst.mp hx with ⟨hbody, hother⟩ | ⟨-, hargument⟩
    · have hfree : x ∈ (Term.abs param body).freeNames :=
        List.mem_filter.mpr ⟨hbody, decide_eq_true hother⟩
      exact List.mem_append_left _ hfree
    · exact List.mem_append_right _ hargument
  | abs param _ ih => exact List.filter_subset _ ih
  | left right _ ih =>
    exact List.append_subset.mpr
      ⟨List.Subset.trans ih (List.subset_append_left _ _), List.subset_append_right _ _⟩
  | right left _ ih =>
    exact List.append_subset.mpr
      ⟨List.subset_append_left _ _, List.Subset.trans ih (List.subset_append_right _ _)⟩

/-- A step makes no name free. -/
theorem freeNames_step?_subset {t u : Term} (h : t.step? = some u) :
    u.freeNames ⊆ t.freeNames := by
  obtain ⟨path, -, hcontract⟩ := step?_eq_some.mp h
  exact hcontract.freeNames_subset

/-- Steps make no name free. -/
theorem freeNames_after?_subset {t u : Term} {count : Nat} (h : t.after? count = some u) :
    u.freeNames ⊆ t.freeNames := by
  induction count generalizing t with
  | zero =>
    obtain rfl := Option.some.inj h
    exact List.Subset.refl _
  | succ count ih =>
    obtain ⟨next, hstep, hrest⟩ := Option.bind_eq_some_iff.mp h
    exact List.Subset.trans (ih hrest) (freeNames_step?_subset hstep)

/-- A term whose free names are identifiers and whose other names may have primes. -/
structure WellNamed (t : Term) : Prop where
  /-- No free name has primes. -/
  free : ∀ name ∈ t.freeNames, isIdentifier name = true
  /-- Every name is an identifier with primes or without. -/
  primed : t.Primed

namespace WellNamed

variable {t u new : Term}

/-- Identifiers are all that can be read. -/
theorem of_parse {text : String} (h : Term.parse text = .ok t) : t.WellNamed where
  free name hname := isIdentifier_of_parse h name (t.freeNames_subset_names hname)
  primed name hname := isPrimed_of_isIdentifier (isIdentifier_of_parse h name hname)

/-- Identifiers are all that can be read where numbers stand for numerals. -/
theorem of_readLiterals {text : String} (h : Session.readLiterals text = .ok t) : t.WellNamed := by
  obtain ⟨expanded, -, hparse⟩ := except_bind_eq_ok.mp h
  exact of_parse hparse

/-- A substitution leaves primes to parameters. -/
theorem subst {name : String} (h : t.WellNamed) (hnew : new.WellNamed) :
    (t.subst name new).WellNamed where
  free x hx := by
    rcases mem_freeNames_subst.mp hx with ⟨hold, -⟩ | ⟨-, hin⟩
    · exact h.free x hold
    · exact hnew.free x hin
  primed := h.primed.subst hnew.primed

/-- A step leaves primes to parameters. -/
theorem step? (h : t.WellNamed) (hstep : t.step? = some u) : u.WellNamed where
  free x hx := h.free x (freeNames_step?_subset hstep hx)
  primed := h.primed.step? hstep

/-- A parameter is an identifier with primes or without. -/
theorem isPrimed_param (h : t.WellNamed) {path : Path} {param : String} {body : Term}
    (hget : t.get path = .ok (abs param body)) : IsPrimed param :=
  h.primed param (names_get_subset hget List.mem_cons_self)

end WellNamed

end Term

/-- No name is free in the prelude, and its parameters have no primes. -/
theorem Definitions.wellNamed_prelude : ∀ entry ∈ Prelude.table.entries, entry.2.WellNamed :=
  fun entry hentry =>
    { free := fun name hname => by
        rw [freeNames_prelude entry hentry] at hname
        nomatch hname
      primed := primed_prelude entry hentry }

namespace Session

/-- The terms that a text leads to in a session. -/
inductive LeadsTo (s : Session) (text : String) : Term → Prop where
  /-- The text is read as it is. -/
  | parsed {t : Term} (h : Term.parse text = .ok t) : LeadsTo s text t
  /-- The text is read with numbers for numerals. -/
  | read {t : Term} (h : readLiterals text = .ok t) : LeadsTo s text t
  /-- The definitions of the session are put in. -/
  | expanded {t : Term} (h : LeadsTo s text t) : LeadsTo s text (s.definitions.expand t)
  /-- A step is taken. -/
  | step {t u : Term} (h : LeadsTo s text t) (taken : t.step? = some u) : LeadsTo s text u

/-- The definitions of a session that can be reached have primes in parameters only. -/
theorem Reachable.wellNamed {s : Session} (h : Reachable s) :
    ∀ entry ∈ s.definitions.entries, entry.2.WellNamed :=
  h.invariant Definitions.wellNamed_prelude fun _ _ hentries hrebinds =>
    hrebinds.keeps Term.WellNamed.subst Definitions.wellNamed_prelude
      Term.WellNamed.of_readLiterals hentries

/-- Whatever a text leads to has primes in parameters only. -/
theorem LeadsTo.wellNamed {s : Session} (hs : Reachable s) {text : String} {t : Term}
    (h : s.LeadsTo text t) : t.WellNamed := by
  induction h with
  | parsed hparse => exact .of_parse hparse
  | read hread => exact .of_readLiterals hread
  | expanded _ ih => exact Definitions.keeps_expand Term.WellNamed.subst hs.wellNamed ih
  | step _ taken ih => exact ih.step? taken

/-- Free names come from the term or from what is put into it, so steps make no name free; and
wherever a text leads to, the free names are identifiers, and the parameters are identifiers that
may have primes behind them. -/
theorem primes_stay_bound :
    (∀ (t : Term) (name : String) (new : Term) (x : String),
      x ∈ (t.subst name new).freeNames ↔
        x ∈ t.freeNames ∧ x ≠ name ∨ name ∈ t.freeNames ∧ x ∈ new.freeNames) ∧
    (∀ (t u : Term) (count : Nat), t.after? count = some u → u.freeNames ⊆ t.freeNames) ∧
    ∀ s, Reachable s → ∀ text u, s.LeadsTo text u →
      (∀ name ∈ u.freeNames, isIdentifier name = true) ∧
      ∀ path param body, u.get path = .ok (.abs param body) → IsPrimed param := by
  refine ⟨fun t name new x => Term.mem_freeNames_subst,
    fun t u count => Term.freeNames_after?_subset, fun s hs text u hu => ?_⟩
  have hnamed : u.WellNamed := hu.wellNamed hs
  exact ⟨hnamed.free, fun path param body => hnamed.isPrimed_param⟩

/-- A definition that is put in and applied to the name of one of its parameters: the parameter gets
a prime, and the name stays free. -/
theorem primes_stay_bound_renamed :
    let s := Call.after (.start inputPath default true (.start true)) (.define "f" "λx.λy.x")
    let t := Term.app (.abs "x" (.abs "y" (.var "x"))) (.var "y")
    let u := Term.abs "y'" (.var "y")
    Reachable s ∧ s.LeadsTo "f y" u ∧ t.after? 1 = some u ∧ u.freeNames ⊆ t.freeNames ∧
      "y" ∈ ((Term.abs "y" (.var "x")).subst "x" (.var "y")).freeNames ∧
      isIdentifier "y" = true ∧ IsPrimed "y'" ∧ isIdentifier "y'" = false := by
  intro s t u
  obtain ⟨hsubst, hsteps, hleads⟩ := primes_stay_bound
  have hreachable : Reachable s := (Reachable.start _ _ _ _).call _
  have hparse : Term.parse "f y" = .ok (.app (.var "f") (.var "y")) :=
    Term.toOption_eq_some.mp (by decide +kernel)
  have hexpand : s.definitions.expand (.app (.var "f") (.var "y")) = t := by decide +kernel
  have hstep : t.step? = some u := by decide +kernel
  have hexpanded : s.LeadsTo "f y" t := hexpand ▸ (LeadsTo.parsed hparse).expanded
  have hu : s.LeadsTo "f y" u := hexpanded.step hstep
  have hafter : t.after? 1 = some u := by rw [Term.after?, hstep, Option.bind_some, Term.after?]
  obtain ⟨hfree, hparams⟩ := hleads s hreachable _ _ hu
  have hput := (hsubst (.abs "y" (.var "x")) "x" (.var "y") "y").mpr (by decide)
  exact ⟨hreachable, hu, hafter, hsteps t u 1 hafter, hput, hfree "y" (by decide),
    hparams [] "y'" (.var "y") rfl, by decide⟩

end Session

end UntypedLambda
