import UntypedLambda.Proofs.Dependency
import UntypedLambda.Proofs.Substitution

/-!
# Expansion comes to an end

A pass puts every definition in place of its name, so whatever defined names are free after it came
from definitions that were put in. They rank below the names that they came in place of: if no
definition leads back to its own name, each pass lowers the highest rank, and as there are fewer
ranks than definitions, the passes that the expansion may use are enough.
-/

namespace UntypedLambda.Definitions

/-- Runs of the expansion, each pass over the whole table, with the term that they end at. -/
inductive Expands (definitions : Definitions) : Term → Term → Prop where
  /-- No defined name is free, so nothing is put in any more. -/
  | done {t : Term} (hnone : definitions.mentions t = false) : Expands definitions t t
  /-- A defined name is free, so there is another pass. -/
  | again {t result : Term} (hsome : definitions.mentions t = true)
      (rest : Expands definitions (definitions.pass t) result) : Expands definitions t result

/-- Whether all defined names that are free in a term have a rank below a bound. -/
def RanksBelow (definitions : Definitions) (bound : Nat) (t : Term) : Prop :=
  ∀ name ∈ definitions.names, name ∈ t.freeNames → definitions.rank name < bound

variable {definitions : Definitions}

/-- No defined name is free where none is found. -/
theorem mentions_eq_false_iff {t : Term} :
    definitions.mentions t = false ↔ ∀ name ∈ definitions.names, name ∉ t.freeNames := by
  simp [mentions, Term.free_eq_false_iff]

/-- A run ends at a term in which no defined name is free. -/
theorem Expands.mentions_eq_false {t result : Term} (h : Expands definitions t result) :
    definitions.mentions result = false := by
  induction h with
  | done hnone => exact hnone
  | again _ _ ih => exact ih

/-- A run ends at one term only. -/
theorem Expands.unique {t result other : Term} (h : Expands definitions t result)
    (h' : Expands definitions t other) : result = other := by
  induction h with
  | done hnone =>
    cases h' with
    | done _ => rfl
    | again hsome _ => exact absurd (hnone.symm.trans hsome) Bool.false_ne_true
  | again hsome _ ih =>
    cases h' with
    | done hnone => exact absurd (hnone.symm.trans hsome) Bool.false_ne_true
    | again _ rest => exact ih rest

/-- Every name that is free after a definition is put in was free before, and is not the name that
it was put in place of, or is free in the definition. -/
theorem mem_freeNames_unfold {t term : Term} {name x : String}
    (h : x ∈ (unfold t (name, term)).freeNames) :
    x ∈ t.freeNames ∧ x ≠ name ∨ name ∈ t.freeNames ∧ x ∈ term.freeNames := by
  unfold unfold at h
  split at h
  · exact Term.mem_freeNames_subst.mp h
  · next hfree =>
    have habsent : name ∉ t.freeNames := fun hname => hfree (Term.free_eq_true_iff.mpr hname)
    exact .inl ⟨h, fun hx => habsent (hx ▸ h)⟩

/-- The rest of a pass leaves only names of lower ranks, if those of the highest rank are still to
be replaced. -/
theorem ranksBelow_foldl (h : definitions.Acyclic) {bound : Nat} {rest : List (String × Term)}
    (hrest : ∀ entry ∈ rest, entry ∈ definitions.entries) {t : Term}
    (hrank : ∀ name ∈ definitions.names, name ∈ t.freeNames →
      definitions.rank name ≤ bound ∧ (name ∈ rest.map Prod.fst ∨ definitions.rank name < bound)) :
    RanksBelow definitions bound (rest.foldl unfold t) := by
  induction rest generalizing t with
  | nil => exact fun name hdefined hfree => (hrank name hdefined hfree).2.resolve_left nofun
  | cons entry rest ih =>
    obtain ⟨name, term⟩ := entry
    have hentry : (name, term) ∈ definitions.entries := hrest _ List.mem_cons_self
    refine ih (fun entry hmem => hrest entry (List.mem_cons_of_mem _ hmem)) ?_
    intro other hdefined hfree
    rcases mem_freeNames_unfold hfree with ⟨hold, hother⟩ | ⟨hname, hnew⟩
    · obtain ⟨hle, hcases⟩ := hrank other hdefined hold
      exact ⟨hle, hcases.imp_left fun hmem => (List.mem_cons.mp hmem).resolve_left hother⟩
    · have hbound : definitions.rank name ≤ bound :=
        (hrank name (List.mem_map.mpr ⟨_, hentry, rfl⟩) hname).1
      have hlower : definitions.rank other < definitions.rank name :=
        h.rank_lt ⟨term, hentry, hnew, hdefined⟩
      exact ⟨by omega, .inr (by omega)⟩

/-- A pass lowers the highest rank. -/
theorem ranksBelow_pass (h : definitions.Acyclic) {bound : Nat} {t : Term}
    (hrank : RanksBelow definitions (bound + 1) t) :
    RanksBelow definitions bound (definitions.pass t) := by
  refine ranksBelow_foldl h (fun _ hmem => hmem) fun name hdefined hfree => ?_
  exact ⟨Nat.le_of_lt_succ (hrank name hdefined hfree), .inl hdefined⟩

/-- As many passes as there are ranks are a whole run. -/
theorem expands_expandWithin (h : definitions.Acyclic) {passes : Nat} {t : Term}
    (hrank : RanksBelow definitions passes t) :
    Expands definitions t (definitions.expandWithin passes t) := by
  induction passes generalizing t with
  | zero =>
    refine .done (mentions_eq_false_iff.mpr fun name hdefined hfree => ?_)
    exact absurd (hrank name hdefined hfree) (Nat.not_lt_zero _)
  | succ passes ih =>
    unfold expandWithin
    cases hmentions : definitions.mentions t with
    | true => exact .again hmentions (ih (ranksBelow_pass h hrank))
    | false => exact .done hmentions

/-- The expansion is a whole run. -/
theorem Acyclic.expands (h : definitions.Acyclic) (t : Term) :
    Expands definitions t (definitions.expand t) :=
  expands_expandWithin h fun _ hdefined _ => h.rank_lt_length hdefined

/-- No defined name is free in an expanded term. -/
theorem Acyclic.notMem_expand (h : definitions.Acyclic) (t : Term) :
    ∀ name ∈ definitions.names, name ∉ (definitions.expand t).freeNames :=
  mentions_eq_false_iff.mp (h.expands t).mentions_eq_false

/-- What substitution keeps holds after some definitions are put in, if it holds of the term and of
these definitions. -/
theorem keeps_foldl_unfold {kept : Term → Prop}
    (hsubst : ∀ {t new : Term} {name : String}, kept t → kept new → kept (t.subst name new))
    {entries : List (String × Term)} (hentries : ∀ entry ∈ entries, kept entry.2) {t : Term}
    (ht : kept t) : kept (entries.foldl unfold t) := by
  induction entries generalizing t with
  | nil => exact ht
  | cons entry entries ih =>
    obtain ⟨hentry, hothers⟩ := List.forall_mem_cons.mp hentries
    have hnext : kept (unfold t entry) := by
      rw [unfold]
      split
      · exact hsubst ht hentry
      · exact ht
    exact ih hothers hnext

/-- What substitution keeps holds of an expanded term, if it holds of the term and of all
definitions. -/
theorem keeps_expand {kept : Term → Prop}
    (hsubst : ∀ {t new : Term} {name : String}, kept t → kept new → kept (t.subst name new))
    (hentries : ∀ entry ∈ definitions.entries, kept entry.2) {t : Term} (ht : kept t) :
    kept (definitions.expand t) := by
  unfold expand
  generalize definitions.entries.length = passes
  induction passes generalizing t with
  | zero => exact ht
  | succ passes ih =>
    unfold expandWithin
    split
    · exact ih (keeps_foldl_unfold hsubst hentries ht)
    · exact ht

/-- Definitions of names that are not free are not put in. -/
theorem foldl_unfold_of_notMem {entries : List (String × Term)} {t : Term}
    (h : ∀ entry ∈ entries, entry.1 ∉ t.freeNames) : entries.foldl unfold t = t := by
  induction entries with
  | nil => rfl
  | cons entry rest ih =>
    obtain ⟨hentry, hrest⟩ := List.forall_mem_cons.mp h
    rw [List.foldl_cons, unfold, Term.free_eq_false_iff.mpr hentry, if_neg Bool.false_ne_true]
    exact ih hrest

/-- A term without defined names is left as it is. -/
theorem expandWithin_of_notMem {t : Term} (h : ∀ name ∈ definitions.names, name ∉ t.freeNames)
    (passes : Nat) : definitions.expandWithin passes t = t := by
  cases passes with
  | zero => rfl
  | succ passes =>
    rw [expandWithin, mentions_eq_false_iff.mpr h, if_neg Bool.false_ne_true]

section Single

variable {t term : Term} {name : String}

/-- Where a single defined name is free, a pass puts its definition in, if no defined name is free
in the result. -/
theorem pass_of_single (hentry : (name, term) ∈ definitions.entries) (hname : name ∈ t.freeNames)
    (honly : ∀ x ∈ definitions.names, x ∈ t.freeNames → x = name)
    (hresult : ∀ x ∈ definitions.names, x ∉ (t.subst name term).freeNames) :
    definitions.pass t = t.subst name term := by
  obtain ⟨before, after, hsplit⟩ := List.append_of_mem hentry
  have hkeys : (before.map Prod.fst ++ name :: after.map Prod.fst).Nodup := by
    have hdistinct := definitions.distinct
    rwa [hsplit, List.map_append, List.map_cons] at hdistinct
  have hbefore : ∀ entry ∈ before, entry.1 ∉ t.freeNames := by
    intro entry hmem hfree
    have hin : entry ∈ definitions.entries := hsplit ▸ List.mem_append_left _ hmem
    have hne := (List.nodup_append.mp hkeys).2.2 _ (List.mem_map_of_mem hmem) name
      List.mem_cons_self
    exact hne (honly _ (List.mem_map_of_mem hin) hfree)
  have hafter : ∀ entry ∈ after, entry.1 ∉ (t.subst name term).freeNames := by
    intro entry hmem
    have hin : entry ∈ definitions.entries :=
      hsplit ▸ List.mem_append_right _ (List.mem_cons_of_mem _ hmem)
    exact hresult _ (List.mem_map_of_mem hin)
  rw [pass, hsplit, List.foldl_append, foldl_unfold_of_notMem hbefore, List.foldl_cons, unfold,
    Term.free_eq_true_iff.mpr hname, if_pos rfl]
  exact foldl_unfold_of_notMem hafter

/-- A term with a single defined name, whose definition has none, is expanded by putting that
definition in. -/
theorem expand_of_single (hentry : (name, term) ∈ definitions.entries) (hname : name ∈ t.freeNames)
    (honly : ∀ x ∈ definitions.names, x ∈ t.freeNames → x = name)
    (hterm : ∀ x ∈ definitions.names, x ∉ term.freeNames) :
    definitions.expand t = t.subst name term := by
  have hresult : ∀ x ∈ definitions.names, x ∉ (t.subst name term).freeNames := by
    intro x hx hfree
    rcases Term.mem_freeNames_subst.mp hfree with ⟨hold, hne⟩ | ⟨-, hnew⟩
    · exact hne (honly x hx hold)
    · exact hterm x hx hnew
  have hmentions : definitions.mentions t = true := by
    rw [← Bool.not_eq_false, mentions_eq_false_iff]
    exact fun hnone => hnone name (List.mem_map_of_mem hentry) hname
  have hsome : definitions.entries.length ≠ 0 :=
    (List.length_pos_iff.mpr (List.ne_nil_of_mem hentry)).ne'
  obtain ⟨count, hcount⟩ := Nat.exists_eq_succ_of_ne_zero hsome
  rw [expand, hcount, Nat.succ_eq_add_one, expandWithin, if_pos hmentions,
    pass_of_single hentry hname honly hresult]
  exact expandWithin_of_notMem hresult count

end Single

end UntypedLambda.Definitions
