import UntypedLambda.Proofs.PrimedNames

/-!
# A text is the text of one term

A name with primes is no identifier, so the text of a term with such names is not read back. It
tells the term all the same. Every character of a name can be replaced by two letters or digits,
from which it is told again; this turns a name with primes into an identifier. What comes of the
text of a term when the characters of its names are replaced is the text of the term with the
replaced names, and that text is read back.
-/

namespace UntypedLambda

namespace Text

/-- The two letters or digits that a character of a name is replaced by. -/
def paired (c : Char) : List Char :=
  [if c = '\'' then 'x' else c, if c = '\'' then '1' else '0']

/-- A character is told from the two that it is replaced by. -/
theorem paired_injective : Function.Injective paired := by
  intro c d h
  simp only [paired, List.cons.injEq, and_true] at h
  obtain ⟨hfirst, hsecond⟩ := h
  by_cases hc : c = '\'' <;> by_cases hd : d = '\'' <;> simp_all

/-- A text is told from what its characters are replaced by. -/
theorem flatMap_paired_injective :
    Function.Injective fun text : List Char => text.flatMap paired := by
  intro first
  induction first with
  | nil =>
    rintro (_ | ⟨d, second⟩) h
    · rfl
    · nomatch h
  | cons c first ih =>
    rintro (_ | ⟨d, second⟩) h
    · nomatch h
    · have hboth : paired c ++ first.flatMap paired = paired d ++ second.flatMap paired := h
      obtain ⟨hhead, htail⟩ := List.append_inj hboth rfl
      rw [paired_injective hhead, ih htail]

/-- The characters that the text of a term holds besides its names. -/
def layout : List Char := ['(', 'λ', '.', ' ', ')']

/-- What a character of the text of a term is replaced by: only the characters of names change. -/
def replaced (c : Char) : List Char := if c ∈ layout then [c] else paired c

/-- A name with its characters replaced. -/
def pairedName (name : String) : String := String.ofList (name.toList.flatMap paired)

/-- A name is told from what it is replaced by. -/
theorem pairedName_injective : Function.Injective pairedName := fun _ _ h =>
  String.toList_inj.mp (flatMap_paired_injective (String.ofList_injective h))

end Text

/-- No character of an identifier with primes belongs to the layout. -/
theorem IsPrimed.notMem_layout {name : String} (h : IsPrimed name) :
    ∀ c ∈ name.toList, c ∉ Text.layout := by
  have hlayout : Text.layout.all (fun c => !(c.isAlphanum || c == '\'')) = true := by decide
  intro c hc hmem
  have hother := List.all_eq_true.mp hlayout c hmem
  rcases h.mem_toList c hc with halphanum | rfl
  · rw [halphanum] at hother
    nomatch hother
  · nomatch hother

/-- The characters of an identifier with primes are replaced as those of a name. -/
theorem IsPrimed.flatMap_replaced {name : String} (h : IsPrimed name) :
    name.toList.flatMap Text.replaced = (Text.pairedName name).toList := by
  rw [Text.pairedName, String.toList_ofList]
  refine List.flatMap_congr fun c hc => ?_
  rw [Text.replaced, if_neg (h.notMem_layout c hc)]

/-- An identifier with primes is replaced by an identifier. -/
theorem IsPrimed.isIdentifier_pairedName {name : String} (h : IsPrimed name) :
    isIdentifier (Text.pairedName name) = true := by
  have hall : ∀ c ∈ (Text.pairedName name).toList, c.isAlphanum = true := by
    intro c hc
    rw [Text.pairedName, String.toList_ofList] at hc
    obtain ⟨d, hd, hmem⟩ := List.mem_flatMap.mp hc
    have hclass := h.mem_toList d hd
    rcases List.mem_pair.mp hmem with rfl | rfl <;> split <;> simp_all
  obtain ⟨base, primes, hbase, rfl⟩ := h
  obtain ⟨first, others, hchars, hletter, -⟩ := isIdentifier_cases hbase
  have hfirst : first ≠ '\'' := by
    rintro rfl
    nomatch hletter
  have hchars' : (Text.pairedName (base ++ String.ofList (List.replicate primes '\''))).toList =
      first :: '0' :: (others ++ List.replicate primes '\'').flatMap Text.paired := by
    rw [Text.pairedName, String.toList_ofList, String.toList_append, hchars, String.toList_ofList,
      List.cons_append, List.flatMap_cons, Text.paired, if_neg hfirst, if_neg hfirst]
    rfl
  unfold isIdentifier
  rw [hchars'] at hall ⊢
  exact Bool.and_eq_true_iff.mpr
    ⟨hletter, List.all_eq_true.mpr (List.forall_mem_cons.mp hall).2⟩

namespace Term

/-- The term with all of its names replaced, those of parameters included. -/
def mapNames (f : String → String) : Term → Term
  | var name => var (f name)
  | abs param body => abs (f param) (body.mapNames f)
  | app left right => app (left.mapNames f) (right.mapNames f)

/-- A term is told from the term with its names replaced, if every name is. -/
theorem mapNames_injective {f : String → String} (hf : Function.Injective f) :
    Function.Injective (mapNames f) := by
  intro t
  induction t with
  | var name =>
    rintro (other | _ | _) h
    · rw [hf (Term.var.inj h)]
    · nomatch h
    · nomatch h
  | abs param body ih =>
    rintro (_ | ⟨other, body'⟩ | _) h
    · nomatch h
    · obtain ⟨hparam, hbody⟩ := Term.abs.inj h
      rw [hf hparam, ih hbody]
    · nomatch h
  | app left right ihl ihr =>
    rintro (_ | _ | ⟨left', right'⟩) h
    · nomatch h
    · nomatch h
    · obtain ⟨hleft, hright⟩ := Term.app.inj h
      rw [ihl hleft, ihr hright]

/-- Every name of a term with replaced names is a replaced name of the term. -/
theorem names_mapNames (f : String → String) (t : Term) :
    (t.mapNames f).names = t.names.map f := by
  induction t with
  | var name => rfl
  | abs param body ih => rw [mapNames, names, names, List.map_cons, ih]
  | app left right ihl ihr => rw [mapNames, names, names, List.map_append, ihl, ihr]

/-- Replacing the characters of names in the text of a term gives the text of the term with its
names replaced. -/
theorem Primed.spelling_mapNames {t : Term} (h : t.Primed) :
    (t.mapNames Text.pairedName).spelling.toList = t.spelling.toList.flatMap Text.replaced := by
  induction t with
  | var name => exact (primed_var.mp h).flatMap_replaced.symm
  | abs param body ih =>
    obtain ⟨hparam, hbody⟩ := primed_abs.mp h
    simp only [mapNames, spelling, String.toList_append, List.flatMap_append, ih hbody,
      hparam.flatMap_replaced]
    rfl
  | app left right ihl ihr =>
    obtain ⟨hleft, hright⟩ := primed_app.mp h
    by_cases hcompound : right.isCompound = true
    · have hmapped : (right.mapNames Text.pairedName).isCompound = true := by
        cases right with
        | var name => cases hcompound
        | abs param body => rfl
        | app first second => rfl
      rw [mapNames, spelling_app hmapped, spelling_app hcompound]
      simp only [String.toList_append, List.flatMap_append, ihl hleft, ihr hright]
      rfl
    · cases right with
      | var name =>
        simp only [mapNames, spelling, String.toList_append, List.flatMap_append, ihl hleft,
          (primed_var.mp hright).flatMap_replaced]
        rfl
      | abs param body => exact absurd rfl hcompound
      | app first second => exact absurd rfl hcompound

/-- The text of a term with replaced names is read back. -/
theorem Primed.parse_mapNames {t : Term} (h : t.Primed) :
    Term.parse (t.mapNames Text.pairedName).render = .ok (t.mapNames Text.pairedName) := by
  refine parse_render_of_names fun name hname => ?_
  rw [names_mapNames] at hname
  obtain ⟨original, horiginal, rfl⟩ := List.mem_map.mp hname
  exact (h original horiginal).isIdentifier_pairedName

/-- Two terms whose names are identifiers with any number of primes, those of parameters included,
are equal if their texts are. -/
theorem render_injective {t u : Term} (ht : t.Primed) (hu : u.Primed)
    (h : t.render = u.render) : t = u := by
  have hmapped : (t.mapNames Text.pairedName).render = (u.mapNames Text.pairedName).render := by
    rw [render_eq_spelling, render_eq_spelling] at h ⊢
    refine String.toList_inj.mp ?_
    rw [ht.spelling_mapNames, hu.spelling_mapNames, h]
  have hread := ht.parse_mapNames
  rw [hmapped, hu.parse_mapNames] at hread
  exact (mapNames_injective Text.pairedName_injective (Except.ok.inj hread)).symm

/-- A substitution that renames a parameter, next to another parameter with the same prime: its
result is told from its text. -/
theorem render_injective_renamed :
    let body := app (app (var "x") (var "y")) (abs "y'" (var "x"))
    let t := (abs "y" body).subst "x" (var "y")
    let u := abs "y'" (app (app (var "y") (var "y'")) (abs "y'" (var "y")))
    t.Primed ∧ u.Primed ∧ t.render = "(λy'.y y' ((λy'.y)))" ∧ u.render = t.render ∧ t = u := by
  intro body t u
  have hx : IsPrimed "x" := isPrimed_of_isIdentifier rfl
  have hy : IsPrimed "y" := isPrimed_of_isIdentifier rfl
  have hprimed : IsPrimed "y'" := hy.prime
  have hbody : body.Primed := by
    simp only [body, primed_app, primed_abs, primed_var, hx, hy, hprimed, and_self]
  have ht : t.Primed := (primed_abs.mpr ⟨hy, hbody⟩).subst (primed_var.mpr hy)
  have hu : u.Primed := by
    simp only [u, primed_app, primed_abs, primed_var, hy, hprimed, and_self]
  have hrender : t.render = "(λy'.y y' ((λy'.y)))" := by decide +kernel
  have hsame : u.render = t.render := by decide +kernel
  exact ⟨ht, hu, hrender, hsame, render_injective ht hu hsame.symm⟩

end Term

end UntypedLambda
