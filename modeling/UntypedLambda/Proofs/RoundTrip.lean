import Mathlib.Data.List.DropRight
import UntypedLambda.Proofs.CharacterClasses
import UntypedLambda.Proofs.Contraction
import UntypedLambda.Proofs.Reading
import UntypedLambda.Proofs.Spelling

/-!
# Rendering and reading back

The text of a term whose names are identifiers is scanned as a row of tokens that spells the term:
no name runs into the text behind it, and every parenthesis that the parser needs is there. Reading
the text therefore gives the term back. Terms that are read from texts are of this kind.
-/

namespace UntypedLambda

namespace Text

/-- A text that neither starts nor ends with a character of a class is kept where these are removed
at its ends. -/
theorem trimWhile_eq_self {p : Char → Bool} {text : List Char}
    (hfirst : ∀ c ∈ text.head?, p c = false) (hlast : ∀ c ∈ text.getLast?, p c = false) :
    trimWhile p text = text := by
  have hstart : text.dropWhile p = text := by
    cases text with
    | nil => rfl
    | cons c rest => rw [List.dropWhile_cons, hfirst c rfl, if_neg Bool.false_ne_true]
  have hend : text.rdropWhile p = text := by
    refine List.rdropWhile_eq_self_iff.mpr fun hne => ?_
    rw [hlast _ (List.getLast?_eq_some_getLast hne)]
    exact Bool.false_ne_true
  change (text.dropWhile p).rdropWhile p = text
  rw [hstart, hend]

/-- A text that neither starts nor ends with a blank is kept by trimming. -/
theorem trim_eq_self {text : List Char} (hfirst : ∀ c ∈ text.head?, isBlank c = false)
    (hlast : ∀ c ∈ text.getLast?, isBlank c = false) : trim text = text :=
  trimWhile_eq_self hfirst hlast

end Text

/-- The rows of tokens that a term is written as. -/
inductive Spells : Term → List Token → Prop where
  /-- A variable is its name. -/
  | var {name : Token} {text : String} (isName : name.kind = .name)
      (spells : name.value = some text) : Spells (.var text) [name]
  /-- An abstraction stands in parentheses. -/
  | abs {opening lambda param dot closing : Token} {text : String} {body : Term}
      {inside : List Token} (isOpening : opening.kind = .opening) (isLambda : lambda.kind = .lambda)
      (isName : param.kind = .name) (spells : param.value = some text) (isDot : dot.kind = .dot)
      (bodies : Spells body inside) (isClosing : closing.kind = .closing) :
      Spells (.abs text body) (opening :: (lambda :: param :: dot :: inside ++ [closing]))
  /-- A variable is written behind the left side of an application. -/
  | appVar {name : Token} {text : String} {left : Term} {row : List Token}
      (lefts : Spells left row) (isName : name.kind = .name) (spells : name.value = some text) :
      Spells (.app left (.var text)) (row ++ [name])
  /-- Any other right side stands in parentheses. -/
  | app {opening closing : Token} {left right : Term} {row inside : List Token}
      (lefts : Spells left row) (isOpening : opening.kind = .opening) (rights : Spells right inside)
      (isClosing : closing.kind = .closing) :
      Spells (.app left right) (row ++ opening :: (inside ++ [closing]))

/-- A body ends in front of a closing parenthesis. -/
theorem bodyEnds_cons {closing : Token} (isClosing : closing.kind = .closing)
    (follow : List Token) : BodyEnds (closing :: follow) := by
  intro token hmem
  obtain rfl := Option.some.inj hmem
  exact isClosing

/-- An expression that starts with a row that a term is written as is read on after the term. -/
theorem Spells.reads {t : Term} {row : List Token} (h : Spells t row) {others follow : List Token}
    {tree : Term} (tail : Reads (.after (some t)) others follow tree) :
    Reads (.after none) (row ++ others) follow tree := by
  induction h generalizing others follow tree with
  | var isName spells => exact .next (.var isName spells) tail
  | @abs opening lambda param dot closing text body inside isOpening isLambda isName spells isDot
      _ isClosing ih =>
    have hends := bodyEnds_cons isClosing (others ++ follow)
    have hbody : Reads (.after none) (inside ++ []) (closing :: (others ++ follow)) body :=
      ih (.done body)
    rw [List.append_nil] at hbody
    have hatom : Reads .atom (lambda :: param :: dot :: inside)
        ([] ++ closing :: (others ++ follow)) (.abs text body) :=
      .abstraction isLambda isName spells isDot hends hbody
    have hinside : Reads (.after none) (lambda :: param :: dot :: inside ++ [])
        (closing :: (others ++ follow)) (.abs text body) := .next hatom (.done _)
    rw [List.append_nil] at hinside
    exact .next (.parentheses isOpening isClosing hinside) tail
  | appVar _ isName spells ih =>
    rw [List.append_assoc]
    exact ih (.next (.var isName spells) tail)
  | @app opening closing left right row inside _ isOpening _ isClosing ihl ihr =>
    have hright : Reads (.after none) (inside ++ []) (closing :: (others ++ follow)) right :=
      ihr (.done right)
    rw [List.append_nil] at hright
    have hatom : Reads .atom (opening :: (inside ++ [closing])) (others ++ follow) right :=
      .parentheses isOpening isClosing hright
    rw [List.append_assoc]
    exact ihl (.next hatom tail)

namespace Term

/-- The text of a term consists of its names, parentheses, lambdas, dots and spaces. -/
theorem mem_spelling {t : Term} {c : Char} (h : c ∈ t.spelling.toList) :
    c ∈ ['(', 'λ', '.', ' ', ')'] ∨ ∃ name ∈ t.names, c ∈ name.toList := by
  induction t with
  | var name => exact .inr ⟨name, List.mem_singleton_self name, h⟩
  | abs param body ih =>
    simp only [spelling, String.toList_append, List.mem_append] at h
    rcases h with (((hopening | hparam) | hdot) | hbody) | hclosing
    · exact .inl (List.mem_append_left ['.', ' ', ')'] hopening)
    · exact .inr ⟨param, List.mem_cons_self, hparam⟩
    · obtain rfl := List.mem_singleton.mp hdot
      exact .inl (by decide)
    · exact (ih hbody).imp_right
        (Exists.imp fun _ hname => ⟨List.mem_cons_of_mem param hname.1, hname.2⟩)
    · obtain rfl := List.mem_singleton.mp hclosing
      exact .inl (by decide)
  | app left right ihl ihr =>
    have hleft (hc : c ∈ left.spelling.toList) :
        c ∈ ['(', 'λ', '.', ' ', ')'] ∨ ∃ name ∈ (app left right).names, c ∈ name.toList :=
      (ihl hc).imp_right
        (Exists.imp fun _ hname => ⟨List.mem_append_left right.names hname.1, hname.2⟩)
    have hright (hc : c ∈ right.spelling.toList) :
        c ∈ ['(', 'λ', '.', ' ', ')'] ∨ ∃ name ∈ (app left right).names, c ∈ name.toList :=
      (ihr hc).imp_right
        (Exists.imp fun _ hname => ⟨List.mem_append_right left.names hname.1, hname.2⟩)
    by_cases hcompound : right.isCompound = true
    · simp only [spelling_app hcompound, String.toList_append, List.mem_append] at h
      rcases h with ((hfirst | hopening) | hsecond) | hclosing
      · exact hleft hfirst
      · rcases List.mem_pair.mp hopening with rfl | rfl <;> exact .inl (by decide)
      · exact hright hsecond
      · obtain rfl := List.mem_singleton.mp hclosing
        exact .inl (by decide)
    · cases right with
      | var name =>
        simp only [spelling, String.toList_append, List.mem_append] at h
        rcases h with (hfirst | hspace) | hsecond
        · exact hleft hfirst
        · obtain rfl := List.mem_singleton.mp hspace
          exact .inl (by decide)
        · exact hright hsecond
      | abs _ _ => exact absurd rfl hcompound
      | app _ _ => exact absurd rfl hcompound

/-- The text of a term starts with a character that trimming keeps. -/
theorem head_spelling {t : Term} (hnames : ∀ name ∈ t.names, isIdentifier name = true) :
    ∃ first others, t.spelling.toList = first :: others ∧ Text.isBlank first = false := by
  induction t with
  | var name =>
    have hname := hnames name (List.mem_singleton_self name)
    obtain ⟨first, others, hchars, hletter, -⟩ := isIdentifier_cases hname
    exact ⟨first, others, hchars, Text.isBlank_of_isAlphanum (isAlphanum_of_isAlpha hletter)⟩
  | abs param body _ =>
    have hopening : "(λ".toList = ['(', 'λ'] := rfl
    simp only [spelling, String.toList_append, hopening, List.cons_append]
    exact ⟨'(', _, rfl, by decide⟩
  | app left right ihl _ =>
    have hleft := ihl fun name hname => hnames name (List.mem_append_left _ hname)
    obtain ⟨first, others, hchars, hblank⟩ := hleft
    cases right <;>
    · simp only [spelling, String.toList_append, hchars, List.cons_append]
      exact ⟨first, _, rfl, hblank⟩

/-- The text of a term ends with a character that trimming keeps. -/
theorem getLast_spelling {t : Term} (hnames : ∀ name ∈ t.names, isIdentifier name = true) :
    ∀ c ∈ t.spelling.toList.getLast?, Text.isBlank c = false := by
  have hname (before : List Char) {name : String} (h : isIdentifier name = true) :
      ∀ c ∈ (before ++ name.toList).getLast?, Text.isBlank c = false := by
    obtain ⟨first, others, hchars, -, hall⟩ := isIdentifier_cases h
    have hne : name.toList ≠ [] := by rw [hchars]; exact List.cons_ne_nil first others
    rw [List.getLast?_append_of_ne_nil before hne]
    exact fun c hc => Text.isBlank_of_isAlphanum (hall c (List.mem_of_getLast? hc))
  have hclosing (before : List Char) :
      ∀ c ∈ (before ++ ")".toList).getLast?, Text.isBlank c = false := by
    intro c hc
    have hlast : ")".toList = [')'] := rfl
    rw [hlast, List.getLast?_concat] at hc
    obtain rfl := Option.some.inj hc
    decide
  cases t with
  | var name => exact hname [] (hnames name (List.mem_singleton_self name))
  | abs param body =>
    rw [spelling, String.toList_append]
    exact hclosing _
  | app left right =>
    by_cases hcompound : right.isCompound = true
    · rw [spelling_app hcompound, String.toList_append]
      exact hclosing _
    · cases right with
      | var name =>
        rw [spelling, String.toList_append]
        exact hname _ (hnames name (by simp [names]))
      | abs _ _ => exact absurd rfl hcompound
      | app _ _ => exact absurd rfl hcompound

/-- The start of an abstraction is scanned as a lambda, the parameter and a dot. -/
theorem scans_parameter {s : Scanner} {param : String} {rest : List Char}
    (hparam : isIdentifier param = true) (hrest : s.rest = 'λ' :: (param.toList ++ '.' :: rest)) :
    ∃ lambda name dot after, s.Scans [lambda, name, dot] after ∧ lambda.kind = .lambda ∧
      name.kind = .name ∧ name.value = some param ∧ dot.kind = .dot ∧ after.rest = rest := by
  obtain ⟨lambda, s₁, hscans₁, hlambda, hrest₁⟩ :=
    Scanner.scans_single [] hrest (List.forall_mem_nil _) rfl
  have hdotStops : ∀ c ∈ ('.' :: rest).head?, c.isAlphanum = false := by simp
  obtain ⟨name, s₂, hscans₂, hname, hvalue, hrest₂⟩ :=
    Scanner.scans_name [] hrest₁ (List.forall_mem_nil _) hparam hdotStops
  obtain ⟨dot, after, hscans₃, hdot, hafter⟩ :=
    Scanner.scans_single [] hrest₂ (List.forall_mem_nil _) rfl
  have hscans : s.Scans [lambda, name, dot] after := hscans₁.append (hscans₂.append hscans₃)
  exact ⟨lambda, name, dot, after, hscans, hlambda, hname, hvalue, hdot, hafter⟩

/-- A scanner in front of the text of a term reads tokens that the term is written as. -/
theorem scans_spelling {t : Term} (hnames : ∀ name ∈ t.names, isIdentifier name = true)
    {s : Scanner} (gap : List Char) {rest : List Char}
    (hrest : s.rest = gap ++ (t.spelling.toList ++ rest))
    (hgap : ∀ c ∈ gap, Scanner.isSpace c = true)
    (hstop : ∀ c ∈ rest.head?, c.isAlphanum = false) :
    ∃ row after, s.Scans row after ∧ Spells t row ∧ after.rest = rest := by
  induction t generalizing s gap rest with
  | var name =>
    have hname := hnames name (List.mem_singleton_self name)
    obtain ⟨token, after, hscans, hkind, hvalue, hafter⟩ :=
      Scanner.scans_name gap hrest hgap hname hstop
    exact ⟨[token], after, hscans, .var hkind hvalue, hafter⟩
  | abs param body ih =>
    have hparam := hnames param List.mem_cons_self
    have hbody : ∀ name ∈ body.names, isIdentifier name = true :=
      fun name hname => hnames name (List.mem_cons_of_mem param hname)
    have htext : s.rest = gap ++ '(' :: 'λ' :: (param.toList ++
        '.' :: ([] ++ (body.spelling.toList ++ ')' :: rest))) := by
      rw [hrest, spelling]
      simp
    obtain ⟨opening, s₁, hscans₁, hopening, hrest₁⟩ := Scanner.scans_single gap htext hgap rfl
    obtain ⟨lambda, name, dot, s₂, hscans₂, hlambda, hname, hvalue, hdot, hrest₂⟩ :=
      scans_parameter hparam hrest₁
    have hclosingStops : ∀ c ∈ (')' :: rest).head?, c.isAlphanum = false := by simp
    obtain ⟨inside, s₃, hscans₃, hspells, hrest₃⟩ :=
      ih hbody [] hrest₂ (List.forall_mem_nil _) hclosingStops
    obtain ⟨closing, after, hscans₄, hclosing, hafter⟩ :=
      Scanner.scans_single [] hrest₃ (List.forall_mem_nil _) rfl
    have hrow : s.Scans (opening :: (lambda :: name :: dot :: inside ++ [closing])) after :=
      hscans₁.append ((hscans₂.append hscans₃).append hscans₄)
    exact ⟨_, after, hrow, .abs hopening hlambda hname hvalue hdot hspells hclosing, hafter⟩
  | app left right ihl ihr =>
    have hleft : ∀ name ∈ left.names, isIdentifier name = true :=
      fun name hname => hnames name (List.mem_append_left _ hname)
    have hright : ∀ name ∈ right.names, isIdentifier name = true :=
      fun name hname => hnames name (List.mem_append_right _ hname)
    have hblank : ∀ c ∈ [' '], Scanner.isSpace c = true := List.forall_mem_singleton.mpr rfl
    by_cases hcompound : right.isCompound = true
    · have htext : s.rest = gap ++ (left.spelling.toList ++
          ([' '] ++ '(' :: ([] ++ (right.spelling.toList ++ ')' :: rest)))) := by
        rw [hrest, spelling_app hcompound]
        simp
      obtain ⟨row, s₁, hscans₁, hlefts, hrest₁⟩ := ihl hleft gap htext hgap (by simp)
      obtain ⟨opening, s₂, hscans₂, hopening, hrest₂⟩ :=
        Scanner.scans_single [' '] hrest₁ hblank rfl
      obtain ⟨inside, s₃, hscans₃, hrights, hrest₃⟩ :=
        ihr hright [] hrest₂ (List.forall_mem_nil _) (by simp)
      obtain ⟨closing, after, hscans₄, hclosing, hafter⟩ :=
        Scanner.scans_single [] hrest₃ (List.forall_mem_nil _) rfl
      have hrow : s.Scans (row ++ opening :: (inside ++ [closing])) after :=
        hscans₁.append (hscans₂.append (hscans₃.append hscans₄))
      exact ⟨_, after, hrow, .app hlefts hopening hrights hclosing, hafter⟩
    · cases right with
      | var name =>
        have htext : s.rest = gap ++ (left.spelling.toList ++
            ([' '] ++ (name.toList ++ rest))) := by
          rw [hrest, spelling]
          simp
        have hname := hright name (List.mem_singleton_self name)
        obtain ⟨row, s₁, hscans₁, hlefts, hrest₁⟩ := ihl hleft gap htext hgap (by simp)
        obtain ⟨token, after, hscans₂, hkind, hvalue, hafter⟩ :=
          Scanner.scans_name [' '] hrest₁ hblank hname hstop
        exact ⟨_, after, hscans₁.append hscans₂, .appVar hlefts hkind hvalue, hafter⟩
      | abs _ _ => exact absurd rfl hcompound
      | app _ _ => exact absurd rfl hcompound

/-- Trimming keeps the text of a term. -/
theorem trim_spelling {t : Term} (hnames : ∀ name ∈ t.names, isIdentifier name = true) :
    Text.trim t.spelling.toList = t.spelling.toList := by
  obtain ⟨first, others, hchars, hblank⟩ := head_spelling hnames
  refine Text.trim_eq_self (fun c hc => ?_) (getLast_spelling hnames)
  rw [hchars] at hc
  obtain rfl := Option.some.inj hc
  exact hblank

/-- The text of a term whose names are identifiers is read as the term. -/
theorem parse_render_of_names {t : Term} (hnames : ∀ name ∈ t.names, isIdentifier name = true) :
    Term.parse t.render = .ok t := by
  have htext : (Scanner.ofString t.render).rest = [] ++ (t.spelling.toList ++ []) := by
    rw [render_eq_spelling, List.append_nil]
    exact trim_spelling hnames
  obtain ⟨row, between, hscans, hspells, hrest⟩ :=
    scans_spelling hnames [] htext (List.forall_mem_nil _) (by simp)
  obtain ⟨eof, after, hlast, heof⟩ := Scanner.next_end hrest
  have hreads : Reads (.after none) (row ++ []) [] t := hspells.reads (.done t)
  rw [List.append_nil] at hreads
  exact parse_eq_ok_iff.mpr ⟨row, between, eof, after, hscans, hlast, heof, hreads⟩

/-- Reading undoes rendering: a term all of whose names are identifiers is read back from its text,
and so is every term that was read from some text. -/
theorem parse_render :
    (∀ t : Term, (∀ name ∈ t.names, isIdentifier name = true) → Term.parse t.render = .ok t) ∧
      ∀ text t, Term.parse text = .ok t → Term.parse t.render = .ok t :=
  ⟨fun _ hnames => parse_render_of_names hnames,
    fun _ _ h => parse_render_of_names (isIdentifier_of_parse h)⟩

/-- An abstraction in the argument and an application on the right are read back from their text,
and a text with needless parentheses and spaces is read as what its shorter text is read as. -/
theorem parse_render_nested :
    let t := app (abs "x" (app (var "x") (abs "y1" (var "y1")))) (app (var "a") (var "b"))
    let u := abs "x" (app (var "x") (var "y"))
    t.render = "(λx.x ((λy1.y1))) (a b)" ∧ Term.parse t.render = .ok t ∧
      Term.parse " \\x . (x) y" = .ok u ∧ Term.parse u.render = .ok u := by
  intro t u
  have hrender : t.render = "(λx.x ((λy1.y1))) (a b)" := by rw [render_eq_spelling]; rfl
  have hnames : ∀ name ∈ t.names, isIdentifier name = true := by decide
  have hsome : (Term.parse " \\x . (x) y").toOption = some u := by decide +kernel
  have hread : Term.parse " \\x . (x) y" = .ok u := toOption_eq_some.mp hsome
  exact ⟨hrender, parse_render.1 t hnames, hread, parse_render.2 _ u hread⟩

end Term

end UntypedLambda
