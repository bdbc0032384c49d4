import UntypedLambda.Proofs.Nameless.Reduction

/-!
# Contractions that keep a term from ending

From some terms every run of contractions ends. Such a term can come from one that has endless runs,
but only if the contraction in between discards what can go on for ever, or what will be able to
once something is put in place of an index in it. A contraction that is sparing does neither. It is
first looked at where it is a contraction of the head of a term. A sparing contraction anywhere else
shows as one of the head once the contractions of heads have led there, which is what the relation
between a term and its standard reducts says; it is kept when terms are filled in.
-/

namespace UntypedLambda

open Relation (ReflTransGen)

/-- Whether no run of steps is longer than a number. -/
def EndsWithin {α : Type} (step : α → α → Prop) : Nat → α → Prop
  | 0, a => ∀ b, ¬step a b
  | bound + 1, a => ∀ b, step a b → EndsWithin step bound b

namespace EndsWithin

variable {α β : Type} {step : α → α → Prop} {other : β → β → Prop} {a b : α} {bound : Nat}

/-- A run may always be shorter. -/
theorem succ (h : EndsWithin step bound a) : EndsWithin step (bound + 1) a := by
  induction bound generalizing a with
  | zero => exact fun b hstep => absurd hstep (h b)
  | succ bound ih => exact fun b hstep => ih (h b hstep)

/-- A larger number bounds the runs as well. -/
theorem mono (h : EndsWithin step bound a) {larger : Nat} (hle : bound ≤ larger) :
    EndsWithin step larger a := by
  induction hle with
  | refl => exact h
  | step _ ih => exact ih.succ

/-- After a step, runs are shorter by one. -/
theorem exists_less (h : EndsWithin step bound a) (hstep : step a b) :
    ∃ less, bound = less + 1 ∧ EndsWithin step less b := by
  cases bound with
  | zero => exact absurd hstep (h b)
  | succ less => exact ⟨less, rfl, h b hstep⟩

/-- Runs are as short as those after the first step allow. -/
theorem of_forall (h : ∀ b, step a b → ∃ less < bound, EndsWithin step less b) :
    EndsWithin step bound a := by
  cases bound with
  | zero =>
    intro b hstep
    obtain ⟨less, hless, -⟩ := h b hstep
    exact Nat.not_lt_zero less hless
  | succ bound =>
    intro b hstep
    obtain ⟨less, hless, hends⟩ := h b hstep
    exact hends.mono (Nat.le_of_lt_succ hless)

/-- After a run, runs are not longer. -/
theorem of_run (h : EndsWithin step bound a) (hrun : ReflTransGen step a b) :
    EndsWithin step bound b := by
  induction hrun with
  | refl => exact h
  | tail _ hstep ih =>
    obtain ⟨less, rfl, hless⟩ := ih.exists_less hstep
    exact hless.succ

/-- Runs are not longer than those of other steps that keep up with them. -/
theorem of_follows {R : α → β → Prop}
    (hfollows : ∀ a b a', R a b → step a a' → ∃ b', other b b' ∧ R a' b')
    {a : α} {b : β} (hrelated : R a b) (h : EndsWithin other bound b) :
    EndsWithin step bound a := by
  induction bound generalizing a b with
  | zero =>
    intro a' hstep
    obtain ⟨b', hother, -⟩ := hfollows a b a' hrelated hstep
    exact h b' hother
  | succ bound ih =>
    intro a' hstep
    obtain ⟨b', hother, hnext⟩ := hfollows a b a' hrelated hstep
    exact ih hnext (h b' hother)

/-- Where a function turns steps into steps, runs of its arguments are not longer than those of its
values. -/
theorem of_map {f : α → β} (hmap : ∀ a b, step a b → other (f a) (f b))
    (h : EndsWithin other bound (f a)) : EndsWithin step bound a := by
  refine of_follows (R := fun a b => b = f a) ?_ rfl h
  rintro a _ a' rfl hstep
  exact ⟨f a', hmap a a' hstep, rfl⟩

/-- If different steps from one place can be joined by one more step each, one step tells how long
all runs can be. -/
theorem of_diamond
    (hdiamond : ∀ a b c, step a b → step a c → b = c ∨ ∃ d, step b d ∧ step c d)
    (hstep : step a b) (h : EndsWithin step bound b) : EndsWithin step (bound + 1) a := by
  induction bound generalizing a b with
  | zero =>
    intro c hc
    obtain rfl | ⟨d, hd, -⟩ := hdiamond a b c hstep hc
    · exact h
    · exact absurd hd (h d)
  | succ bound ih =>
    intro c hc
    obtain rfl | ⟨d, hd, hcd⟩ := hdiamond a b c hstep hc
    · exact h
    · exact ih hcd (h d hd)

end EndsWithin

namespace Nameless

/-- Whether an index that points out of a term occurs in it. -/
def Occurs (index : Nat) : Nameless → Prop
  | bound other => other = index
  | free _ => False
  | abs body => body.Occurs (index + 1)
  | app left right => left.Occurs index ∨ right.Occurs index

/-- Whether all runs of contractions are shorter than some number. -/
def Ends (t : Nameless) : Prop := ∃ bound, EndsWithin Beta bound t

/-- A contraction at the head of a term, with the body and the argument of its redex. -/
inductive Head (body argument : Nameless) : Nameless → Nameless → Prop where
  /-- The redex is the whole term. -/
  | contract : Head body argument (app (abs body) argument) (body.instantiate argument)
  /-- The redex is the head of the left side. -/
  | left {left left' : Nameless} (right : Nameless) (step : Head body argument left left') :
      Head body argument (app left right) (app left' right)

/-- Terms with a variable at the head. -/
inductive Neutral : Nameless → Prop where
  /-- An index is its own head. -/
  | bound (index : Nat) : Neutral (bound index)
  /-- A free name is its own head. -/
  | free (name : String) : Neutral (free name)
  /-- The head of an application is that of its left side. -/
  | app {left : Nameless} (right : Nameless) (h : Neutral left) : Neutral (app left right)

/-- Whether an argument is put into a body; or else all its runs end, and nothing can be put in
place of an index in it. -/
def Spared (body argument : Nameless) : Prop :=
  body.Occurs 0 ∨ (∀ index, ¬argument.Occurs index) ∧ argument.Ends

/-- A sparing contraction at the head. -/
def HeadSpares (t u : Nameless) : Prop :=
  ∃ body argument, Spared body argument ∧ Head body argument t u

/-- A sparing contraction anywhere in a term. -/
inductive Spares : Nameless → Nameless → Prop where
  /-- The redex is the whole term. -/
  | contract {body argument : Nameless} (h : Spared body argument) :
      Spares (app (abs body) argument) (body.instantiate argument)
  /-- The redex is in the body. -/
  | abs {body body' : Nameless} (step : Spares body body') : Spares (abs body) (abs body')
  /-- The redex is in the left side. -/
  | left {left left' : Nameless} (right : Nameless) (step : Spares left left') :
      Spares (app left right) (app left' right)
  /-- The redex is in the right side. -/
  | right (left : Nameless) {right right' : Nameless} (step : Spares right right') :
      Spares (app left right) (app left right')

/-- Terms and what they reduce to by sparing contractions of the head, then of the heads of the
parts, and so on. -/
inductive Standard : Nameless → Nameless → Prop where
  /-- The term reduces to an index. -/
  | bound {t : Nameless} {index : Nat} (hrun : ReflTransGen HeadSpares t (bound index)) :
      Standard t (bound index)
  /-- The term reduces to a free name. -/
  | free {t : Nameless} {name : String} (hrun : ReflTransGen HeadSpares t (free name)) :
      Standard t (free name)
  /-- The term reduces to an abstraction, and its body further. -/
  | abs {t body body' : Nameless} (hrun : ReflTransGen HeadSpares t (abs body))
      (bodies : Standard body body') : Standard t (abs body')
  /-- The term reduces to an application, and its sides further. -/
  | app {t left left' right right' : Nameless} (hrun : ReflTransGen HeadSpares t (app left right))
      (lefts : Standard left left') (rights : Standard right right') :
      Standard t (app left' right')

section Contraction

variable {t u body body' argument left right : Nameless} {bound : Nat}

/-- Filling terms in keeps a contraction. -/
theorem Beta.fill (h : Beta t u) (σ : Nat → Nameless) (τ : String → Nameless) :
    Beta (t.fill σ τ) (u.fill σ τ) := by
  induction h generalizing σ τ with
  | contract body argument =>
    rw [fill_instantiate]
    exact .contract _ _
  | abs _ ih => exact .abs (ih _ _)
  | left right _ ih => exact .left _ (ih σ τ)
  | right left _ ih => exact .right _ (ih σ τ)

/-- A term that is carried below a binder contracts as before. -/
theorem Beta.shift (h : Beta t u) : Beta t.shift u.shift := by
  unfold Nameless.shift
  rw [reindex_eq_fill, reindex_eq_fill]
  exact h.fill _ _

/-- A contracted argument can be put in by contractions. -/
theorem betas_instantiate (body : Nameless) (h : Beta t u) :
    ReflTransGen Beta (body.instantiate t) (body.instantiate u) :=
  ((Parallel.refl body).instantiate h.parallel).betas

/-- A contraction at the head is a contraction. -/
theorem Head.beta (h : Head body argument t u) : Beta t u := by
  induction h with
  | contract => exact .contract body argument
  | left right _ ih => exact .left right ih

/-- A contraction of a term with a redex at its head is that of the head, or leaves the redex there
with another body or around the same body, or with another argument. -/
theorem Head.beta_cases {v : Nameless} (h : Head body argument t u) (hstep : Beta t v) :
    v = u ∨ (∃ body' w, Head body' argument v w ∧ Beta u w) ∨
      ∃ argument' w, Beta argument argument' ∧ Head body argument' v w ∧
        ReflTransGen Beta u w := by
  induction h generalizing v with
  | contract =>
    cases hstep with
    | contract _ _ => exact .inl rfl
    | left _ step =>
      cases step with
      | @abs _ body' step => exact .inr (.inl ⟨body', _, .contract, step.fill _ _⟩)
    | @right _ _ argument' step =>
      exact .inr (.inr ⟨argument', _, step, .contract, betas_instantiate body step⟩)
  | @left left left' right hleft ih =>
    cases hstep with
    | contract _ _ => nomatch hleft
    | left _ step =>
      rcases ih step with rfl | ⟨body', w, hhead, hbeta⟩ | ⟨argument', w, harg, hhead, hbetas⟩
      · exact .inl rfl
      · exact .inr (.inl ⟨body', _, .left right hhead, .left right hbeta⟩)
      · exact .inr (.inr ⟨argument', _, harg, .left right hhead, betas_app hbetas .refl⟩)
    | right _ step => exact .inr (.inl ⟨body, _, .left _ hleft, .right _ step⟩)

/-- A term is an abstraction, has a variable at the head, or has a redex there. -/
theorem abs_or_neutral_or_head (t : Nameless) :
    (∃ body, t = abs body) ∨ Neutral t ∨ ∃ body argument u, Head body argument t u := by
  induction t with
  | bound index => exact .inr (.inl (.bound index))
  | free name => exact .inr (.inl (.free name))
  | abs body _ => exact .inl ⟨body, rfl⟩
  | app left right ihl _ =>
    rcases ihl with ⟨body, rfl⟩ | hneutral | ⟨body, argument, u, hhead⟩
    · exact .inr (.inr ⟨body, right, _, .contract⟩)
    · exact .inr (.inl (.app right hneutral))
    · exact .inr (.inr ⟨body, argument, _, .left right hhead⟩)

/-- Contractions keep a variable at the head. -/
theorem Neutral.beta (h : Neutral t) (hstep : Beta t u) : Neutral u := by
  induction h generalizing u with
  | bound index => nomatch hstep
  | free name => nomatch hstep
  | app right hleft ih =>
    cases hstep with
    | contract _ _ => nomatch hleft
    | left _ step => exact .app right (ih step)
    | right _ step => exact .app _ hleft

end Contraction

section Occurrence

variable {t : Nameless} {index : Nat}

/-- An index occurs at its new number after reindexing. -/
theorem Occurs.reindex (h : t.Occurs index) (f : Nat → Nat) : (t.reindex f).Occurs (f index) := by
  induction t generalizing index f with
  | bound other => exact congrArg f h
  | free name => exact h
  | abs body ih => exact ih h (liftIndex f)
  | app left right ihl ihr => exact h.imp (ihl · f) (ihr · f)

/-- What occurs in a term that is put in place of an index occurs in the result, if that index
occurs. -/
theorem Occurs.fill (h : t.Occurs index) {σ : Nat → Nameless} {τ : String → Nameless} {inner : Nat}
    (hinner : (σ index).Occurs inner) : (t.fill σ τ).Occurs inner := by
  induction t generalizing index inner σ τ with
  | bound other =>
    obtain rfl : other = index := h
    exact hinner
  | free name => exact h.elim
  | abs body ih => exact ih h (σ := lift σ) (hinner.reindex (· + 1))
  | app left right ihl ihr => exact h.imp (ihl · hinner) (ihr · hinner)

/-- Only what is put in place of the indices that occur counts. -/
theorem fill_congr {σ σ' : Nat → Nameless} (h : ∀ index, t.Occurs index → σ index = σ' index)
    (τ : String → Nameless) : t.fill σ τ = t.fill σ' τ := by
  induction t generalizing σ σ' τ with
  | bound other => exact h other rfl
  | free name => rfl
  | abs body ih =>
    rw [Nameless.fill, Nameless.fill]
    refine congrArg Nameless.abs (ih (fun index hindex => ?_) _)
    cases index with
    | zero => rfl
    | succ index => exact congrArg Nameless.shift (h index hindex)
  | app left right ihl ihr =>
    rw [Nameless.fill, Nameless.fill, ihl (fun index hindex => h index (.inl hindex)),
      ihr fun index hindex => h index (.inr hindex)]

/-- Nothing is put in place of an index in a term without indices that point out of it. -/
theorem fill_of_not_occurs (h : ∀ index, ¬t.Occurs index) (σ : Nat → Nameless) :
    t.fill σ free = t :=
  (fill_congr (fun index hindex => absurd hindex (h index)) free).trans (fill_self t)

end Occurrence

section Ending

variable {t u body argument left right : Nameless} {bound : Nat}

/-- The runs of an abstraction are those of its body. -/
theorem endsWithin_abs_iff : EndsWithin Beta bound (abs body) ↔ EndsWithin Beta bound body := by
  constructor
  · exact .of_map fun _ _ => .abs
  · refine .of_follows (R := fun t body => t = abs body) ?_ rfl
    rintro _ body _ rfl hstep
    cases hstep with
    | abs step => exact ⟨_, step, rfl⟩

/-- Runs of the left side are runs of the application. -/
theorem endsWithin_left (h : EndsWithin Beta bound (app left right)) :
    EndsWithin Beta bound left :=
  h.of_map (f := (app · right)) fun _ _ => .left right

/-- Runs of the right side are runs of the application. -/
theorem endsWithin_right (h : EndsWithin Beta bound (app left right)) :
    EndsWithin Beta bound right :=
  h.of_map (f := app left) fun _ _ => .right left

/-- Runs of a term that is put in place of an index are runs of the result, if the index occurs. -/
theorem Occurs.endsWithin {index : Nat} (hoccurs : t.Occurs index) {σ : Nat → Nameless}
    {τ : String → Nameless} (h : EndsWithin Beta bound (t.fill σ τ)) :
    EndsWithin Beta bound (σ index) := by
  induction t generalizing index σ τ with
  | bound other =>
    obtain rfl : other = index := hoccurs
    exact h
  | free name => exact hoccurs.elim
  | abs body ih =>
    have hshift : EndsWithin Beta bound (σ index).shift := ih hoccurs (endsWithin_abs_iff.mp h)
    exact hshift.of_map fun _ _ => Beta.shift
  | app left right ihl ihr =>
    exact hoccurs.elim (ihl · (endsWithin_left h)) (ihr · (endsWithin_right h))

/-- A variable at the head keeps the sides of an application apart. -/
theorem Neutral.endsWithin {m n : Nat} (hneutral : Neutral left) (hleft : EndsWithin Beta m left)
    (hright : EndsWithin Beta n right) : EndsWithin Beta (m + n) (Nameless.app left right) := by
  induction htotal : m + n using Nat.strongRecOn generalizing left right m n with
  | ind total ih =>
    refine .of_forall fun u hstep => ?_
    cases hstep with
    | contract _ _ => nomatch hneutral
    | left _ step =>
      obtain ⟨less, rfl, hless⟩ := hleft.exists_less step
      have hlt : less + n < total := by omega
      exact ⟨_, hlt, ih _ hlt (hneutral.beta step) hless hright rfl⟩
    | right _ step =>
      obtain ⟨less, rfl, hless⟩ := hright.exists_less step
      have hlt : m + less < total := by omega
      exact ⟨_, hlt, ih _ hlt hneutral hleft hless rfl⟩

/-- A term with a redex at its head can make the steps of the argument and those that are left after
the contraction of the redex, and this contraction. -/
theorem Head.endsWithin {m n : Nat} (hhead : Head body argument t u) (hu : EndsWithin Beta m u)
    (hargument : EndsWithin Beta n argument) : EndsWithin Beta (m + n + 1) t := by
  induction htotal : m + n using Nat.strongRecOn generalizing body argument t u m n with
  | ind total ih =>
    refine .of_forall fun v hstep => ?_
    rcases hhead.beta_cases hstep with rfl | ⟨body', w, hhead', hbeta⟩ |
      ⟨argument', w, hbeta, hhead', hbetas⟩
    · exact ⟨m, by omega, hu⟩
    · obtain ⟨less, rfl, hless⟩ := hu.exists_less hbeta
      have hlt : less + n < total := by omega
      exact ⟨_, Nat.succ_lt_succ hlt, ih _ hlt hhead' hless hargument rfl⟩
    · obtain ⟨less, rfl, hless⟩ := hargument.exists_less hbeta
      have hlt : m + less < total := by omega
      exact ⟨_, Nat.succ_lt_succ hlt, ih _ hlt hhead' (hu.of_run hbetas) hless rfl⟩

/-- The runs of the argument of a redex at the head are runs of the term. -/
theorem Head.endsWithin_argument (hhead : Head body argument t u) (h : EndsWithin Beta bound t) :
    EndsWithin Beta bound argument := by
  induction hhead with
  | contract => exact endsWithin_right h
  | left right _ ih => exact ih (endsWithin_left h)

/-- The runs of what a redex at the head is contracted to are runs of the term after it. -/
theorem Head.endsWithin_instance (hhead : Head body argument t u) (h : EndsWithin Beta bound u) :
    EndsWithin Beta bound (body.instantiate argument) := by
  induction hhead with
  | contract => exact h
  | left right _ ih => exact ih (endsWithin_left h)

/-- A sparing contraction of the head does not end what would go on. -/
theorem HeadSpares.ends (h : HeadSpares t u) (hu : u.Ends) : t.Ends := by
  obtain ⟨body, argument, hspared, hhead⟩ := h
  obtain ⟨m, hm⟩ := hu
  have hargument : argument.Ends := by
    rcases hspared with hoccurs | ⟨-, hends⟩
    · exact ⟨m, hoccurs.endsWithin (hhead.endsWithin_instance hm)⟩
    · exact hends
  obtain ⟨n, hn⟩ := hargument
  exact ⟨m + n + 1, hhead.endsWithin hm hn⟩

/-- Nor do several of them. -/
theorem ends_of_headSpares (h : ReflTransGen HeadSpares t u) (hu : u.Ends) : t.Ends := by
  induction h using ReflTransGen.head_induction_on with
  | refl => exact hu
  | head hstep _ ih => exact hstep.ends ih

end Ending

section Standardization

variable {t u v body body' argument left left' right : Nameless}

/-- Filling terms in for indices keeps a contraction at the head. -/
theorem Head.fill (h : Head body argument t u) (σ : Nat → Nameless) :
    Head (body.fill (lift σ) free) (argument.fill σ free) (t.fill σ free) (u.fill σ free) := by
  induction h with
  | contract =>
    rw [fill_instantiate]
    exact .contract
  | left right _ ih => exact .left _ ih

/-- Filling terms in for indices keeps a contraction sparing. -/
theorem Spared.fill (h : Spared body argument) (σ : Nat → Nameless) :
    Spared (body.fill (lift σ) free) (argument.fill σ free) := by
  rcases h with hoccurs | ⟨hclosed, hends⟩
  · have hzero : (lift σ 0).Occurs 0 := rfl
    exact .inl (hoccurs.fill hzero)
  · rw [fill_of_not_occurs hclosed]
    exact .inr ⟨hclosed, hends⟩

/-- Filling terms in for indices keeps runs of sparing contractions of the head. -/
theorem headSpares_fill (h : ReflTransGen HeadSpares t u) (σ : Nat → Nameless) :
    ReflTransGen HeadSpares (t.fill σ free) (u.fill σ free) :=
  h.lift (Nameless.fill σ free) fun _ _ ⟨_, _, hspared, hhead⟩ =>
    ⟨_, _, hspared.fill σ, hhead.fill σ⟩

/-- Sparing contractions of the head of the left side are contractions of the head. -/
theorem headSpares_left (h : ReflTransGen HeadSpares t u) (right : Nameless) :
    ReflTransGen HeadSpares (app t right) (app u right) :=
  h.lift (app · right) fun _ _ ⟨_, _, hspared, hhead⟩ => ⟨_, _, hspared, .left right hhead⟩

/-- Sparing contractions of the head are contractions. -/
theorem betas_of_headSpares (h : ReflTransGen HeadSpares t u) : ReflTransGen Beta t u :=
  h.lift id fun _ _ ⟨_, _, _, hhead⟩ => hhead.beta

/-- A term is its own standard reduct. -/
theorem Standard.refl (t : Nameless) : Standard t t := by
  induction t with
  | bound index => exact .bound .refl
  | free name => exact .free .refl
  | abs body ih => exact .abs .refl ih
  | app left right ihl ihr => exact .app .refl ihl ihr

/-- Standard reducts are reached after contractions of the head. -/
theorem Standard.head (hrun : ReflTransGen HeadSpares t u) (h : Standard u v) : Standard t v := by
  cases h with
  | bound hmore => exact .bound (hrun.trans hmore)
  | free hmore => exact .free (hrun.trans hmore)
  | abs hmore bodies => exact .abs (hrun.trans hmore) bodies
  | app hmore lefts rights => exact .app (hrun.trans hmore) lefts rights

/-- Reindexing keeps standard reducts. -/
theorem Standard.reindex (h : Standard t u) (f : Nat → Nat) :
    Standard (t.reindex f) (u.reindex f) := by
  have hruns {t u : Nameless} (hrun : ReflTransGen HeadSpares t u) (f : Nat → Nat) :
      ReflTransGen HeadSpares (t.reindex f) (u.reindex f) := by
    rw [reindex_eq_fill, reindex_eq_fill]
    exact headSpares_fill hrun _
  induction h generalizing f with
  | bound hrun => exact .bound (hruns hrun f)
  | free hrun => exact .free (hruns hrun f)
  | abs hrun _ ih => exact .abs (hruns hrun f) (ih (liftIndex f))
  | app hrun _ _ ihl ihr => exact .app (hruns hrun f) (ihl f) (ihr f)

/-- Standard reducts in place of indices make a standard reduct. -/
theorem Standard.fill {σ σ' : Nat → Nameless} (h : Standard t u)
    (hσ : ∀ index, Standard (σ index) (σ' index)) :
    Standard (t.fill σ Nameless.free) (u.fill σ' Nameless.free) := by
  have hlift {σ σ' : Nat → Nameless} (hσ : ∀ index, Standard (σ index) (σ' index)) :
      ∀ index, Standard (lift σ index) (lift σ' index)
    | 0 => .refl _
    | index + 1 => (hσ index).reindex _
  induction h generalizing σ σ' with
  | bound hrun => exact .head (headSpares_fill hrun σ) (hσ _)
  | free hrun => exact .free (headSpares_fill hrun σ)
  | abs hrun _ ih => exact .abs (headSpares_fill hrun σ) (ih (hlift hσ))
  | app hrun _ _ ihl ihr => exact .app (headSpares_fill hrun σ) (ihl hσ) (ihr hσ)

/-- Instantiating keeps standard reducts. -/
theorem Standard.instantiate {argument' : Nameless} (h : Standard body body')
    (harguments : Standard argument argument') :
    Standard (body.instantiate argument) (body'.instantiate argument') := by
  refine h.fill fun index => ?_
  cases index with
  | zero => exact harguments
  | succ index => exact .refl _

/-- A sparing contraction leads to a standard reduct. -/
theorem Spares.standard (h : Spares t u) : Standard t u := by
  induction h with
  | contract hspared => exact .head (.single ⟨_, _, hspared, .contract⟩) (.refl _)
  | abs _ ih => exact .abs .refl ih
  | left right _ ih => exact .app .refl ih (.refl right)
  | right left _ ih => exact .app .refl (.refl left) ih

/-- A term whose standard reduct has a variable at the head gets one by contractions of the head. -/
theorem Standard.exists_neutral (h : Standard t u) (hu : Neutral u) :
    ∃ v, Neutral v ∧ ReflTransGen HeadSpares t v := by
  induction hu generalizing t with
  | bound index =>
    cases h with
    | bound hrun => exact ⟨_, .bound index, hrun⟩
  | free name =>
    cases h with
    | free hrun => exact ⟨_, .free name, hrun⟩
  | app right hleft ih =>
    cases h with
    | app hrun lefts _ =>
      obtain ⟨left, hneutral, hlefts⟩ := ih lefts
      exact ⟨_, .app _ hneutral, hrun.trans (headSpares_left hlefts _)⟩

/-- A term whose standard reduct has a redex at the head gets one by contractions of the head. When
both redexes are contracted, and so are their arguments, there are standard reducts still. -/
theorem Standard.exists_head (h : Standard t u) (hhead : Head body' argument u v) :
    ∃ t' w body arg, ReflTransGen HeadSpares t t' ∧ Head body arg t' w ∧ Standard w v ∧
      Standard arg argument := by
  induction hhead generalizing t with
  | contract =>
    cases h with
    | app hrun lefts rights =>
      cases lefts with
      | abs hlefts bodies =>
        exact ⟨_, _, _, _, hrun.trans (headSpares_left hlefts _), .contract,
          bodies.instantiate rights, rights⟩
  | left right _ ih =>
    cases h with
    | app hrun lefts rights =>
      obtain ⟨t', w, body, arg, hlefts, hhead, hstandard, harguments⟩ := ih lefts
      exact ⟨_, _, _, _, hrun.trans (headSpares_left hlefts _), .left _ hhead,
        .app .refl hstandard rights, harguments⟩

/-- The argument of a redex at the head is smaller than the term. -/
theorem Head.sizeOf_lt (h : Head body argument t u) : sizeOf argument < sizeOf t := by
  induction h with
  | contract => simp only [app.sizeOf_spec]; omega
  | left right _ ih => simp only [app.sizeOf_spec]; omega

/-- If the runs of a standard reduct end, so do those of the term. -/
theorem Standard.ends {t u : Nameless} {bound : Nat} (hu : EndsWithin Beta bound u)
    (h : Standard t u) : t.Ends := by
  cases h with
  | bound hrun => exact ends_of_headSpares hrun ⟨bound, hu⟩
  | free hrun => exact ends_of_headSpares hrun ⟨bound, hu⟩
  | abs hrun bodies =>
    obtain ⟨m, hm⟩ := Standard.ends (endsWithin_abs_iff.mp hu) bodies
    exact ends_of_headSpares hrun ⟨m, endsWithin_abs_iff.mpr hm⟩
  | @app _ left left' right right' hrun lefts rights =>
    rcases abs_or_neutral_or_head (Nameless.app left' right') with
      ⟨body, hbody⟩ | hneutral | ⟨body, argument, v, hhead⟩
    · nomatch hbody
    · obtain ⟨m, hm⟩ := Standard.ends (endsWithin_left hu) lefts
      obtain ⟨n, hn⟩ := Standard.ends (endsWithin_right hu) rights
      cases hneutral with
      | app _ hleft =>
        obtain ⟨v, hv, hlefts⟩ := lefts.exists_neutral hleft
        have hends := hv.endsWithin (hm.of_run (betas_of_headSpares hlefts)) hn
        exact ends_of_headSpares (hrun.trans (headSpares_left hlefts right)) ⟨m + n, hends⟩
    · have hargument := hhead.endsWithin_argument hu
      have hsmaller := hhead.sizeOf_lt
      obtain ⟨less, hbound, hless⟩ := hu.exists_less hhead.beta
      obtain ⟨t', w, body, arg, hruns, hhead', hstandard, harguments⟩ :=
        (Standard.app hrun lefts rights).exists_head hhead
      obtain ⟨m, hm⟩ := Standard.ends hless hstandard
      obtain ⟨n, hn⟩ := Standard.ends hargument harguments
      exact ends_of_headSpares hruns ⟨m + n + 1, hhead'.endsWithin hm hn⟩
termination_by (bound, sizeOf u)

/-- If a term comes by sparing contractions to one whose runs end, its own runs end. -/
theorem ends_of_spares (h : ReflTransGen Spares t u) (hu : u.Ends) : t.Ends := by
  induction h using ReflTransGen.head_induction_on with
  | refl => exact hu
  | head hstep _ ih =>
    obtain ⟨bound, hends⟩ := ih
    exact hstep.standard.ends hends

end Standardization

end Nameless

end UntypedLambda
