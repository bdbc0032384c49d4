import Mathlib.Logic.Relation
import UntypedLambda.Proofs.Nameless.Basic

/-!
# Reduction of nameless terms is confluent

A contraction replaces one redex, anywhere in a nameless term. A parallel contraction replaces any
of the redexes that are there at once. Whatever a parallel contraction leaves over, the development
of the term, which contracts all of its redexes, is one more parallel contraction away; so parallel
contractions can be joined, and runs of contractions, which are runs of parallel ones, can too.
-/

namespace UntypedLambda.Nameless

open Relation (ReflTransGen)

/-- One contraction of a redex anywhere in a term. -/
inductive Beta : Nameless → Nameless → Prop where
  /-- The redex is the whole term. -/
  | contract (body argument : Nameless) :
      Beta (app (abs body) argument) (body.instantiate argument)
  /-- The redex is in the body. -/
  | abs {body body' : Nameless} (step : Beta body body') : Beta (abs body) (abs body')
  /-- The redex is in the left side. -/
  | left {left left' : Nameless} (right : Nameless) (step : Beta left left') :
      Beta (app left right) (app left' right)
  /-- The redex is in the right side. -/
  | right (left : Nameless) {right right' : Nameless} (step : Beta right right') :
      Beta (app left right) (app left right')

/-- A contraction of any of the redexes of a term at once. -/
inductive Parallel : Nameless → Nameless → Prop where
  /-- An index stays. -/
  | bound (index : Nat) : Parallel (bound index) (bound index)
  /-- A free name stays. -/
  | free (name : String) : Parallel (free name) (free name)
  /-- The body is contracted. -/
  | abs {body body' : Nameless} (bodies : Parallel body body') : Parallel (abs body) (abs body')
  /-- Both sides are contracted. -/
  | app {left left' right right' : Nameless} (lefts : Parallel left left')
      (rights : Parallel right right') : Parallel (app left right) (app left' right')
  /-- The term itself is contracted too. -/
  | beta {body body' argument argument' : Nameless} (bodies : Parallel body body')
      (arguments : Parallel argument argument') :
      Parallel (app (.abs body) argument) (body'.instantiate argument')

/-- The term after all of its redexes are contracted at once. -/
def develop : Nameless → Nameless
  | bound index => bound index
  | free name => free name
  | abs body => abs body.develop
  | app (abs body) argument => body.develop.instantiate argument.develop
  | app left right => app left.develop right.develop

/-- Contracting no redex is a parallel contraction. -/
theorem Parallel.refl (t : Nameless) : Parallel t t := by
  induction t with
  | bound index => exact .bound index
  | free name => exact .free name
  | abs body ih => exact .abs ih
  | app left right ihl ihr => exact .app ihl ihr

/-- Reindexing commutes with instantiating. -/
theorem reindex_instantiate (body new : Nameless) (f : Nat → Nat) :
    (body.instantiate new).reindex f =
      (body.reindex (liftIndex f)).instantiate (new.reindex f) := by
  have hlift : lift (bound ∘ f) = bound ∘ liftIndex f := by
    funext index
    cases index <;> rfl
  simp only [reindex_eq_fill, fill_instantiate, hlift]
  rfl

/-- Reindexing keeps parallel contractions. -/
theorem Parallel.reindex {t u : Nameless} (h : Parallel t u) (f : Nat → Nat) :
    Parallel (t.reindex f) (u.reindex f) := by
  induction h generalizing f with
  | bound index => exact .bound (f index)
  | free name => exact .free name
  | abs _ ih => exact .abs (ih (liftIndex f))
  | app _ _ ihl ihr => exact .app (ihl f) (ihr f)
  | beta _ _ ihb iha =>
    rw [reindex_instantiate]
    exact .beta (ihb (liftIndex f)) (iha f)

/-- Filling contracted terms into contracted terms is a parallel contraction. -/
theorem Parallel.fill {t u : Nameless} {σ σ' : Nat → Nameless} {τ τ' : String → Nameless}
    (h : Parallel t u) (hσ : ∀ index, Parallel (σ index) (σ' index))
    (hτ : ∀ name, Parallel (τ name) (τ' name)) : Parallel (t.fill σ τ) (u.fill σ' τ') := by
  have hlift {σ σ' : Nat → Nameless} (hσ : ∀ index, Parallel (σ index) (σ' index)) :
      ∀ index, Parallel (lift σ index) (lift σ' index)
    | 0 => .bound 0
    | index + 1 => (hσ index).reindex _
  induction h generalizing σ σ' τ τ' with
  | bound index => exact hσ index
  | free name => exact hτ name
  | abs _ ih => exact .abs (ih (hlift hσ) fun name => (hτ name).reindex _)
  | app _ _ ihl ihr => exact .app (ihl hσ hτ) (ihr hσ hτ)
  | beta _ _ ihb iha =>
    rw [fill_instantiate]
    exact .beta (ihb (hlift hσ) fun name => (hτ name).reindex _) (iha hσ hτ)

/-- Instantiating keeps parallel contractions. -/
theorem Parallel.instantiate {body body' new new' : Nameless} (h : Parallel body body')
    (hnew : Parallel new new') : Parallel (body.instantiate new) (body'.instantiate new') := by
  refine h.fill (fun index => ?_) .free
  cases index with
  | zero => exact hnew
  | succ index => exact .bound index

/-- Every parallel contraction is completed to the development by another one. -/
theorem Parallel.to_develop {t u : Nameless} (h : Parallel t u) : Parallel u t.develop := by
  induction h with
  | bound index => exact .bound index
  | free name => exact .free name
  | abs _ ih => exact .abs ih
  | @app left left' right right' lefts _ ihl ihr =>
    cases left with
    | abs body =>
      -- The redex is still there and is contracted now.
      cases lefts with
      | abs _ =>
        cases ihl with
        | abs ihb => exact .beta ihb ihr
    | bound _ => exact .app ihl ihr
    | free _ => exact .app ihl ihr
    | app _ _ => exact .app ihl ihr
  | beta _ _ ihb iha => exact ihb.instantiate iha

/-- Runs of contractions in the body of an abstraction. -/
theorem betas_abs {body body' : Nameless} (h : ReflTransGen Beta body body') :
    ReflTransGen Beta (abs body) (abs body') :=
  h.lift abs fun _ _ => .abs

/-- Runs of contractions in both sides of an application. -/
theorem betas_app {left left' right right' : Nameless} (hl : ReflTransGen Beta left left')
    (hr : ReflTransGen Beta right right') :
    ReflTransGen Beta (app left right) (app left' right') := by
  have hlefts : ReflTransGen Beta (app left right) (app left' right) :=
    hl.lift (app · right) fun _ _ => .left right
  have hrights : ReflTransGen Beta (app left' right) (app left' right') :=
    hr.lift (app left') fun _ _ => .right left'
  exact hlefts.trans hrights

/-- One contraction is a parallel contraction. -/
theorem Beta.parallel {t u : Nameless} (h : Beta t u) : Parallel t u := by
  induction h with
  | contract body argument => exact .beta (.refl body) (.refl argument)
  | abs _ ih => exact .abs ih
  | left right _ ih => exact .app ih (.refl right)
  | right left _ ih => exact .app (.refl left) ih

/-- A parallel contraction is a run of contractions. -/
theorem Parallel.betas {t u : Nameless} (h : Parallel t u) : ReflTransGen Beta t u := by
  induction h with
  | bound index => exact .refl
  | free name => exact .refl
  | abs _ ih => exact betas_abs ih
  | app _ _ ihl ihr => exact betas_app ihl ihr
  | beta _ _ ihb iha => exact (betas_app (betas_abs ihb) iha).tail (.contract _ _)

/-- Runs of contractions from one term can be continued to a common term. -/
theorem confluent {t u v : Nameless} (hu : ReflTransGen Beta t u) (hv : ReflTransGen Beta t v) :
    ∃ w, ReflTransGen Beta u w ∧ ReflTransGen Beta v w := by
  have hjoin : Relation.Join (ReflTransGen Parallel) u v := by
    refine Relation.church_rosser (fun a b c hb hc => ?_)
      (hu.lift id fun _ _ => Beta.parallel) (hv.lift id fun _ _ => Beta.parallel)
    exact ⟨a.develop, .single hb.to_develop, .single hc.to_develop⟩
  have hbetas {t u : Nameless} (h : ReflTransGen Parallel t u) : ReflTransGen Beta t u := by
    induction h with
    | refl => exact .refl
    | tail _ step ih => exact ih.trans step.betas
  obtain ⟨w, huw, hvw⟩ := hjoin
  exact ⟨w, hbetas huw, hbetas hvw⟩

end UntypedLambda.Nameless
