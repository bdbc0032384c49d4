import UntypedLambda.Fault

/-!
# Actions

An action changes a state and gives a value or ends with a fault. Either way the changes that it
made stay. The lemmas say what a run of composed actions comes to.
-/

namespace UntypedLambda

/-- An operation on a state that may end with a fault; the state is kept in both cases. -/
abbrev Action (σ α : Type) := EStateM Fault σ α

/-- Outcomes in a sequence are a value exactly when both of them are. -/
theorem except_bind_eq_ok {ε α β : Type} {first : Except ε α} {next : α → Except ε β} {b : β} :
    first >>= next = .ok b ↔ ∃ a, first = .ok a ∧ next a = .ok b := by
  change Except.bind first next = _ ↔ _
  unfold Except.bind
  cases first <;> simp

/-- Outcomes in a sequence are a fault exactly when one of them is, after those before it. -/
theorem except_bind_eq_error {α β : Type} {first : Except Fault α} {next : α → Except Fault β}
    {fault : Fault} :
    first >>= next = .error fault ↔
      first = .error fault ∨ ∃ a, first = .ok a ∧ next a = .error fault := by
  change Except.bind first next = _ ↔ _
  unfold Except.bind
  cases first <;> simp

namespace Action

variable {σ α β : Type}

/-- A sequence succeeds exactly when both parts do, one after the other. -/
theorem bind_eq_ok {first : Action σ α} {next : α → Action σ β} {s s' : σ} {b : β} :
    (first >>= next) s = .ok b s' ↔ ∃ a t, first s = .ok a t ∧ next a t = .ok b s' := by
  change EStateM.bind first next s = _ ↔ _
  unfold EStateM.bind
  cases h : first s <;> simp [and_assoc]

/-- A sequence fails exactly when a part does after the parts before it succeeded. -/
theorem bind_eq_error {first : Action σ α} {next : α → Action σ β} {s s' : σ} {fault : Fault} :
    (first >>= next) s = .error fault s' ↔
      first s = .error fault s' ∨ ∃ a t, first s = .ok a t ∧ next a t = .error fault s' := by
  change EStateM.bind first next s = _ ↔ _
  unfold EStateM.bind
  cases h : first s <;> simp [and_assoc]

/-- A sequence goes on from where its first part succeeded. -/
theorem bind_of_ok {first : Action σ α} {next : α → Action σ β} {s t : σ} {a : α}
    (h : first s = .ok a t) : (first >>= next) s = next a t := by
  change EStateM.bind first next s = _
  unfold EStateM.bind
  rw [h]

/-- A sequence fails where its first part does. -/
theorem bind_of_error {first : Action σ α} {next : α → Action σ β} {s t : σ} {fault : Fault}
    (h : first s = .error fault t) : (first >>= next) s = .error fault t := by
  change EStateM.bind first next s = _
  unfold EStateM.bind
  rw [h]

/-- Giving a value changes nothing. -/
theorem pure_eq_ok {s s' : σ} {a b : α} : (pure a : Action σ α) s = .ok b s' ↔ a = b ∧ s = s' := by
  change EStateM.Result.ok a s = _ ↔ _
  simp

/-- Reading the state changes nothing. -/
theorem get_eq_ok {s s' t : σ} : (get : Action σ σ) s = .ok t s' ↔ s = t ∧ s = s' := by
  change EStateM.Result.ok s s = _ ↔ _
  simp

/-- Changing the state does not fail. -/
theorem modify_eq_ok {f : σ → σ} {s s' : σ} {u : PUnit} :
    (modify f : Action σ PUnit) s = .ok u s' ↔ f s = s' := by
  change EStateM.Result.ok PUnit.unit (f s) = _ ↔ _
  simp

/-- Ending with a fault is no success. -/
theorem throw_ne_ok {fault : Fault} {s s' : σ} {a : α} :
    (throw fault : Action σ α) s = .ok a s' ↔ False := by
  change EStateM.Result.error fault s = _ ↔ _
  simp

/-- The outcome of an action without the state. -/
def outcome {ε : Type} : EStateM.Result ε σ α → Except ε α
  | .ok a _ => .ok a
  | .error e _ => .error e

/-- The state that an action leaves. -/
def state {ε : Type} : EStateM.Result ε σ α → σ
  | .ok _ s => s
  | .error _ s => s

/-- An action with a value ends in the state that it leaves. -/
theorem eq_ok_of_outcome {ε : Type} {result : EStateM.Result ε σ α} {a : α}
    (h : (outcome result).toOption = some a) : result = .ok a (state result) := by
  cases result with
  | ok b s =>
    obtain rfl := Option.some.inj h
    rfl
  | error e s => nomatch h

/-- The action on a part of the state; `get` reads the part and `set` puts it back. -/
def onPart {τ : Type} (get : σ → τ) (set : τ → σ → σ) (act : Action τ α) : Action σ α := fun s =>
  match act (get s) with
  | .ok a part => .ok a (set part s)
  | .error fault part => .error fault (set part s)

/-- The action, and if it ends with a fault, what is to be done about it. Gives the value of the
action if there is one. -/
def recover (act : Action σ α) (settle : Fault → Action σ Unit) : Action σ (Option α) := fun s =>
  match act s with
  | .ok a s => .ok (some a) s
  | .error fault s =>
    match settle fault s with
    | .ok _ s => .ok none s
    | .error fault s => .error fault s

/-- Giving a value changes nothing, whatever it is given for. -/
theorem state_bind_pure (act : Action σ α) (f : α → β) (s : σ) :
    state ((act >>= fun a => pure (f a)) s) = state (act s) := by
  cases h : act s with
  | ok a t => rw [bind_of_ok h]; rfl
  | error fault t => rw [bind_of_error h]; rfl

/-- An action on a part of the state changes that part. -/
theorem state_onPart {τ : Type} (get : σ → τ) (set : τ → σ → σ) (act : Action τ α) (s : σ) :
    state (act.onPart get set s) = set (state (act (get s))) s := by
  unfold onPart
  cases act (get s) <;> rfl

/-- What is done about a fault changes the state that the fault left. -/
theorem state_recover_of_error {act : Action σ α} {settle : Fault → Action σ Unit} {s t : σ}
    {fault : Fault} (h : act s = .error fault t) :
    state (act.recover settle s) = state (settle fault t) := by
  unfold recover
  rw [h]
  dsimp only
  cases settle fault t <;> rfl

/-- The action that ends with a given outcome. -/
def ofExcept : Except Fault α → Action σ α
  | .ok a => pure a
  | .error fault => throw fault

/-- A value that was found is the value of the action. -/
theorem ofExcept_of_ok {result : Except Fault α} {a : α} (h : result = .ok a) (s : σ) :
    ofExcept result s = .ok a s := by
  rw [h]
  rfl

/-- A fault that was found ends the action. -/
theorem ofExcept_of_error {result : Except Fault α} {fault : Fault} (h : result = .error fault)
    (s : σ) : ofExcept result s = .error fault s := by
  rw [h]
  rfl

end Action

end UntypedLambda
