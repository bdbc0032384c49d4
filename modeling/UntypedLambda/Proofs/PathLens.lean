import UntypedLambda.Fault
import UntypedLambda.Proofs.Contraction

/-!
# Looking up what was replaced

Looking up takes more paths than replacing: it counts an index below zero from the last node, and
replacing needs every index on the way to be exactly that of a node. Where a sub term can be
replaced, the new term is found at its place, all other places are as they were, and of several
replacements at one place only the last one counts.
-/

namespace UntypedLambda.Term

variable {t u new : Term}

/-- Whether every index of a path is exactly that of a node: zero in an abstraction, and zero or one
in an application. -/
def hasPath : Term → Path → Bool
  | _, [] => true
  | var _, _ :: _ => false
  | abs _ body, index :: path => decide (index = 0) && body.hasPath path
  | app left right, index :: path =>
    decide (index = 0) && left.hasPath path || decide (index = 1) && right.hasPath path

/-- A path into an abstraction goes on in the body. -/
theorem hasPath_abs_iff {param : String} {body : Term} {index : Int} {path : Path} :
    (abs param body).hasPath (index :: path) = true ↔ index = 0 ∧ body.hasPath path = true := by
  rw [hasPath, Bool.and_eq_true, decide_eq_true_iff]

/-- A path into an application goes on in the left side or in the right one. -/
theorem hasPath_app_iff {left right : Term} {index : Int} {path : Path} :
    (app left right).hasPath (index :: path) = true ↔
      index = 0 ∧ left.hasPath path = true ∨ index = 1 ∧ right.hasPath path = true := by
  rw [hasPath, Bool.or_eq_true, Bool.and_eq_true, Bool.and_eq_true, decide_eq_true_iff,
    decide_eq_true_iff]

/-- A term with a hole in place of one sub term. -/
inductive Context where
  /-- The hole is the whole term. -/
  | hole
  /-- The hole is in the body of an abstraction. -/
  | body (param : String) (inner : Context)
  /-- The hole is in the left side of an application. -/
  | left (inner : Context) (right : Term)
  /-- The hole is in the right side of an application. -/
  | right (left : Term) (inner : Context)

namespace Context

/-- The term with something in the hole. -/
def fill : Context → Term → Term
  | hole, sub => sub
  | body param inner, sub => abs param (inner.fill sub)
  | left inner other, sub => app (inner.fill sub) other
  | right other inner, sub => app other (inner.fill sub)

/-- The path to the hole. -/
def path : Context → Path
  | hole => []
  | body _ inner => 0 :: inner.path
  | left inner _ => 0 :: inner.path
  | right _ inner => 1 :: inner.path

/-- What is in the hole is found at its path. -/
theorem get_fill (context : Context) (sub : Term) :
    (context.fill sub).get context.path = .ok sub := by
  induction context with
  | hole => rfl
  | body param inner ih => exact get_cons_eq_ok.mpr ⟨_, node_abs param _, ih⟩
  | left inner right ih => exact get_cons_eq_ok.mpr ⟨_, node_left _ right, ih⟩
  | right left inner ih => exact get_cons_eq_ok.mpr ⟨_, node_right left _, ih⟩

/-- Replacing at the path fills the hole with the new term. -/
theorem set_fill (context : Context) (sub new : Term) :
    (context.fill sub).set context.path new = .ok (context.fill new) := by
  induction context with
  | hole => rfl
  | body param inner ih => exact set_cons_eq_ok.mpr ⟨_, _, node_abs param _, ih, rfl⟩
  | left inner right ih => exact set_cons_eq_ok.mpr ⟨_, _, node_left _ right, ih, rfl⟩
  | right left inner ih => exact set_cons_eq_ok.mpr ⟨_, _, node_right left _, ih, rfl⟩

/-- No index on the path to the hole is below zero. -/
theorem nonneg (context : Context) : ∀ index ∈ context.path, 0 ≤ index := by
  induction context with
  | hole => exact fun _ hnone => nomatch hnone
  | body _ _ ih => exact List.forall_mem_cons.mpr ⟨Int.le_refl 0, ih⟩
  | left _ _ ih => exact List.forall_mem_cons.mpr ⟨Int.le_refl 0, ih⟩
  | right _ _ ih => exact List.forall_mem_cons.mpr ⟨Int.zero_le_ofNat 1, ih⟩

/-- A place that neither contains the hole nor lies in it is the same whatever is in the hole. -/
theorem get_apart (context : Context) (sub new : Term) {place : Path}
    (hplace : (context.fill sub).hasPath place = true) (hinside : ¬context.path <+: place)
    (haround : ¬place <+: context.path) :
    (context.fill new).get place = (context.fill sub).get place := by
  induction context generalizing place with
  | hole => exact absurd List.nil_prefix hinside
  | body param inner ih =>
    cases place with
    | nil => exact absurd List.nil_prefix haround
    | cons index place =>
      obtain ⟨rfl, hbody⟩ := hasPath_abs_iff.mp hplace
      rw [path, List.cons_prefix_cons, and_iff_right rfl] at hinside haround
      exact ih hbody hinside haround
  | left inner right ih =>
    cases place with
    | nil => exact absurd List.nil_prefix haround
    | cons index place =>
      rcases hasPath_app_iff.mp hplace with ⟨rfl, hleft⟩ | ⟨rfl, -⟩
      · rw [path, List.cons_prefix_cons, and_iff_right rfl] at hinside haround
        exact ih hleft hinside haround
      · rfl
  | right left inner ih =>
    cases place with
    | nil => exact absurd List.nil_prefix haround
    | cons index place =>
      rcases hasPath_app_iff.mp hplace with ⟨rfl, -⟩ | ⟨rfl, hright⟩
      · rfl
      · rw [path, List.cons_prefix_cons, and_iff_right rfl] at hinside haround
        exact ih hright hinside haround

end Context

/-- Where every index of a path is that of a node, the rest of the term is a context. -/
theorem exists_context {path : Path} (h : t.hasPath path = true) :
    ∃ (context : Context) (sub : Term), context.path = path ∧ context.fill sub = t := by
  induction path generalizing t with
  | nil => exact ⟨.hole, t, rfl, rfl⟩
  | cons index path ih =>
    cases t with
    | var name => nomatch h
    | abs param body =>
      obtain ⟨rfl, hbody⟩ := hasPath_abs_iff.mp h
      obtain ⟨context, sub, rfl, rfl⟩ := ih hbody
      exact ⟨.body param context, sub, rfl, rfl⟩
    | app left right =>
      rcases hasPath_app_iff.mp h with ⟨rfl, hleft⟩ | ⟨rfl, hright⟩
      · obtain ⟨context, sub, rfl, rfl⟩ := ih hleft
        exact ⟨.left context right, sub, rfl, rfl⟩
      · obtain ⟨context, sub, rfl, rfl⟩ := ih hright
        exact ⟨.right left context, sub, rfl, rfl⟩

/-- A sub term that is replaced has a path on which every index is that of a node. -/
theorem hasPath_of_set {path : Path} (h : t.set path new = .ok u) : t.hasPath path = true := by
  induction path generalizing t u with
  | nil => rw [hasPath]
  | cons index path ih =>
    obtain ⟨sub, sub', hnode, hset, hreplace⟩ := set_cons_eq_ok.mp h
    obtain ⟨param, body, rfl, rfl, -⟩ | ⟨left, right, rfl, rfl, -⟩ | ⟨left, right, rfl, rfl, -⟩ :=
      replace_eq_ok.mp hreplace
    · obtain rfl := Except.ok.inj ((node_abs param body).symm.trans hnode)
      exact hasPath_abs_iff.mpr ⟨rfl, ih hset⟩
    · obtain rfl := Except.ok.inj ((node_left left right).symm.trans hnode)
      exact hasPath_app_iff.mpr (.inl ⟨rfl, ih hset⟩)
    · obtain rfl := Except.ok.inj ((node_right left right).symm.trans hnode)
      exact hasPath_app_iff.mpr (.inr ⟨rfl, ih hset⟩)

/-- A sub term can be replaced exactly where every index of the path is that of a node. -/
theorem exists_set_iff {path : Path} :
    (∃ u, t.set path new = .ok u) ↔ t.hasPath path = true := by
  constructor
  · rintro ⟨u, hset⟩
    exact hasPath_of_set hset
  · intro h
    obtain ⟨context, sub, rfl, rfl⟩ := exists_context h
    exact ⟨context.fill new, context.set_fill sub new⟩

/-- Looking up and replacing at a path belong together. A sub term can be replaced exactly if every
index of its path is that of a node, so none is below zero, and any other path is an index error.
The new term is found where it was put; the sub term that was there puts the whole term back; a
second replacement at the path makes the first one void; and a place that neither contains the
path nor lies inside it is as it was. -/
theorem set_obeys_lens_laws (t : Term) (path : Path) (new : Term) :
    ((∃ u, t.set path new = .ok u) ↔ t.hasPath path = true) ∧
    (t.hasPath path = true → ∀ index ∈ path, 0 ≤ index) ∧
    (t.hasPath path = false →
      ∃ fault, t.set path new = .error fault ∧ (Defect.path fault).kind = "IndexError") ∧
    ∀ u, t.set path new = .ok u →
      u.get path = .ok new ∧
      (∃ sub, t.get path = .ok sub ∧ t.set path sub = .ok t) ∧
      (∀ other, ∃ v, u.set path other = .ok v ∧ t.set path other = .ok v) ∧
      ∀ place, t.hasPath place = true → ¬path <+: place → ¬place <+: path →
        u.get place = t.get place := by
  refine ⟨exists_set_iff, fun hpath => ?_, fun hnone => ?_, fun u hset => ?_⟩
  · obtain ⟨context, sub, rfl, -⟩ := exists_context hpath
    exact context.nonneg
  · cases hset : t.set path new with
    | error fault => exact ⟨fault, rfl, rfl⟩
    | ok u => exact absurd (hasPath_of_set hset) (Bool.eq_false_iff.mp hnone)
  · obtain ⟨context, sub, rfl, rfl⟩ := exists_context (hasPath_of_set hset)
    obtain rfl := Except.ok.inj ((context.set_fill sub new).symm.trans hset)
    exact ⟨context.get_fill new, ⟨sub, context.get_fill sub, context.set_fill sub sub⟩,
      fun other => ⟨_, context.set_fill new other, context.set_fill sub other⟩,
      fun place hplace => context.get_apart sub new hplace⟩

/-- The right side of an application, with the left side as the place apart from it. Counted from
the last node, the right side can be looked up but not replaced. -/
theorem set_obeys_lens_laws_right_side :
    let t := app (abs "x" (var "x")) (var "y")
    let u := app (abs "x" (var "x")) (var "z")
    t.hasPath [1] = true ∧ t.set [1] (var "z") = .ok u ∧ u.get [1] = .ok (var "z") ∧
      (∃ sub, t.get [1] = .ok sub ∧ t.set [1] sub = .ok t) ∧
      t.hasPath [0, 0] = true ∧ u.get [0, 0] = t.get [0, 0] ∧
      t.get [-1] = .ok (var "y") ∧ t.hasPath [-1] = false ∧
      ∃ fault, t.set [-1] (var "z") = .error fault ∧
        (Defect.path fault).kind = "IndexError" := by
  intro t u
  have hset : t.set [1] (var "z") = .ok u := rfl
  have hplace : t.hasPath [0, 0] = true := by decide
  have hlast : t.hasPath [-1] = false := by decide
  obtain ⟨hexists, -, -, hlaws⟩ := set_obeys_lens_laws t [1] (var "z")
  obtain ⟨-, -, herror, -⟩ := set_obeys_lens_laws t [-1] (var "z")
  obtain ⟨hfound, hback, -, hapart⟩ := hlaws u hset
  exact ⟨hexists.mp ⟨u, hset⟩, hset, hfound, hback, hplace,
    hapart [0, 0] hplace (by decide) (by decide), rfl, hlast, herror hlast⟩

end UntypedLambda.Term
