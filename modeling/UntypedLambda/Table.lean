/-!
# Tables in order of entry

A table maps names to values and remembers the order in which the names first came. Putting a
value under a name that is there keeps the name's place.
-/

namespace UntypedLambda

/-- Values under distinct names, in the order in which the names were entered. -/
structure Table (α : Type) where
  /-- The entries, oldest name first. -/
  entries : List (String × α)
  /-- No name is entered twice. -/
  distinct : (entries.map Prod.fst).Nodup

namespace Table

variable {α β : Type}

/-- The table without entries. -/
def empty : Table α := ⟨[], List.nodup_nil⟩

/-- The names, oldest first. -/
def names (table : Table α) : List String := table.entries.map Prod.fst

/-- The value under a name. -/
def get? (table : Table α) (name : String) : Option α := table.entries.lookup name

/-- Whether the name is entered. -/
def contains (table : Table α) (name : String) : Bool := table.names.contains name

/-- The value under a name is the one that is entered. -/
theorem get?_eq_some_iff {table : Table α} {name : String} {value : α} :
    table.get? name = some value ↔ (name, value) ∈ table.entries := by
  obtain ⟨entries, distinct⟩ := table
  unfold get?
  induction entries with
  | nil => simp
  | cons entry rest ih =>
    obtain ⟨first, old⟩ := entry
    rw [List.map_cons, List.nodup_cons] at distinct
    by_cases h : name = first
    · subst h
      have absent : (name, value) ∉ rest := fun mem =>
        distinct.1 (List.mem_map.mpr ⟨_, mem, rfl⟩)
      simp [absent, eq_comm]
    · have other : (name == first) = false := beq_eq_false_iff_ne.mpr h
      simp [List.lookup_cons, other, h, ih distinct.2]

/-- A name without a value is not entered. -/
theorem get?_eq_none_iff {table : Table α} {name : String} :
    table.get? name = none ↔ name ∉ table.names := by
  rw [Option.eq_none_iff_forall_ne_some]
  simp [get?_eq_some_iff, names]

/-- Replaces the value of the entry with the name, or enters the name at the end. -/
def putEntry (name : String) (value : α) : List (String × α) → List (String × α)
  | [] => [(name, value)]
  | (other, old) :: rest =>
    if other = name then (name, value) :: rest else (other, old) :: putEntry name value rest

/-- Putting keeps the row of names, and extends it by a new name. -/
theorem names_putEntry (name : String) (value : α) (entries : List (String × α)) :
    (putEntry name value entries).map Prod.fst =
      if name ∈ entries.map Prod.fst then entries.map Prod.fst
      else entries.map Prod.fst ++ [name] := by
  induction entries with
  | nil => rfl
  | cons entry rest ih =>
    obtain ⟨other, old⟩ := entry
    by_cases h : other = name
    · simp [putEntry, h]
    · have h' : ¬ name = other := fun e => h e.symm
      simp only [putEntry, h, if_false, List.map_cons, List.mem_cons, h', false_or, ih]
      split <;> rfl

/-- Putting never enters a name twice. -/
theorem nodup_putEntry (name : String) (value : α) {entries : List (String × α)}
    (distinct : (entries.map Prod.fst).Nodup) :
    ((putEntry name value entries).map Prod.fst).Nodup := by
  rw [names_putEntry]
  split
  · exact distinct
  · next absent =>
    rw [List.nodup_append]
    refine ⟨distinct, by simp, ?_⟩
    intro other present fresh same
    simp only [List.mem_singleton] at same
    subst same
    intro equal
    exact absent (equal ▸ present)

/-- Putting replaces what was entered under the name and keeps all other entries. -/
theorem mem_putEntry {name other : String} {value present : α} {entries : List (String × α)}
    (distinct : (entries.map Prod.fst).Nodup) :
    (other, present) ∈ putEntry name value entries ↔
      other = name ∧ present = value ∨ other ≠ name ∧ (other, present) ∈ entries := by
  induction entries with
  | nil => simp [putEntry]
  | cons entry rest ih =>
    obtain ⟨first, old⟩ := entry
    rw [List.map_cons, List.nodup_cons] at distinct
    by_cases h : first = name
    · subst h
      have absent : (first, present) ∉ rest := fun mem =>
        distinct.1 (List.mem_map.mpr ⟨_, mem, rfl⟩)
      by_cases same : other = first
      · subst same
        simp [putEntry, absent]
      · simp [putEntry, same]
    · simp only [putEntry, h, if_false, List.mem_cons, Prod.mk.injEq, ih distinct.2]
      grind

/-- Putting a value under a name leaves nothing of what was put there before. -/
theorem putEntry_putEntry (name : String) (value later : α) (entries : List (String × α)) :
    putEntry name later (putEntry name value entries) = putEntry name later entries := by
  induction entries with
  | nil => simp [putEntry]
  | cons entry rest ih =>
    obtain ⟨other, old⟩ := entry
    by_cases h : other = name
    · simp [putEntry, h]
    · simp [putEntry, h, ih]

/-- Puts a value under a name: in the name's place if it has one, else at the end. -/
def put (table : Table α) (name : String) (value : α) : Table α :=
  ⟨putEntry name value table.entries, nodup_putEntry name value table.distinct⟩

/-- Putting a value under a name leaves nothing of what was put there before. -/
theorem put_put (table : Table α) (name : String) (value later : α) :
    (table.put name value).put name later = table.put name later := by
  unfold put
  simp only [putEntry_putEntry]

/-- The table has the value under the name, and all other entries as before. -/
theorem mem_put {table : Table α} {name other : String} {value present : α} :
    (other, present) ∈ (table.put name value).entries ↔
      other = name ∧ present = value ∨ other ≠ name ∧ (other, present) ∈ table.entries :=
  mem_putEntry table.distinct

/-- The table has the value that was put under a name. -/
theorem get?_put_self (table : Table α) (name : String) (value : α) :
    (table.put name value).get? name = some value :=
  get?_eq_some_iff.mpr (mem_put.mpr (.inl ⟨rfl, rfl⟩))

/-- The table has the same value as before under every other name. -/
theorem get?_put_of_ne {name other : String} (h : other ≠ name) (table : Table α) (value : α) :
    (table.put name value).get? other = table.get? other := by
  refine Option.ext fun present => ?_
  rw [get?_eq_some_iff, get?_eq_some_iff, mem_put]
  simp [h]

/-- The row of names stays, or is extended by a new name. -/
theorem names_put (table : Table α) (name : String) (value : α) :
    (table.put name value).names =
      if name ∈ table.names then table.names else table.names ++ [name] :=
  names_putEntry name value table.entries

/-- The table has the name, and all names as before. -/
theorem mem_names_put {table : Table α} {name other : String} {value : α} :
    other ∈ (table.put name value).names ↔ other = name ∨ other ∈ table.names := by
  rw [names_put]
  split
  · next present => exact ⟨.inr, fun h => h.elim (· ▸ present) id⟩
  · simp [or_comm]

/-- Changes every value and keeps the names. -/
def map (f : α → β) (table : Table α) : Table β :=
  ⟨table.entries.map fun entry => (entry.1, f entry.2), by
    simpa [List.map_map, Function.comp_def] using table.distinct⟩

/-- Enters the pairs one after the other. -/
def ofList (pairs : List (String × α)) : Table α :=
  pairs.foldl (fun table pair => table.put pair.1 pair.2) empty

end Table

end UntypedLambda
