import Mathlib.Data.Finset.Card
import Mathlib.Order.Bounds.Basic
import UntypedLambda.Proofs.TreeWalks
import UntypedLambda.Term.Fresh

/-!
# Fresh names are the shortest ones

The search for a fresh name puts one prime after the other behind the base. The names that it meets
differ in their lengths, so those that are free in the term are no more than the term has free
names; hence the search ends, after one look more than there are free names at the latest. It stops
at the first name that is not free, however often that name is bound.
-/

namespace UntypedLambda.Term

/-- A name with so many primes behind it. -/
def withPrimes (name : String) (count : Nat) : String :=
  name ++ String.ofList (List.replicate count '\'')

/-- The search for a name that is not free, with so many looks at the term at most; `none` if they
are not enough. -/
def unusedWithin? (t : Term) : Nat → String → Option String
  | 0, _ => none
  | looks + 1, name => if t.free name then t.unusedWithin? looks (name ++ "'") else some name

/-- No primes change nothing. -/
theorem withPrimes_zero (name : String) : withPrimes name 0 = name := String.append_empty

/-- The first prime is put behind the name, and the others behind that. -/
theorem withPrimes_succ (name : String) (count : Nat) :
    withPrimes name (count + 1) = withPrimes (name ++ "'") count := by
  unfold withPrimes
  rw [List.replicate_succ, ← List.singleton_append, String.ofList_append, String.append_assoc]

/-- Each prime makes a name longer by one. -/
theorem length_withPrimes (name : String) (count : Nat) :
    (withPrimes name count).length = name.length + count := by
  rw [withPrimes, String.length_append, String.length_ofList, List.length_replicate]

/-- Names with other numbers of primes are other names. -/
theorem withPrimes_injective (name : String) : Function.Injective (withPrimes name) := by
  intro count other hsame
  have hlength := congrArg String.length hsame
  rw [length_withPrimes, length_withPrimes] at hlength
  exact Nat.add_left_cancel hlength

variable {t : Term} {name : String} {count : Nat}

/-- There are no more names with primes that are free in a term than it has free names. -/
theorem le_card_freeSet (h : ∀ fewer < count, withPrimes name fewer ∈ t.freeSet) :
    count ≤ t.freeSet.card := by
  have hmaps : Set.MapsTo (withPrimes name) (Finset.range count) t.freeSet := fun fewer hfewer =>
    h fewer (Finset.mem_range.mp hfewer)
  calc count = (Finset.range count).card := (Finset.card_range count).symm
    _ ≤ t.freeSet.card :=
      Finset.card_le_card_of_injOn _ hmaps (withPrimes_injective name).injOn

/-- The search stops at the first name that is not free. -/
theorem exists_unused (t : Term) (name : String) :
    ∃ count, t.unused name = withPrimes name count ∧ withPrimes name count ∉ t.freeSet ∧
      ∀ fewer < count, withPrimes name fewer ∈ t.freeSet := by
  fun_induction unused t name with
  | case1 name hfree ih =>
    obtain ⟨count, hunused, hnotFree, hbefore⟩ := ih
    refine ⟨count + 1, hunused.trans (withPrimes_succ name count).symm, ?_, fun fewer hfewer => ?_⟩
    · rwa [withPrimes_succ]
    · cases fewer with
      | zero =>
        rw [withPrimes_zero]
        exact free_iff_mem_freeSet.mp hfree
      | succ fewer =>
        rw [withPrimes_succ]
        exact hbefore fewer (Nat.lt_of_succ_lt_succ hfewer)
  | case2 name hnotFree =>
    refine ⟨0, (withPrimes_zero name).symm, ?_, fun fewer hfewer => nomatch hfewer⟩
    rw [withPrimes_zero]
    exact mt free_iff_mem_freeSet.mpr hnotFree

/-- The search looks once at each name that it meets: enough are one more looks than there are free
names on the way, and no fewer. -/
theorem unusedWithin?_eq (hnotFree : withPrimes name count ∉ t.freeSet)
    (hbefore : ∀ fewer < count, withPrimes name fewer ∈ t.freeSet) (looks : Nat) :
    t.unusedWithin? looks name = if count < looks then some (withPrimes name count) else none := by
  induction looks generalizing name count with
  | zero => rfl
  | succ looks ih =>
    cases count with
    | zero =>
      rw [withPrimes_zero] at hnotFree ⊢
      rw [unusedWithin?, if_neg (mt free_iff_mem_freeSet.mp hnotFree), if_pos (Nat.succ_pos looks)]
    | succ count =>
      have hfree : t.free name = true :=
        free_iff_mem_freeSet.mpr (withPrimes_zero name ▸ hbefore 0 (Nat.succ_pos count))
      have hrest : ∀ fewer < count, withPrimes (name ++ "'") fewer ∈ t.freeSet :=
        fun fewer hfewer =>
          withPrimes_succ name fewer ▸ hbefore (fewer + 1) (Nat.succ_lt_succ hfewer)
      rw [unusedWithin?, if_pos hfree, ih (withPrimes_succ name count ▸ hnotFree) hrest,
        withPrimes_succ]
      simp only [Nat.succ_lt_succ_iff]

/-- The search for a fresh name ends, and gives the base with the fewest primes, one at least, that
is not free in the term. It takes as many looks at the term as the name gets primes, which are one
more than the term has free names at most. -/
theorem fresh_is_shortest (base : String) (t : Term) :
    ∃ count, IsLeast {primes | 1 ≤ primes ∧ withPrimes base primes ∉ t.freeSet} count ∧
      count ≤ t.freeSet.card + 1 ∧ t.fresh base = withPrimes base count ∧
      ∀ looks, t.unusedWithin? looks (base ++ "'") =
        if count ≤ looks then some (withPrimes base count) else none := by
  obtain ⟨count, hunused, hnotFree, hbefore⟩ := t.exists_unused (base ++ "'")
  refine ⟨count + 1, ⟨⟨Nat.le_add_left 1 count, ?_⟩, ?_⟩, ?_, ?_, fun looks => ?_⟩
  · rwa [withPrimes_succ]
  · rintro primes ⟨hprimes, hprimesFree⟩
    obtain ⟨fewer, rfl⟩ := Nat.exists_eq_add_of_le' hprimes
    rw [withPrimes_succ] at hprimesFree
    exact Nat.succ_le_succ (Nat.le_of_not_lt fun hless => hprimesFree (hbefore fewer hless))
  · exact Nat.succ_le_succ (le_card_freeSet hbefore)
  · exact hunused.trans (withPrimes_succ base count).symm
  · rw [unusedWithin?_eq hnotFree hbefore looks, withPrimes_succ]
    simp only [Nat.succ_le_iff]

/-- A name that is only bound does not stand in the way; a free one does, wherever it is. -/
example : (app (abs "x'" (var "x'")) (var "x''")).fresh "x" = "x'" ∧
    (app (var "x'") (abs "x" (var "x''"))).fresh "x" = "x'''" := by
  decide +kernel

end UntypedLambda.Term
