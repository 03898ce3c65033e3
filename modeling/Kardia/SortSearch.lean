import Mathlib

namespace SortSearch

/-!
# Binary search for the first index at which a predicate holds

Go's sort.Search(n, f) halves the interval [i, j) until it is empty, keeping
f false at every index below i and true at every index from j.  For a
predicate that is monotone on [0, n) the result is the least index at which
it holds, or n when there is none.  The loop is modelled with fuel: n turns
suffice, since every turn shrinks the interval.
-/

/-- The loop of sort.Search over [i, j), with fuel for its turns. -/
def searchLoop (f : Nat → Bool) : Nat → Nat → Nat → Nat
  | 0, i, _ => i
  | fuel + 1, i, j =>
      if i < j then
        let h := (i + j) / 2
        if !f h then searchLoop f fuel (h + 1) j else searchLoop f fuel i h
      else
        i

/-- sort.Search. -/
def search (n : Nat) (f : Nat → Bool) : Nat :=
  searchLoop f n 0 n

/-- Once the predicate holds at an index of [0, n), it holds at every later one. -/
def MonotoneBelow (n : Nat) (f : Nat → Bool) : Prop :=
  ∀ k l, k ≤ l → l < n → f k = true → f l = true

variable {f : Nat → Bool} {n : Nat}

/-- The loop ends at the boundary of the predicate once its fuel covers the interval. -/
theorem searchLoop_spec
    (monotone : MonotoneBelow n f) :
    ∀ fuel i j, j - i ≤ fuel → i ≤ j → j ≤ n →
      (∀ k < i, f k = false) → (∀ k, j ≤ k → k < n → f k = true) →
        (∀ k < searchLoop f fuel i j, f k = false) ∧
          (∀ k, searchLoop f fuel i j ≤ k → k < n → f k = true) ∧
          searchLoop f fuel i j ≤ n := by
  intro fuel
  induction fuel with
  | zero =>
      intro i j covered ordered within below above
      have same : i = j := by omega
      subst same
      exact ⟨below, above, within⟩
  | succ fuel inductionHypothesis =>
      intro i j covered ordered within below above
      unfold searchLoop
      by_cases nonempty : i < j
      · rw [if_pos nonempty]
        dsimp only
        by_cases atMiddle : f ((i + j) / 2) = true
        · -- the predicate holds at the middle: the boundary is at or below it
          rw [atMiddle]
          refine inductionHypothesis i ((i + j) / 2) (by omega) (by omega) (by omega) below ?_
          intro k above' bound
          exact monotone _ k above' bound atMiddle
        · -- the predicate fails at the middle, so at every index up to it
          rw [Bool.not_eq_true] at atMiddle
          rw [atMiddle]
          refine inductionHypothesis ((i + j) / 2 + 1) j (by omega) (by omega) within ?_ above
          intro k bound
          by_cases early : k < i
          · exact below k early
          · cases holds : f k with
            | false => rfl
            | true =>
                have := monotone k ((i + j) / 2) (by omega) (by omega) holds
                rw [atMiddle] at this
                cases this
      · rw [if_neg nonempty]
        have same : i = j := by omega
        subst same
        exact ⟨below, above, within⟩

/-- sort.Search of a monotone predicate returns the least index at which it holds, or n. -/
theorem search_spec (monotone : MonotoneBelow n f) :
    (∀ k < search n f, f k = false) ∧ (∀ k, search n f ≤ k → k < n → f k = true) ∧
      search n f ≤ n :=
  searchLoop_spec monotone n 0 n (by omega) (Nat.zero_le n) le_rfl
    (fun _ bound => absurd bound (Nat.not_lt_zero _)) (fun _ _ bound => absurd bound (by omega))

/-- The first index at which a monotone predicate holds is what sort.Search returns. -/
theorem search_eq_of_first
    (monotone : MonotoneBelow n f)
    {m : Nat}
    (bound : m < n)
    (holds : f m = true)
    (first : ∀ k < m, f k = false) :
    search n f = m := by
  obtain ⟨below, above, -⟩ := search_spec monotone
  apply le_antisymm
  · by_contra later
    have := below m (by omega)
    rw [holds] at this
    cases this
  · by_contra earlier
    have := above (search n f) le_rfl (by omega)
    rw [first _ (by omega)] at this
    cases this

example : search 5 (fun i => decide (3 ≤ i)) = 3 := by decide

end SortSearch
