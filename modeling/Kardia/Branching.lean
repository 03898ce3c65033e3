import Mathlib

/-!
# Keys in branching order

One key comes before another in branching order when the two agree up to a
place where the first holds the smaller element: neither is a prefix of the
other, and the first is the smaller one lexicographically.  A tree of keys
that is built from the left and closes each subtree once a key to its right
arrives needs its keys in this order.

The lemmas peel a shared prefix off both keys, carry the order through a map
of each element to a block of elements (bytes to nibbles), and read it off
the lexicographic order of keys none of which is a prefix of another.
-/

namespace Kardia

variable {α β : Type}

/-- a branches off to the left of b: they agree up to a place where a holds the smaller element. -/
def Before [LT α] (a b : List α) : Prop :=
  ∃ common x y restA restB, x < y ∧ a = common ++ x :: restA ∧ b = common ++ y :: restB

namespace Before

section Basic

variable [LT α] {a b : List α} {x y : α}

theorem ne_nil_right (before : Before a b) : b ≠ [] := by
  obtain ⟨common, x, y, restA, restB, _, _, rfl⟩ := before
  simp

/-- Keys that part at their first elements. -/
theorem of_head_lt (lt : x < y) (a b : List α) : Before (x :: a) (y :: b) :=
  ⟨[], x, y, a, b, lt, rfl, rfl⟩

/-- A shared first element keeps the order. -/
theorem cons (before : Before a b) (z : α) : Before (z :: a) (z :: b) := by
  obtain ⟨common, x, y, restA, restB, lt, rfl, rfl⟩ := before
  exact ⟨z :: common, x, y, restA, restB, lt, rfl, rfl⟩

/-- A shared prefix keeps the order. -/
theorem append_left (before : Before a b) (p : List α) : Before (p ++ a) (p ++ b) := by
  induction p with
  | nil => exact before
  | cons z p inductionHypothesis => exact inductionHypothesis.cons z

/-- What follows the place where the keys part does not matter. -/
theorem append_right (before : Before a b) (c d : List α) : Before (a ++ c) (b ++ d) := by
  obtain ⟨common, x, y, restA, restB, lt, rfl, rfl⟩ := before
  exact ⟨common, x, y, restA ++ c, restB ++ d, lt, by simp, by simp⟩

/-- Keys that are lexicographically ordered and not prefix-related branch in that order. -/
theorem of_lt_of_not_prefix (lt : a < b) (notPrefix : ¬ a <+: b) : Before a b := by
  induction lt with
  | nil => exact absurd (List.nil_prefix) notPrefix
  | rel headLt => exact of_head_lt headLt _ _
  | @cons z _ _ _ inductionHypothesis =>
      exact (inductionHypothesis fun pre => notPrefix ((List.prefix_cons_inj z).mpr pre)).cons z

/--
Mapping each element to a block of elements keeps the order when the blocks
of ordered elements are in branching order themselves.
-/
theorem flatMap [LT β] {g : α → List β} (blocks : ∀ x y, x < y → Before (g x) (g y))
    (before : Before a b) : Before (a.flatMap g) (b.flatMap g) := by
  obtain ⟨common, x, y, restA, restB, lt, rfl, rfl⟩ := before
  simp only [List.flatMap_append, List.flatMap_cons]
  exact ((blocks x y lt).append_right _ _).append_left _

/-- Two keys with the same first element are ordered as what follows it. -/
@[simp] theorem cons_cons_iff : Before (x :: a) (y :: b) ↔ x < y ∨ x = y ∧ Before a b := by
  constructor
  · rintro ⟨common, x', y', restA, restB, lt, atA, atB⟩
    cases common with
    | nil =>
        simp only [List.nil_append, List.cons.injEq] at atA atB
        obtain ⟨rfl, -⟩ := atA
        obtain ⟨rfl, -⟩ := atB
        exact .inl lt
    | cons z common =>
        simp only [List.cons_append, List.cons.injEq] at atA atB
        obtain ⟨rfl, rfl⟩ := atA
        obtain ⟨rfl, rfl⟩ := atB
        exact .inr ⟨rfl, common, x', y', restA, restB, lt, rfl, rfl⟩
  · rintro (lt | ⟨rfl, before⟩)
    · exact of_head_lt lt a b
    · exact before.cons x

/-- Nothing branches off to the right of the empty key. -/
theorem not_nil_left (b : List α) : ¬ Before [] b := by
  rintro ⟨common, x, y, restA, restB, _, atA, _⟩
  simp at atA

/--
A key that extends s and comes before k: k extends s as well and the rests
are ordered, or s and k part inside s.
-/
theorem of_append_left {s q k : List α} (before : Before (s ++ q) k) :
    (∃ r, k = s ++ r ∧ Before q r) ∨
      ∃ common x y restS restK, x < y ∧ s = common ++ x :: restS ∧ k = common ++ y :: restK := by
  induction s generalizing k with
  | nil => exact .inl ⟨k, rfl, before⟩
  | cons z s inductionHypothesis =>
      obtain ⟨y, k, rfl⟩ := List.exists_cons_of_ne_nil before.ne_nil_right
      rcases cons_cons_iff.mp before with lt | ⟨rfl, rest⟩
      · exact .inr ⟨[], z, y, s, k, lt, rfl, rfl⟩
      · rcases inductionHypothesis rest with ⟨r, rfl, after⟩ | ⟨common, x, y, restS, restK, lt, rfl, rfl⟩
        · exact .inl ⟨r, rfl, after⟩
        · exact .inr ⟨z :: common, x, y, restS, restK, lt, rfl, rfl⟩

end Basic

section Irreflexive

variable [LT α] [Std.Irrefl (α := α) (· < ·)] {a b : List α} {x y : α}

/-- A shared prefix can be peeled off both keys. -/
@[simp] theorem append_iff (p : List α) : Before (p ++ a) (p ++ b) ↔ Before a b := by
  induction p with
  | nil => rfl
  | cons z p inductionHypothesis =>
      simp only [List.cons_append, cons_cons_iff, Std.Irrefl.irrefl z, true_and, false_or]
      exact inductionHypothesis

/-- A key does not come before itself. -/
theorem irrefl (a : List α) : ¬ Before a a := by
  rintro ⟨common, x, y, restA, restB, lt, atA, atB⟩
  rw [atA, List.append_cancel_left_eq, List.cons.injEq] at atB
  obtain ⟨rfl, -⟩ := atB
  exact Std.Irrefl.irrefl x lt

end Irreflexive

end Before

end Kardia
