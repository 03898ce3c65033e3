import Mathlib

namespace MerkleTree

/-!
# Merkle trees split at powers of two

A Merkle tree over a list of items hashes each item to a leaf and every two
subtrees to an inner node.  A list of two or more items is split after the
largest power of two below its length.  The inclusion proof of the item at an
index is the list of its aunts: the roots of the sibling subtrees, from the
leaf's sibling up to a child of the root.  The verifier folds the aunts back
from the last one, and the index and the number of items choose at each level
on which side the aunt stands.

The hash functions are parameters: `leafHash` of an item and `innerHash` of
two digests.  The result the proofs of a user rest on is completeness: the
trail built for every index holds the item's leaf hash, and its aunts
recompute the root at that index.  Nothing in the check ties the index to the
item: the aunts of one item verify at that item's index, whichever slot the
caller files the item under.
-/

variable {α δ : Type _}

/-! ## The split point -/

/--
The number of leaves of the left subtree of a tree of `length` leaves: the
largest power of two below `length`.
-/
def splitPoint (length : Nat) : Nat :=
  if 2 ^ length.log2 = length then
    2 ^ length.log2 / 2
  else
    2 ^ length.log2

/-- A tree of two or more leaves has a nonempty left subtree. -/
theorem splitPoint_pos {length : Nat} (atLeastTwo : 2 ≤ length) :
    0 < splitPoint length := by
  have nonzero : length ≠ 0 := by omega
  have logPositive : 1 ≤ length.log2 := (Nat.le_log2 nonzero).mpr (by simpa using atLeastTwo)
  have powerAtLeastTwo : 2 ≤ 2 ^ length.log2 := by
    calc 2 = 2 ^ 1 := rfl
      _ ≤ 2 ^ length.log2 := Nat.pow_le_pow_right (by norm_num) logPositive
  unfold splitPoint
  split_ifs <;> omega

/-- A tree of two or more leaves has a nonempty right subtree. -/
theorem splitPoint_lt {length : Nat} (atLeastTwo : 2 ≤ length) :
    splitPoint length < length := by
  have nonzero : length ≠ 0 := by omega
  have powerLe : 2 ^ length.log2 ≤ length := Nat.log2_self_le nonzero
  have powerPositive : 0 < 2 ^ length.log2 := Nat.two_pow_pos _
  unfold splitPoint
  split_ifs <;> omega

theorem length_take_splitPoint_lt {items : List α} (atLeastTwo : 2 ≤ items.length) :
    (items.take (splitPoint items.length)).length < items.length := by
  have := splitPoint_lt atLeastTwo
  simp only [List.length_take]
  omega

theorem length_drop_splitPoint_lt {items : List α} (atLeastTwo : 2 ≤ items.length) :
    (items.drop (splitPoint items.length)).length < items.length := by
  have := splitPoint_pos atLeastTwo
  simp only [List.length_drop]
  omega

theorem take_splitPoint_ne_nil {items : List α} (atLeastTwo : 2 ≤ items.length) :
    items.take (splitPoint items.length) ≠ [] := by
  have nonempty : items ≠ [] := by
    rintro rfl
    simp at atLeastTwo
  simp only [ne_eq, List.take_eq_nil_iff, not_or]
  exact ⟨(splitPoint_pos atLeastTwo).ne', nonempty⟩

theorem drop_splitPoint_ne_nil {items : List α} (atLeastTwo : 2 ≤ items.length) :
    items.drop (splitPoint items.length) ≠ [] := by
  simpa [List.drop_eq_nil_iff] using splitPoint_lt atLeastTwo

variable (leafHash : α → δ) (innerHash : δ → δ → δ)

/-! ## The root and the trails -/

/-- The root of the tree over the items; none for no items. -/
def rootHash (items : List α) : Option δ :=
  match _shape : items with
  | [] => none
  | [item] => some (leafHash item)
  | _ :: _ :: _ =>
      match rootHash (items.take (splitPoint items.length)),
          rootHash (items.drop (splitPoint items.length)) with
      | some left, some right => some (innerHash left right)
      | _, _ => none
termination_by items.length
decreasing_by
  · rw [← _shape]
    exact length_take_splitPoint_lt (by simp [_shape])
  · rw [← _shape]
    exact length_drop_splitPoint_lt (by simp [_shape])

/--
The trail of every item, with the root: the item's leaf hash and its aunts,
the leaf's sibling first.  The trails of the left subtree gain the right root
as their last aunt, and those of the right subtree the left root.
-/
def trails (items : List α) : List (δ × List δ) × Option δ :=
  match _shape : items with
  | [] => ([], none)
  | [item] => ([(leafHash item, [])], some (leafHash item))
  | _ :: _ :: _ =>
      let lefts := trails (items.take (splitPoint items.length))
      let rights := trails (items.drop (splitPoint items.length))
      match lefts.2, rights.2 with
      | some leftRoot, some rightRoot =>
          (lefts.1.map (fun trail => (trail.1, trail.2 ++ [rightRoot])) ++
              rights.1.map (fun trail => (trail.1, trail.2 ++ [leftRoot])),
            some (innerHash leftRoot rightRoot))
      | _, _ => ([], none)
termination_by items.length
decreasing_by
  · rw [← _shape]
    exact length_take_splitPoint_lt (by simp [_shape])
  · rw [← _shape]
    exact length_drop_splitPoint_lt (by simp [_shape])

/-! ## The verifier -/

/--
The root an item's leaf hash and aunts lead to at an index among `total`
items; none when the index is out of range or the number of aunts does not fit
the tree.
-/
def computeHashFromAunts (index total : Nat) (leaf : δ) (innerHashes : List δ) : Option δ :=
  if _outOfRange : total ≤ index ∨ total = 0 then
    none
  else if _single : total = 1 then
    if innerHashes.isEmpty then some leaf else none
  else
    match innerHashes.getLast? with
    | none => none
    | some last =>
        if index < splitPoint total then
          (computeHashFromAunts index (splitPoint total) leaf innerHashes.dropLast).map
            fun leftHash => innerHash leftHash last
        else
          (computeHashFromAunts (index - splitPoint total) (total - splitPoint total) leaf
              innerHashes.dropLast).map
            fun rightHash => innerHash last rightHash
termination_by total
decreasing_by
  · exact splitPoint_lt (by omega)
  · have := splitPoint_pos (show 2 ≤ total by omega)
    omega

/-! ## Unfolding at a split -/

theorem exists_cons_cons {items : List α} (atLeastTwo : 2 ≤ items.length) :
    ∃ first second rest, items = first :: second :: rest := by
  match items, atLeastTwo with
  | first :: second :: rest, _ => exact ⟨first, second, rest, rfl⟩

@[simp] theorem rootHash_nil : rootHash leafHash innerHash [] = none := by
  rw [rootHash]

@[simp] theorem rootHash_singleton (item : α) :
    rootHash leafHash innerHash [item] = some (leafHash item) := by
  rw [rootHash]

/-- Two or more items: the inner hash of the roots of the two subtrees. -/
theorem rootHash_of_split
    {items : List α}
    {left right : δ}
    (atLeastTwo : 2 ≤ items.length)
    (leftRoot : rootHash leafHash innerHash (items.take (splitPoint items.length)) = some left)
    (rightRoot : rootHash leafHash innerHash (items.drop (splitPoint items.length)) = some right) :
    rootHash leafHash innerHash items = some (innerHash left right) := by
  obtain ⟨first, second, rest, rfl⟩ := exists_cons_cons atLeastTwo
  rw [rootHash.eq_3, leftRoot, rightRoot]

@[simp] theorem trails_nil : trails leafHash innerHash [] = ([], none) := by
  rw [trails]

@[simp] theorem trails_singleton (item : α) :
    trails leafHash innerHash [item] = ([(leafHash item, [])], some (leafHash item)) := by
  rw [trails]

/-- Two or more items: the trails of the two subtrees, each extended by the other root. -/
theorem trails_of_split
    {items : List α}
    {left right : δ}
    (atLeastTwo : 2 ≤ items.length)
    (leftRoot : (trails leafHash innerHash (items.take (splitPoint items.length))).2 = some left)
    (rightRoot : (trails leafHash innerHash (items.drop (splitPoint items.length))).2 = some right) :
    trails leafHash innerHash items =
      ((trails leafHash innerHash (items.take (splitPoint items.length))).1.map
            (fun trail => (trail.1, trail.2 ++ [right])) ++
          (trails leafHash innerHash (items.drop (splitPoint items.length))).1.map
            (fun trail => (trail.1, trail.2 ++ [left])),
        some (innerHash left right)) := by
  obtain ⟨first, second, rest, rfl⟩ := exists_cons_cons atLeastTwo
  rw [trails.eq_3, leftRoot, rightRoot]

/-- The verifier at a left item: the last aunt is the right root. -/
theorem computeHashFromAunts_left
    {index total : Nat}
    {leaf last : δ}
    {aunts : List δ}
    (atLeastTwo : 2 ≤ total)
    (isLeft : index < splitPoint total) :
    computeHashFromAunts innerHash index total leaf (aunts ++ [last]) =
      (computeHashFromAunts innerHash index (splitPoint total) leaf aunts).map
        fun leftHash => innerHash leftHash last := by
  have inRange : index < total := lt_trans isLeft (splitPoint_lt atLeastTwo)
  rw [computeHashFromAunts, dif_neg (by omega), dif_neg (by omega), List.getLast?_concat]
  simp only [List.dropLast_concat, if_pos isLeft]

/-- The verifier at a right item: the last aunt is the left root. -/
theorem computeHashFromAunts_right
    {index total : Nat}
    {leaf last : δ}
    {aunts : List δ}
    (atLeastTwo : 2 ≤ total)
    (isRight : splitPoint total ≤ index)
    (inRange : index < total) :
    computeHashFromAunts innerHash index total leaf (aunts ++ [last]) =
      (computeHashFromAunts innerHash (index - splitPoint total) (total - splitPoint total) leaf
          aunts).map
        fun rightHash => innerHash last rightHash := by
  rw [computeHashFromAunts, dif_neg (by omega), dif_neg (by omega), List.getLast?_concat]
  simp only [List.dropLast_concat, if_neg (Nat.not_lt.mpr isRight)]

/-! ## Completeness -/

/-- A nonempty list of items has a root. -/
theorem rootHash_isSome {items : List α} (nonempty : items ≠ []) :
    ∃ root, rootHash leafHash innerHash items = some root := by
  induction items using rootHash.induct leafHash innerHash with
  | case1 => exact absurd rfl nonempty
  | case2 item => exact ⟨leafHash item, rootHash_singleton leafHash innerHash item⟩
  | case3 first second rest left right rightRoot leftRoot _ _ =>
      exact ⟨innerHash left right, rootHash_of_split leafHash innerHash (by simp) leftRoot rightRoot⟩
  | case4 first second rest notBoth leftInduction rightInduction =>
      have atLeastTwo : 2 ≤ (first :: second :: rest).length := by simp
      obtain ⟨left, leftRoot⟩ := leftInduction (take_splitPoint_ne_nil atLeastTwo)
      obtain ⟨right, rightRoot⟩ := rightInduction (drop_splitPoint_ne_nil atLeastTwo)
      exact absurd rightRoot (notBoth left right leftRoot)

/-- The root the trails are built with is the root of the items. -/
theorem trails_snd (items : List α) :
    (trails leafHash innerHash items).2 = rootHash leafHash innerHash items := by
  induction items using trails.induct leafHash innerHash with
  | case1 => simp
  | case2 item => simp
  | case3 first second rest left right _ _ rightRoot leftRoot leftInduction rightInduction =>
      have atLeastTwo : 2 ≤ (first :: second :: rest).length := by simp
      rw [trails_of_split leafHash innerHash atLeastTwo leftRoot rightRoot,
        rootHash_of_split leafHash innerHash atLeastTwo (leftInduction ▸ leftRoot)
          (rightInduction ▸ rightRoot)]
  | case4 first second rest _ _ notBoth leftInduction rightInduction =>
      -- both subtrees are nonempty, so both have roots and the last case cannot occur
      have atLeastTwo : 2 ≤ (first :: second :: rest).length := by simp
      obtain ⟨left, leftRoot⟩ := rootHash_isSome leafHash innerHash (take_splitPoint_ne_nil atLeastTwo)
      obtain ⟨right, rightRoot⟩ :=
        rootHash_isSome leafHash innerHash (drop_splitPoint_ne_nil atLeastTwo)
      exact (notBoth left right (leftInduction.trans leftRoot)
        (rightInduction.trans rightRoot)).elim

/-- The roots of the two subtrees of two or more items exist. -/
theorem trails_roots {items : List α} (atLeastTwo : 2 ≤ items.length) :
    ∃ left right,
      (trails leafHash innerHash (items.take (splitPoint items.length))).2 = some left ∧
        (trails leafHash innerHash (items.drop (splitPoint items.length))).2 = some right := by
  obtain ⟨left, leftRoot⟩ := rootHash_isSome leafHash innerHash (take_splitPoint_ne_nil atLeastTwo)
  obtain ⟨right, rightRoot⟩ := rootHash_isSome leafHash innerHash (drop_splitPoint_ne_nil atLeastTwo)
  exact ⟨left, right, (trails_snd leafHash innerHash _).trans leftRoot,
    (trails_snd leafHash innerHash _).trans rightRoot⟩

/-- There is one trail for every item. -/
theorem trails_length (items : List α) :
    (trails leafHash innerHash items).1.length = items.length := by
  induction items using trails.induct leafHash innerHash with
  | case1 => simp
  | case2 item => simp
  | case3 first second rest left right _ _ rightRoot leftRoot leftInduction rightInduction =>
      have atLeastTwo : 2 ≤ (first :: second :: rest).length := by simp
      have splitBelow := splitPoint_lt atLeastTwo
      rw [trails_of_split leafHash innerHash atLeastTwo leftRoot rightRoot]
      simp only [List.length_append, List.length_map, leftInduction, rightInduction,
        List.length_take, List.length_drop]
      omega
  | case4 first second rest _ _ notBoth _ _ =>
      have atLeastTwo : 2 ≤ (first :: second :: rest).length := by simp
      obtain ⟨left, right, leftRoot, rightRoot⟩ := trails_roots leafHash innerHash atLeastTwo
      exact (notBoth left right leftRoot rightRoot).elim

/--
The trail of every item holds the item's leaf hash, and its aunts lead from
that leaf hash back to the root at the item's index.
-/
def TrailsVerify (items : List α) : Prop :=
  ∀ (index : Nat) (inRange : index < items.length), ∃ trail,
    (trails leafHash innerHash items).1[index]? = some trail ∧
      trail.1 = leafHash items[index] ∧
      computeHashFromAunts innerHash index items.length trail.1 trail.2 =
        rootHash leafHash innerHash items

/-- The trails of two or more items verify when those of both subtrees do. -/
theorem trailsVerify_of_split
    {items : List α}
    (atLeastTwo : 2 ≤ items.length)
    (leftVerify : TrailsVerify leafHash innerHash (items.take (splitPoint items.length)))
    (rightVerify : TrailsVerify leafHash innerHash (items.drop (splitPoint items.length))) :
    TrailsVerify leafHash innerHash items := by
  intro index inRange
  obtain ⟨left, right, leftRoot, rightRoot⟩ := trails_roots leafHash innerHash atLeastTwo
  have leftHash := (trails_snd leafHash innerHash _).symm.trans leftRoot
  have rightHash := (trails_snd leafHash innerHash _).symm.trans rightRoot
  have splitBelow := splitPoint_lt atLeastTwo
  have takeLength : (items.take (splitPoint items.length)).length = splitPoint items.length := by
    simp only [List.length_take]
    omega
  have dropLength :
      (items.drop (splitPoint items.length)).length = items.length - splitPoint items.length :=
    List.length_drop
  have leftTrails : (trails leafHash innerHash (items.take (splitPoint items.length))).1.length =
      splitPoint items.length := by
    rw [trails_length, takeLength]
  rw [trails_of_split leafHash innerHash atLeastTwo leftRoot rightRoot,
    rootHash_of_split leafHash innerHash atLeastTwo leftHash rightHash]
  -- the index falls in the left subtree or in the right one
  by_cases isLeft : index < splitPoint items.length
  · obtain ⟨trail, found, leafOk, verifies⟩ := leftVerify index (by omega)
    refine ⟨(trail.1, trail.2 ++ [right]), ?_, ?_, ?_⟩
    · rw [List.getElem?_append_left (by rw [List.length_map]; omega), List.getElem?_map, found]
      rfl
    · simpa only [List.getElem_take] using leafOk
    · rw [computeHashFromAunts_left innerHash atLeastTwo isLeft, ← takeLength, verifies, leftHash]
      rfl
  · have isRight : splitPoint items.length ≤ index := Nat.not_lt.mp isLeft
    obtain ⟨trail, found, leafOk, verifies⟩ :=
      rightVerify (index - splitPoint items.length) (by omega)
    refine ⟨(trail.1, trail.2 ++ [left]), ?_, ?_, ?_⟩
    · rw [List.getElem?_append_right (by rw [List.length_map]; omega), List.length_map,
        leftTrails, List.getElem?_map, found]
      rfl
    · simpa only [List.getElem_drop, Nat.add_sub_cancel' isRight] using leafOk
    · rw [computeHashFromAunts_right innerHash atLeastTwo isRight inRange, ← dropLength, verifies,
        rightHash]
      rfl

/-- Completeness: the trails of all items verify. -/
theorem trails_verify (items : List α) : TrailsVerify leafHash innerHash items := by
  induction items using trails.induct leafHash innerHash with
  | case1 =>
      intro index inRange
      simp at inRange
  | case2 item =>
      intro index inRange
      obtain rfl : index = 0 := by simpa using inRange
      refine ⟨(leafHash item, []), by simp, rfl, ?_⟩
      simp [computeHashFromAunts]
  | case3 first second rest _ _ _ _ _ _ leftInduction rightInduction =>
      exact trailsVerify_of_split leafHash innerHash (by simp) leftInduction rightInduction
  | case4 first second rest _ _ _ leftInduction rightInduction =>
      exact trailsVerify_of_split leafHash innerHash (by simp) leftInduction rightInduction

end MerkleTree
