import Mathlib

/-!
# Binary heaps over a slice

Go's container/heap keeps a min-heap in a slice: the parent of position j is
(j - 1) / 2, up moves an entry towards the root while it is less than its
parent, and down(h, i0, n) moves it towards the leaves, within the first n
positions, while a child is less.  Init heapifies bottom up, Push appends and
moves up, Pop swaps the root with the last entry, moves the new root down
within the rest and removes the last entry, and Remove does the same for any
position, moving the entry that takes its place down or else up.

Each operation permutes the slice, and each turns a heap into a heap; Pop
returns a least entry.  The order invariants are those of the sift-up and
sift-down proofs: every edge holds except the ones at the moving entry.
-/

namespace ContainerHeap

variable {α : Type}

def parent (j : Nat) : Nat :=
  (j - 1) / 2

/-- The entry at a position; positions the code reads are within the slice. -/
def get [Inhabited α] (h : List α) (i : Nat) : α :=
  h.getD i default

/-- h.Swap(i, j). -/
def swap (h : List α) (i j : Nat) : List α :=
  if inRange : i < h.length ∧ j < h.length then (h.set i h[j]).set j h[i] else h

section Operations

variable [LinearOrder α] [Inhabited α]

/-- up(h, j). -/
def up (h : List α) (j : Nat) : List α :=
  let i := parent j
  if i = j ∨ ¬get h j < get h i then h
  else up (swap h i j) i
termination_by j
decreasing_by
  rename_i moving
  have distinct : parent j ≠ j := fun same => moving (Or.inl same)
  simp only [parent] at distinct ⊢
  omega

/-- The loop of down(h, i0, n): the slice after it and the position the entry reached. -/
def downFrom (h : List α) (i n : Nat) : List α × Nat :=
  let j1 := 2 * i + 1
  if n ≤ j1 then (h, i)
  else
    let j := if j1 + 1 < n ∧ get h (j1 + 1) < get h j1 then j1 + 1 else j1
    if ¬get h j < get h i then (h, i)
    else downFrom (swap h i j) j n
termination_by n - i
decreasing_by
  split_ifs <;> omega

/-- down(h, i0, n): the slice after it and whether the entry moved. -/
def down (h : List α) (i0 n : Nat) : List α × Bool :=
  let (h, i) := downFrom h i0 n
  (h, decide (i0 < i))

/-- heap.Init: down from every position with a child, the last of them first. -/
def init (h : List α) : List α :=
  let n := h.length
  (List.range (n / 2)).foldr (fun i h => (down h i n).1) h

/-- heap.Push. -/
def push (h : List α) (x : α) : List α :=
  up (h ++ [x]) h.length

/-- heap.Pop: the slice after it and the entry it returns. -/
def pop (h : List α) : List α × α :=
  let n := h.length - 1
  let h := (down (swap h 0 n) 0 n).1
  (h.dropLast, get h n)

/-- heap.Remove(h, i): the slice after it and the entry it returns. -/
def remove (h : List α) (i : Nat) : List α × α :=
  let n := h.length - 1
  let h :=
    if n ≠ i then
      let (h, moved) := down (swap h i n) i n
      if !moved then up h i else h
    else h
  (h.dropLast, get h n)

end Operations

/-! ## Positions -/

theorem parent_lt {j : Nat} (positive : 0 < j) : parent j < j := by
  unfold parent
  omega

@[simp] theorem parent_left (i : Nat) : parent (2 * i + 1) = i := by
  unfold parent
  omega

@[simp] theorem parent_right (i : Nat) : parent (2 * i + 2) = i := by
  unfold parent
  omega

theorem eq_child_of_parent {i k : Nat} (positive : 0 < k) (child : parent k = i) :
    k = 2 * i + 1 ∨ k = 2 * i + 2 := by
  unfold parent at child
  omega

/-! ## Swapping two entries -/

@[simp] theorem length_swap (h : List α) (i j : Nat) : (swap h i j).length = h.length := by
  unfold swap
  split_ifs <;> simp

theorem get_swap [Inhabited α] {h : List α} {i j : Nat} (iIn : i < h.length) (jIn : j < h.length) (k : Nat) :
    get (swap h i j) k = if k = j then get h i else if k = i then get h j else get h k := by
  unfold swap get
  rw [dif_pos ⟨iIn, jIn⟩]
  by_cases atJ : k = j
  · subst atJ
    simp [iIn, jIn]
  · by_cases atI : k = i
    · subst atI
      simp [iIn, jIn, atJ, Ne.symm atJ]
    · simp [List.getD_eq_getElem?_getD, Ne.symm atJ, Ne.symm atI, atI, atJ]

theorem swap_perm (h : List α) (i j : Nat) : (swap h i j).Perm h := by
  unfold swap
  split_ifs with inRange
  · exact List.set_set_perm inRange.1 inRange.2
  · exact List.Perm.refl h

section Entries

variable [Inhabited α]

theorem get_dropLast {h : List α} {k : Nat} (inRange : k < h.length - 1) :
    get h.dropLast k = get h k := by
  simp [get, List.getD_eq_getElem?_getD, inRange, List.getElem?_eq_getElem (show k < h.length by omega)]

/-- The last entry and the rest of a nonempty slice are the slice. -/
theorem cons_dropLast_perm {h : List α} (nonempty : h ≠ []) :
    (get h (h.length - 1) :: h.dropLast).Perm h := by
  have last : get h (h.length - 1) = h.getLast nonempty := by
    have lastIn : h.length - 1 < h.length := by
      have := List.length_pos_of_ne_nil nonempty
      omega
    simp [get, List.getD_eq_getElem?_getD, List.getLast_eq_getElem, List.getElem?_eq_getElem lastIn]
  rw [last]
  calc (h.getLast nonempty :: h.dropLast).Perm (h.dropLast ++ [h.getLast nonempty]) :=
        List.perm_append_singleton _ _ |>.symm
    _ = h := List.dropLast_append_getLast nonempty

theorem get_append_of_lt {h : List α} {x : α} {k : Nat} (inRange : k < h.length) :
    get (h ++ [x]) k = get h k := by
  simp [get, List.getD_eq_getElem?_getD, List.getElem?_append_left inRange]

end Entries

section Sift

variable [LinearOrder α] [Inhabited α]

/-! ## One step of up and of down -/

/-- up stops at the root or below a parent that is not greater, or swaps with the parent and goes on. -/
theorem up_step (h : List α) (j : Nat) :
    (up h j = h ∧ (j = 0 ∨ get h (parent j) ≤ get h j)) ∨
      (0 < j ∧ get h j < get h (parent j) ∧ up h j = up (swap h (parent j) j) (parent j)) := by
  rw [up]
  by_cases root : parent j = j
  · have atRoot : j = 0 := by
      unfold parent at root
      omega
    exact Or.inl ⟨by simp [root], Or.inl atRoot⟩
  · by_cases less : get h j < get h (parent j)
    · refine Or.inr ⟨?_, less, by simp [root, less]⟩
      unfold parent at root
      omega
    · exact Or.inl ⟨by simp [root, less], Or.inr (not_lt.mp less)⟩

/--
down stops where no child within n is less, or swaps with the least child
within n, which is less, and goes on from there.
-/
theorem downFrom_step (h : List α) (i n : Nat) :
    (downFrom h i n = (h, i) ∧ ∀ k, 0 < k → k < n → parent k = i → get h i ≤ get h k) ∨
      ∃ j, parent j = i ∧ 0 < j ∧ j < n ∧ get h j < get h i ∧
        (∀ k, 0 < k → k < n → parent k = i → get h j ≤ get h k) ∧
        downFrom h i n = downFrom (swap h i j) j n := by
  have children : ∀ k, 0 < k → parent k = i → k = 2 * i + 1 ∨ k = 2 * i + 2 :=
    fun k positive child => eq_child_of_parent positive child
  rw [downFrom]
  by_cases leaf : n ≤ 2 * i + 1
  · refine Or.inl ⟨by simp [leaf], fun k positive inRange child => ?_⟩
    rcases children k positive child with rfl | rfl <;> omega
  · by_cases right : 2 * i + 1 + 1 < n ∧ get h (2 * i + 1 + 1) < get h (2 * i + 1)
    · have least : ∀ k, 0 < k → k < n → parent k = i → get h (2 * i + 2) ≤ get h k := by
        intro k positive inRange child
        rcases children k positive child with rfl | rfl
        · exact right.2.le
        · exact le_rfl
      by_cases swaps : get h (2 * i + 1 + 1) < get h i
      · exact Or.inr ⟨2 * i + 2, parent_right i, by omega, right.1, swaps, least,
          by simp [leaf, right, swaps]⟩
      · refine Or.inl ⟨by simp [leaf, right, swaps], fun k positive inRange child => ?_⟩
        exact le_trans (not_lt.mp swaps) (least k positive inRange child)
    · have least : ∀ k, 0 < k → k < n → parent k = i → get h (2 * i + 1) ≤ get h k := by
        intro k positive inRange child
        rcases children k positive child with rfl | rfl
        · exact le_rfl
        · exact not_lt.mp fun less => right ⟨inRange, less⟩
      by_cases swaps : get h (2 * i + 1) < get h i
      · exact Or.inr ⟨2 * i + 1, parent_left i, by omega, by omega, swaps, least,
          by simp [leaf, right, swaps]⟩
      · refine Or.inl ⟨by simp [leaf, right, swaps], fun k positive inRange child => ?_⟩
        exact le_trans (not_lt.mp swaps) (least k positive inRange child)

/-! ## up and down permute the slice -/

/-- up permutes the slice and leaves the entries after j where they were. -/
theorem up_perm (j : Nat) :
    ∀ h : List α, j < h.length →
      (up h j).Perm h ∧ ∀ k, j < k → get (up h j) k = get h k := by
  induction j using Nat.strong_induction_on with
  | _ j inductionHypothesis =>
    intro h inRange
    rcases up_step h j with ⟨stops, -⟩ | ⟨positive, -, swaps⟩
    · rw [stops]
      exact ⟨List.Perm.refl h, fun _ _ => rfl⟩
    · have parentBelow := parent_lt positive
      obtain ⟨perm, after⟩ := inductionHypothesis (parent j) parentBelow (swap h (parent j) j)
        (by rw [length_swap]; omega)
      rw [swaps]
      refine ⟨perm.trans (swap_perm h _ _), fun k later => ?_⟩
      rw [after k (by omega), get_swap (by omega) inRange]
      simp [show k ≠ j by omega, show k ≠ parent j by omega]

/-- down within n permutes the slice and leaves the entries from n on where they were. -/
theorem downFrom_perm (n : Nat) :
    ∀ gap (h : List α) (i : Nat), n - i = gap → n ≤ h.length →
      (downFrom h i n).1.Perm h ∧ ∀ k, n ≤ k → get (downFrom h i n).1 k = get h k := by
  intro gap
  induction gap using Nat.strong_induction_on with
  | _ gap inductionHypothesis =>
    intro h i gapIs bound
    rcases downFrom_step h i n with ⟨stops, -⟩ | ⟨j, child, positive, inRange, -, -, swaps⟩
    · rw [stops]
      exact ⟨List.Perm.refl h, fun _ _ => rfl⟩
    · have below : i < j := by
        rw [← child]
        exact parent_lt positive
      obtain ⟨perm, after⟩ := inductionHypothesis (n - j) (by omega) (swap h i j) j rfl
        (by rw [length_swap]; exact bound)
      rw [swaps]
      refine ⟨perm.trans (swap_perm h i j), fun k later => ?_⟩
      rw [after k later, get_swap (by omega) (by omega)]
      simp [show k ≠ j by omega, show k ≠ i by omega]

/-- down ends at or below where it started, and if it ends where it started the slice is unchanged. -/
theorem downFrom_snd (n : Nat) :
    ∀ gap (h : List α) (i : Nat), n - i = gap →
      i ≤ (downFrom h i n).2 ∧ ((downFrom h i n).2 = i → (downFrom h i n).1 = h) := by
  intro gap
  induction gap using Nat.strong_induction_on with
  | _ gap inductionHypothesis =>
    intro h i gapIs
    rcases downFrom_step h i n with ⟨stops, -⟩ | ⟨j, child, positive, inRange, -, -, swaps⟩
    · rw [stops]
      exact ⟨le_rfl, fun _ => rfl⟩
    · have below : i < j := by
        rw [← child]
        exact parent_lt positive
      obtain ⟨reached, -⟩ := inductionHypothesis (n - j) (by omega) (swap h i j) j rfl
      rw [swaps]
      exact ⟨by omega, fun back => by omega⟩

/-! ## Heap order -/

/-- Every edge among the first n positions runs from a parent to a child that is not less. -/
def Ordered (h : List α) (n : Nat) : Prop :=
  ∀ k, 0 < k → k < n → get h (parent k) ≤ get h k

/-- The edges among the first n positions whose parent is at m or after hold. -/
def OrderedFrom (h : List α) (m n : Nat) : Prop :=
  ∀ k, 0 < k → k < n → m ≤ parent k → get h (parent k) ≤ get h k

/-- The slice is a min-heap. -/
def IsHeap (h : List α) : Prop :=
  Ordered h h.length

theorem ordered_iff_orderedFrom_zero (h : List α) (n : Nat) :
    Ordered h n ↔ OrderedFrom h 0 n :=
  ⟨fun ordered k positive inRange _ => ordered k positive inRange,
    fun ordered k positive inRange => ordered k positive inRange (Nat.zero_le _)⟩

/-- The root of an ordered prefix is a least entry of it. -/
theorem Ordered.root_le {h : List α} {n : Nat} (ordered : Ordered h n) :
    ∀ k, k < n → get h 0 ≤ get h k := by
  intro k
  induction k using Nat.strong_induction_on with
  | _ k inductionHypothesis =>
    intro inRange
    rcases Nat.eq_zero_or_pos k with rfl | positive
    · exact le_rfl
    · exact le_trans (inductionHypothesis (parent k) (parent_lt positive) (by
        have := parent_lt positive
        omega)) (ordered k positive inRange)

/-- The root of a heap is not greater than any of its entries. -/
theorem IsHeap.root_le_of_mem {h : List α} (heap : IsHeap h) {x : α} (mem : x ∈ h) :
    get h 0 ≤ x := by
  obtain ⟨k, inRange, rfl⟩ := List.getElem_of_mem mem
  have atK : get h k = h[k] := by simp [get, inRange]
  rw [← atK]
  exact Ordered.root_le heap k inRange

/-- Moving j up: every edge holds except the one into j, and j's parent is not greater than j's children. -/
structure UpReady (h : List α) (j n : Nat) : Prop where
  below : j < n
  ordered_except : ∀ k, 0 < k → k < n → k ≠ j → get h (parent k) ≤ get h k
  parent_below_children : ∀ k, 0 < k → k < n → parent k = j → 0 < j → get h (parent j) ≤ get h k

/-- Moving i down: every edge from m on holds except those out of i, and i's parent is not greater than i's children. -/
structure DownReady (h : List α) (i m n : Nat) : Prop where
  start : m ≤ i
  ordered_except : ∀ k, 0 < k → k < n → m ≤ parent k → parent k ≠ i → get h (parent k) ≤ get h k
  parent_below_children : ∀ k, 0 < k → k < n → parent k = i → m < i → get h (parent i) ≤ get h k

/-- Swapping j with a greater parent moves the one edge that may fail up to the parent. -/
theorem UpReady.swap {h : List α} {j n : Nat} (ready : UpReady h j n) (bound : n ≤ h.length)
    (positive : 0 < j) (less : get h j < get h (parent j)) :
    UpReady (swap h (parent j) j) (parent j) n := by
  have parentBelow := parent_lt positive
  have jBelow := ready.below
  have entry := get_swap (show parent j < h.length by omega) (show j < h.length by omega)
  refine ⟨by omega, ?_, ?_⟩
  · intro k kPositive kIn notParent
    by_cases atJ : k = j
    · subst atJ
      rw [entry, entry]
      simp [parentBelow.ne, less.le]
    · by_cases intoJ : parent k = j
      · -- a child of j now hangs below j's old parent
        have kAfter : j < k := by
          rw [← intoJ]
          exact parent_lt kPositive
        rw [entry, entry, intoJ]
        simp only [if_true, show k ≠ j by omega, show k ≠ parent j by omega, if_false]
        exact ready.parent_below_children k kPositive kIn intoJ positive
      · by_cases sibling : parent k = parent j
        · -- a sibling of j now hangs below j
          rw [entry, entry, sibling]
          simp only [show parent j ≠ j by omega, if_true, atJ, notParent, if_false]
          have old := ready.ordered_except k kPositive kIn atJ
          rw [sibling] at old
          exact le_trans less.le old
        · rw [entry, entry]
          simp only [intoJ, sibling, atJ, notParent, if_false]
          exact ready.ordered_except k kPositive kIn atJ
  · intro k kPositive kIn child parentPositive
    have grandparentBelow := parent_lt parentPositive
    have parentEdge := ready.ordered_except (parent j) parentPositive (by omega) (by omega)
    rw [entry, entry]
    simp only [show parent (parent j) ≠ j by omega, show parent (parent j) ≠ parent j by omega,
      if_false]
    by_cases atJ : k = j
    · subst atJ
      simpa using parentEdge
    · have kAfter : parent j < k := by
        rw [← child]
        exact parent_lt kPositive
      simp only [atJ, show k ≠ parent j by omega, if_false]
      have old := ready.ordered_except k kPositive kIn atJ
      rw [child] at old
      exact le_trans parentEdge old

/-- up restores the order of the first n positions from an UpReady slice. -/
theorem up_ordered {n : Nat} (j : Nat) :
    ∀ h : List α, UpReady h j n → n ≤ h.length → Ordered (up h j) n := by
  induction j using Nat.strong_induction_on with
  | _ j inductionHypothesis =>
    intro h ready bound
    rcases up_step h j with ⟨stops, holds⟩ | ⟨positive, less, swaps⟩
    · rw [stops]
      intro k positive inRange
      by_cases atJ : k = j
      · subst atJ
        rcases holds with atRoot | holds
        · omega
        · exact holds
      · exact ready.ordered_except k positive inRange atJ
    · rw [swaps]
      exact inductionHypothesis (parent j) (parent_lt positive) _ (ready.swap bound positive less)
        (by rw [length_swap]; exact bound)

/-- Swapping i with its least child, which is less, moves the edges that may fail down to the child. -/
theorem DownReady.swap {h : List α} {i j m n : Nat} (ready : DownReady h i m n)
    (bound : n ≤ h.length) (child : parent j = i) (positive : 0 < j) (inRange : j < n)
    (less : get h j < get h i) (least : ∀ k, 0 < k → k < n → parent k = i → get h j ≤ get h k) :
    DownReady (swap h i j) j m n := by
  have iBelow : i < j := by
    rw [← child]
    exact parent_lt positive
  have start := ready.start
  have entry := get_swap (show i < h.length by omega) (show j < h.length by omega)
  refine ⟨by omega, ?_, ?_⟩
  · intro k kPositive kIn fromM notJ
    by_cases outOfI : parent k = i
    · -- the children of i now hang below the least of them
      have kAfter : i < k := by
        rw [← outOfI]
        exact parent_lt kPositive
      rw [entry, entry, outOfI]
      by_cases atJ : k = j
      · subst atJ
        simpa [iBelow.ne] using less.le
      · simp only [show i ≠ j by omega, if_true, atJ, show k ≠ i by omega, if_false]
        exact least k kPositive kIn outOfI
    · by_cases atI : k = i
      · -- the edge into i now ends at the least child
        subst atI
        have intoI := ready.parent_below_children j positive inRange child
          (lt_of_le_of_lt fromM (parent_lt kPositive))
        have parentBelow := parent_lt kPositive
        rw [entry, entry]
        simpa [show parent k ≠ j by omega, parentBelow.ne, iBelow.ne] using intoI
      · have kNotJ : k ≠ j := fun same => outOfI (same ▸ child)
        rw [entry, entry]
        simp only [notJ, outOfI, kNotJ, atI, if_false]
        exact ready.ordered_except k kPositive kIn fromM outOfI
  · intro k kPositive kIn intoJ _
    have kAfter : j < k := by
      rw [← intoJ]
      exact parent_lt kPositive
    have old := ready.ordered_except k kPositive kIn (by omega) (by omega)
    rw [intoJ] at old
    rw [entry, entry, child]
    simpa [show k ≠ j by omega, show k ≠ i by omega, iBelow.ne] using old

/-- down within n makes every edge from m on hold, from a DownReady slice. -/
theorem downFrom_ordered {m n : Nat} :
    ∀ gap (h : List α) (i : Nat), n - i = gap → DownReady h i m n → n ≤ h.length →
      OrderedFrom (downFrom h i n).1 m n := by
  intro gap
  induction gap using Nat.strong_induction_on with
  | _ gap inductionHypothesis =>
    intro h i gapIs ready bound
    rcases downFrom_step h i n with ⟨stops, holds⟩ | ⟨j, child, positive, inRange, less, least, swaps⟩
    · rw [stops]
      intro k positive inRange fromM
      by_cases outOfI : parent k = i
      · rw [outOfI]
        exact holds k positive inRange outOfI
      · exact ready.ordered_except k positive inRange fromM outOfI
    · have below : i < j := by
        rw [← child]
        exact parent_lt positive
      rw [swaps]
      exact inductionHypothesis (n - j) (by omega) _ j rfl
        (ready.swap bound child positive inRange less least) (by rw [length_swap]; exact bound)

/-- up leaves an ordered prefix as it is. -/
theorem up_of_ordered {h : List α} {j n : Nat} (ordered : Ordered h n) (inRange : j < n) :
    up h j = h := by
  rcases up_step h j with ⟨stops, -⟩ | ⟨positive, less, -⟩
  · exact stops
  · exact absurd (ordered j positive inRange) (not_le.mpr less)

/-! ## The operations -/

theorem down_eq_downFrom (h : List α) (i n : Nat) :
    (down h i n).1 = (downFrom h i n).1 ∧ (down h i n).2 = decide (i < (downFrom h i n).2) :=
  ⟨rfl, rfl⟩

/-- Dropping the last entry of a slice ordered before it leaves a heap. -/
theorem isHeap_dropLast {h : List α} (ordered : Ordered h (h.length - 1)) : IsHeap h.dropLast := by
  intro k positive inRange
  rw [List.length_dropLast] at inRange
  rw [get_dropLast inRange, get_dropLast (by have := parent_lt positive; omega)]
  exact ordered k positive inRange

/-- Push keeps a heap a heap, with the new entry among the others. -/
theorem push_spec {h : List α} (heap : IsHeap h) (x : α) :
    (push h x).Perm (x :: h) ∧ IsHeap (push h x) := by
  have ready : UpReady (h ++ [x]) h.length (h.length + 1) := by
    refine ⟨by omega, fun k positive inRange notLast => ?_, fun k positive inRange child _ => ?_⟩
    · have kIn : k < h.length := by omega
      rw [get_append_of_lt kIn, get_append_of_lt (by have := parent_lt positive; omega)]
      exact heap k positive kIn
    · have := parent_lt positive
      omega
  obtain ⟨perm, -⟩ := up_perm h.length (h ++ [x]) (by simp)
  refine ⟨perm.trans (List.perm_append_singleton x h), ?_⟩
  have ordered := up_ordered h.length (h ++ [x]) ready (by simp)
  unfold IsHeap push
  rw [(up_perm h.length (h ++ [x]) (by simp)).1.length_eq]
  simpa using ordered

/-- Pop returns the root, a least entry, and leaves the other entries as a heap. -/
theorem pop_spec {h : List α} (heap : IsHeap h) (nonempty : h ≠ []) :
    ((pop h).2 :: (pop h).1).Perm h ∧ IsHeap (pop h).1 ∧ (pop h).2 = get h 0 ∧
      ∀ k < h.length, (pop h).2 ≤ get h k := by
  have lengthPositive := List.length_pos_of_ne_nil nonempty
  have entry := get_swap (show 0 < h.length by omega) (show h.length - 1 < h.length by omega)
  -- the last entry moves to the root, and every edge not out of the root still holds
  have ready : DownReady (swap h 0 (h.length - 1)) 0 0 (h.length - 1) := by
    refine ⟨le_rfl, fun k positive inRange _ notRoot => ?_, fun k _ _ _ notBelow => absurd notBelow (lt_irrefl 0)⟩
    rw [entry, entry]
    simp only [show k ≠ h.length - 1 by omega, show parent k ≠ h.length - 1 by
      have := parent_lt positive; omega, notRoot, show k ≠ 0 by omega, if_false]
    exact heap k positive (by omega)
  have bound : h.length - 1 ≤ (swap h 0 (h.length - 1)).length := by simp
  obtain ⟨perm, untouched⟩ := downFrom_perm (h.length - 1) _ (swap h 0 (h.length - 1)) 0 rfl bound
  have ordered := downFrom_ordered _ _ 0 rfl ready bound
  have popped : (pop h).2 = get h 0 := by
    simp only [pop, down]
    rw [untouched _ le_rfl, entry]
    simp
  have sameLength : (downFrom (swap h 0 (h.length - 1)) 0 (h.length - 1)).1.length = h.length := by
    rw [perm.length_eq, length_swap]
  refine ⟨?_, ?_, popped, fun k inRange => popped ▸ (heap.root_le k inRange)⟩
  · have nonemptyAfter : (downFrom (swap h 0 (h.length - 1)) 0 (h.length - 1)).1 ≠ [] := by
      intro empty
      rw [empty] at sameLength
      simp at sameLength
      omega
    have lastPopped := cons_dropLast_perm nonemptyAfter
    rw [sameLength] at lastPopped
    simp only [pop, down]
    exact lastPopped.trans (perm.trans (swap_perm h _ _))
  · simp only [pop, down]
    apply isHeap_dropLast
    rw [sameLength]
    exact (ordered_iff_orderedFrom_zero _ _).mpr ordered

theorem length_pop (h : List α) : (pop h).1.length = h.length - 1 := by
  simp only [pop, down]
  rw [List.length_dropLast, (downFrom_perm (h.length - 1) _ _ 0 rfl (by simp)).1.length_eq, length_swap]

/-- Init turns any slice into a heap of the same entries. -/
theorem init_spec (h : List α) : (init h).Perm h ∧ IsHeap (init h) := by
  -- down from i, i+1, ..., i+c-1, the last first, orders every edge from parent i on
  have loop : ∀ c i, i + c = h.length / 2 →
      ((List.range' i c).foldr (fun i h' => (down h' i h.length).1) h).Perm h ∧
        OrderedFrom ((List.range' i c).foldr (fun i h' => (down h' i h.length).1) h) i h.length := by
    intro c
    induction c with
    | zero =>
        intro i top
        refine ⟨List.Perm.refl h, fun k positive inRange fromI => ?_⟩
        unfold parent at fromI
        simp only [List.range'_zero, List.foldr_nil]
        omega
    | succ c inductionHypothesis =>
        intro i top
        obtain ⟨perm, ordered⟩ := inductionHypothesis (i + 1) (by omega)
        have bound : h.length ≤ ((List.range' (i + 1) c).foldr
            (fun i h' => (down h' i h.length).1) h).length := by rw [perm.length_eq]
        have ready : DownReady ((List.range' (i + 1) c).foldr
            (fun i h' => (down h' i h.length).1) h) i i h.length :=
          ⟨le_rfl, fun k positive inRange fromI notI => ordered k positive inRange (by omega),
            fun k _ _ _ notBelow => absurd notBelow (lt_irrefl i)⟩
        rw [List.range'_succ, List.foldr_cons]
        exact ⟨(downFrom_perm h.length _ _ i rfl bound).1.trans perm,
          downFrom_ordered _ _ i rfl ready bound⟩
  obtain ⟨perm, ordered⟩ := loop (h.length / 2) 0 (by omega)
  simp only [init, List.range_eq_range']
  refine ⟨perm, ?_⟩
  unfold IsHeap
  rw [perm.length_eq]
  exact (ordered_iff_orderedFrom_zero _ _).mpr ordered

/--
Remove before its final Pop, for a position before the last: the last entry
takes the position and moves down, or else up; the slice is a permutation, its
first n entries are ordered, and the removed entry is at n.
-/
theorem remove_moved {h : List α} (heap : IsHeap h) {i : Nat} (before : i < h.length - 1) :
    let moved := (let (h', moved) := down (swap h i (h.length - 1)) i (h.length - 1)
      if !moved then up h' i else h')
    moved.Perm h ∧ Ordered moved (h.length - 1) ∧ get moved (h.length - 1) = get h i := by
  intro moved
  have entry := get_swap (show i < h.length by omega) (show h.length - 1 < h.length by omega)
  have bound : h.length - 1 ≤ (swap h i (h.length - 1)).length := by simp
  obtain ⟨perm, untouched⟩ := downFrom_perm (h.length - 1) _ (swap h i (h.length - 1)) i rfl bound
  -- the entries of h at positions other than i and the last are where they were
  have same : ∀ k, k < h.length - 1 → k ≠ i → get (swap h i (h.length - 1)) k = get h k := by
    intro k inRange notI
    rw [entry]
    simp [show k ≠ h.length - 1 by omega, notI]
  by_cases smaller : 0 < i ∧ get h (h.length - 1) < get h (parent i)
  · -- the last entry is less than i's parent: down leaves it, and up moves it
    have parentBelow := parent_lt smaller.1
    have aboveI : get h (parent i) ≤ get h i := heap i smaller.1 (by omega)
    have stays : downFrom (swap h i (h.length - 1)) i (h.length - 1) = (swap h i (h.length - 1), i) := by
      rcases downFrom_step (swap h i (h.length - 1)) i (h.length - 1) with
        ⟨stops, -⟩ | ⟨j, child, positive, inRange, less, -, -⟩
      · exact stops
      · have jAfter : i < j := by
          rw [← child]
          exact parent_lt positive
        have belowI : get h i ≤ get h j := by
          have edge := heap j positive (by omega)
          rwa [child] at edge
        rw [same j inRange (by omega), entry] at less
        simp only [show i ≠ h.length - 1 by omega, if_true, if_false] at less
        exact absurd less (not_lt.mpr (le_trans (le_trans smaller.2.le aboveI) belowI))
    have ready : UpReady (swap h i (h.length - 1)) i (h.length - 1) := by
      refine ⟨before, fun k positive inRange notI => ?_, fun k positive inRange child _ => ?_⟩
      · by_cases outOfI : parent k = i
        · have belowI : get h i ≤ get h k := by
            have edge := heap k positive (by omega)
            rwa [outOfI] at edge
          rw [outOfI, same k inRange notI, entry]
          simp only [show i ≠ h.length - 1 by omega, if_true, if_false]
          exact le_trans (le_trans smaller.2.le aboveI) belowI
        · have := parent_lt positive
          rw [same k inRange notI, same (parent k) (by omega) outOfI]
          exact heap k positive (by omega)
      · have belowI : get h i ≤ get h k := by
          have edge := heap k positive (by omega)
          rwa [child] at edge
        rw [same k inRange (by have := parent_lt positive; omega), same (parent i) (by omega)
          parentBelow.ne]
        exact le_trans aboveI belowI
    have movedIs : moved = up (swap h i (h.length - 1)) i := by
      simp [moved, down, stays]
    obtain ⟨upPerm, upUntouched⟩ := up_perm i (swap h i (h.length - 1)) (by simp; omega)
    rw [movedIs]
    refine ⟨upPerm.trans (swap_perm h _ _), up_ordered i _ ready bound, ?_⟩
    rw [upUntouched _ before, entry]
    simp
  · -- otherwise the last entry is not less than i's parent, and down orders the prefix
    have ready : DownReady (swap h i (h.length - 1)) i 0 (h.length - 1) := by
      refine ⟨Nat.zero_le i, fun k positive inRange _ notOutOfI => ?_,
        fun k positive inRange child afterRoot => ?_⟩
      · by_cases atI : k = i
        · subst atI
          have := parent_lt positive
          rw [same (parent k) (by omega) notOutOfI, entry]
          simp only [if_true, show k ≠ h.length - 1 by omega, if_false]
          exact not_lt.mp fun less => smaller ⟨positive, less⟩
        · have := parent_lt positive
          rw [same k inRange atI, same (parent k) (by omega) notOutOfI]
          exact heap k positive (by omega)
      · have parentBelow := parent_lt afterRoot
        have belowI : get h i ≤ get h k := by
          have edge := heap k positive (by omega)
          rwa [child] at edge
        rw [same k inRange (by have := parent_lt positive; omega), same (parent i) (by omega)
          parentBelow.ne]
        exact le_trans (heap i afterRoot (by omega)) belowI
    have ordered := (ordered_iff_orderedFrom_zero _ _).mpr (downFrom_ordered _ _ i rfl ready bound)
    have movedIs : moved = (downFrom (swap h i (h.length - 1)) i (h.length - 1)).1 := by
      obtain ⟨sifted, -⟩ := down_eq_downFrom (swap h i (h.length - 1)) i (h.length - 1)
      cases flag : (down (swap h i (h.length - 1)) i (h.length - 1)).2
      · simp only [moved, flag, Bool.not_false, if_true]
        rw [sifted]
        exact up_of_ordered ordered before
      · simp only [moved, flag, Bool.not_true, Bool.false_eq_true, if_false]
        rw [sifted]
    rw [movedIs]
    refine ⟨perm.trans (swap_perm h _ _), ordered, ?_⟩
    rw [untouched _ le_rfl, entry]
    simp

/-- Remove returns the entry at the position and leaves the other entries as a heap. -/
theorem remove_spec {h : List α} (heap : IsHeap h) {i : Nat} (inRange : i < h.length) :
    ((remove h i).2 :: (remove h i).1).Perm h ∧ IsHeap (remove h i).1 ∧ (remove h i).2 = get h i := by
  by_cases last : h.length - 1 = i
  · have nonempty : h ≠ [] := List.ne_nil_of_length_pos (by omega)
    have removed : remove h i = (h.dropLast, get h (h.length - 1)) := by
      simp [remove, last]
    rw [removed]
    refine ⟨cons_dropLast_perm nonempty, isHeap_dropLast fun k positive kIn => heap k positive (by omega),
      by rw [last]⟩
  · obtain ⟨perm, ordered, atLast⟩ := remove_moved heap (show i < h.length - 1 by omega)
    have nonempty : (let (h', moved) := down (swap h i (h.length - 1)) i (h.length - 1)
        if !moved then up h' i else h') ≠ [] := by
      intro empty
      have := perm.length_eq
      rw [empty] at this
      simp at this
      omega
    have removed : remove h i = ((let (h', moved) := down (swap h i (h.length - 1)) i (h.length - 1)
        if !moved then up h' i else h').dropLast, get h i) := by
      simp only [remove, ne_eq, last, not_false_eq_true, if_true]
      rw [← atLast]
    rw [removed]
    have lastIs := cons_dropLast_perm nonempty
    rw [perm.length_eq, atLast] at lastIs
    refine ⟨lastIs.trans perm, isHeap_dropLast ?_, rfl⟩
    rw [perm.length_eq]
    exact ordered

end Sift

end ContainerHeap
