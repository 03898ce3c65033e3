import Kardia.ContainerHeap
import Kardia.Runs

/-!
# The nonce-sorted transaction map

txSortedMap keeps an account's transactions by nonce: a map from nonce to
transaction, a nonceHeap index of the map's nonces, and a cache of the
transactions sorted by nonce, which Flatten fills and the other operations
either drop or cut down.  Forward pops the index while its least nonce is
below a threshold, Cap sorts the index and drops its highest nonces, and Ready
pops consecutive nonces from the least one on.

The map is kept as a list of nonce and transaction pairs in the order its
range loops visit them; a nonce is uint64, which none of the operations
here overflows.  Every operation keeps the index a heap of exactly the map's
nonces and the cache, when there is one, the map's transactions sorted by
nonce; from these the results of Flatten, Forward, Cap and Ready are the ones
their comments promise.
-/

namespace Kardia.TxPool

open ContainerHeap

/-- A txSortedMap over transactions of type Tx. -/
structure TxSortedMap (Tx : Type) where
  items : List (Nat × Tx)
  index : List Nat
  cache : Option (List Tx)

section Model

variable {Tx : Type} (nonce : Tx → Nat)

def newTxSortedMap : TxSortedMap Tx :=
  ⟨[], [], none⟩

/-- m.items[nonce] = tx: overwrite the entry of the nonce, or add one. -/
def storeItem (items : List (Nat × Tx)) (key : Nat) (tx : Tx) : List (Nat × Tx) :=
  if (items.lookup key).isSome then items.map fun entry => if entry.1 = key then (key, tx) else entry
  else items ++ [(key, tx)]

/-- delete(m.items, nonce). -/
def deleteItem (items : List (Nat × Tx)) (key : Nat) : List (Nat × Tx) :=
  items.filter fun entry => entry.1 ≠ key

namespace TxSortedMap

/-- Put: push a new nonce on the index, store the transaction and drop the cache. -/
def put (m : TxSortedMap Tx) (tx : Tx) : TxSortedMap Tx :=
  let key := nonce tx
  let index := if m.items.lookup key = none then push m.index key else m.index
  { items := storeItem m.items key tx, index := index, cache := none }

/-- The loop of Forward: pop the index while its least nonce is below the threshold. -/
def forwardLoop (threshold : Nat) (index : List Nat) (items : List (Nat × Tx)) (removed : List Tx) :
    List Nat × List (Nat × Tx) × List Tx :=
  if _ : index ≠ [] ∧ get index 0 < threshold then
    -- nonce := heap.Pop(m.index)
    forwardLoop threshold (pop index).1 (deleteItem items (pop index).2)
      (removed ++ (items.lookup (pop index).2).toList)
  else (index, items, removed)
termination_by index.length
decreasing_by
  rename_i continuing
  rw [length_pop]
  have := List.length_pos_of_ne_nil continuing.1
  omega

/-- Forward: the map without the nonces below the threshold, and their transactions. -/
def forward (m : TxSortedMap Tx) (threshold : Nat) : TxSortedMap Tx × List Tx :=
  let (index, items, removed) := forwardLoop threshold m.index m.items []
  ({ items := items, index := index, cache := m.cache.map fun cache => cache.drop removed.length },
    removed)

/-- filter (lower case): remove the transactions the filter holds for, leaving the index as it was. -/
def filterStale (m : TxSortedMap Tx) (filter : Tx → Bool) : TxSortedMap Tx × List Tx :=
  let removed := (m.items.filter fun entry => filter entry.2).map Prod.snd
  ({ items := m.items.filter fun entry => !filter entry.2, index := m.index,
      cache := if removed ≠ [] then none else m.cache },
    removed)

/-- reheap: rebuild the index from the map's nonces and drop the cache. -/
def reheap (m : TxSortedMap Tx) : TxSortedMap Tx :=
  { m with index := init (m.items.map Prod.fst), cache := none }

/-- Filter: filter, then reheap when anything was removed. -/
def filter (m : TxSortedMap Tx) (filter : Tx → Bool) : TxSortedMap Tx × List Tx :=
  let (m, removed) := m.filterStale filter
  (if removed ≠ [] then m.reheap else m, removed)

/--
Cap: sort the index, drop the transactions of its highest nonces until
threshold remain, heapify what is left of the index and cut the cache.
-/
def cap (m : TxSortedMap Tx) (threshold : Nat) : TxSortedMap Tx × List Tx :=
  if m.items.length ≤ threshold then (m, [])
  else
    let sorted := m.index.insertionSort (· ≤ ·)
    -- size runs from len(m.items) down to threshold + 1, dropping sorted[size-1]
    let dropped := (List.range (m.items.length - threshold)).map fun step =>
      get sorted (m.items.length - 1 - step)
    let drops := dropped.filterMap fun key => m.items.lookup key
    ({ items := m.items.filter fun entry => entry.1 ∉ dropped,
        index := init (sorted.take threshold),
        cache := m.cache.map fun cache => cache.take (cache.length - drops.length) },
      drops)

/-- Remove: delete the nonce from the map and, at its first place, from the index. -/
def remove (m : TxSortedMap Tx) (key : Nat) : TxSortedMap Tx × Bool :=
  match m.items.lookup key with
  | none => (m, false)
  | some _ =>
    let index := match m.index.findIdx? (· = key) with
      | some i => (ContainerHeap.remove m.index i).1
      | none => m.index
    ({ items := deleteItem m.items key, index := index, cache := none }, true)

/-- The loop of Ready: pop the index while its least nonce is the next one. -/
def readyLoop (next : Nat) (index : List Nat) (items : List (Nat × Tx)) (ready : List Tx) :
    List Nat × List (Nat × Tx) × List Tx :=
  if _ : index ≠ [] ∧ get index 0 = next then
    readyLoop (next + 1) (pop index).1 (deleteItem items next) (ready ++ (items.lookup next).toList)
  else (index, items, ready)
termination_by index.length
decreasing_by
  rename_i continuing
  rw [length_pop]
  have := List.length_pos_of_ne_nil continuing.1
  omega

/-- Ready: the transactions of consecutive nonces from the least one on, if that is at most start. -/
def ready (m : TxSortedMap Tx) (start : Nat) : TxSortedMap Tx × List Tx :=
  if m.index = [] ∨ get m.index 0 > start then (m, [])
  else
    let (index, items, ready) := readyLoop (get m.index 0) m.index m.items []
    ({ items := items, index := index, cache := none }, ready)

/-- flatten: the cache, filled with the transactions sorted by nonce when there is none. -/
def flatten (m : TxSortedMap Tx) : TxSortedMap Tx × List Tx :=
  match m.cache with
  | some cache => (m, cache)
  | none =>
    let cache := (m.items.map Prod.snd).insertionSort fun a b => nonce a ≤ nonce b
    ({ m with cache := some cache }, cache)

end TxSortedMap

end Model

/-! ## Entries in nonce order -/

section Sorting

variable {Tx : Type}

/-- The entries sorted by nonce: the order the cache and Flatten promise. -/
def byNonce (items : List (Nat × Tx)) : List (Nat × Tx) :=
  items.insertionSort fun a b => a.1 ≤ b.1

theorem byNonce_perm (items : List (Nat × Tx)) : (byNonce items).Perm items :=
  List.perm_insertionSort _ _

theorem byNonce_pairwise (items : List (Nat × Tx)) :
    (byNonce items).Pairwise fun a b => a.1 ≤ b.1 :=
  haveI : Std.Total fun a b : Nat × Tx => a.1 ≤ b.1 := ⟨fun a b => le_total a.1 b.1⟩
  haveI : IsTrans (Nat × Tx) fun a b => a.1 ≤ b.1 := ⟨fun _ _ _ => le_trans⟩
  List.pairwise_insertionSort _ items

/-- With distinct nonces, the entries in nonce order are the only list of them sorted by nonce. -/
theorem eq_byNonce {items sorted : List (Nat × Tx)} (distinct : (items.map Prod.fst).Nodup)
    (perm : sorted.Perm items) (ordered : sorted.Pairwise fun a b => a.1 ≤ b.1) :
    sorted = byNonce items := by
  apply List.Perm.eq_of_pairwise _ ordered (byNonce_pairwise items)
    (perm.trans (byNonce_perm items).symm)
  intro a b aIn bIn ab ba
  exact List.inj_on_of_nodup_map distinct (perm.subset aIn) ((byNonce_perm items).subset bIn)
    (Nat.le_antisymm ab ba)

theorem byNonce_filter {items : List (Nat × Tx)} (distinct : (items.map Prod.fst).Nodup)
    (p : Nat × Tx → Bool) : byNonce (items.filter p) = (byNonce items).filter p :=
  (eq_byNonce (((List.filter_sublist).map Prod.fst).nodup distinct)
    ((byNonce_perm items).filter p) ((byNonce_pairwise items).filter p)).symm

/-- A list sorted by nonce is its entries below a threshold followed by the others. -/
theorem filter_lt_append_filter_le {l : List (Nat × Tx)} (ordered : l.Pairwise fun a b => a.1 ≤ b.1)
    (threshold : Nat) :
    l.filter (fun entry => entry.1 < threshold) ++ l.filter (fun entry => threshold ≤ entry.1) = l := by
  induction l with
  | nil => rfl
  | cons first rest inductionHypothesis =>
    obtain ⟨firstLeast, restOrdered⟩ := List.pairwise_cons.mp ordered
    by_cases below : first.1 < threshold
    · simp [below, inductionHypothesis restOrdered]
    -- every later entry is above the first, so none of them is below the threshold
    · have noneBelow : rest.filter (fun entry => entry.1 < threshold) = [] :=
        List.filter_eq_nil_iff.mpr fun entry entryIn => by
          have := firstLeast entry entryIn
          simp only [decide_eq_true_eq]
          omega
      have allAbove : rest.filter (fun entry => threshold ≤ entry.1) = rest :=
        List.filter_eq_self.mpr fun entry entryIn => by
          have := firstLeast entry entryIn
          simp only [decide_eq_true_eq]
          omega
      simp [below, noneBelow, allAbove, show threshold ≤ first.1 by omega]

/-- Leaving out the nonces past the first k of a list with distinct nonces keeps the first k. -/
theorem filter_not_mem_drop {l : List (Nat × Tx)} (distinct : (l.map Prod.fst).Nodup) (k : Nat) :
    l.filter (fun entry => entry.1 ∉ (l.drop k).map Prod.fst) = l.take k := by
  have parts := distinct
  rw [← List.take_append_drop k l, List.map_append, List.nodup_append] at parts
  obtain ⟨-, -, disjoint⟩ := parts
  have firstKept : (l.take k).filter (fun entry => entry.1 ∉ (l.drop k).map Prod.fst) = l.take k :=
    List.filter_eq_self.mpr fun entry mem => by
      simpa using fun later => disjoint _ (List.mem_map_of_mem mem) _ later rfl
  have restGone : (l.drop k).filter (fun entry => entry.1 ∉ (l.drop k).map Prod.fst) = [] :=
    List.filter_eq_nil_iff.mpr fun entry mem => by simpa using List.mem_map_of_mem mem
  calc l.filter (fun entry => entry.1 ∉ (l.drop k).map Prod.fst)
      = (l.take k ++ l.drop k).filter (fun entry => entry.1 ∉ (l.drop k).map Prod.fst) := by
        rw [List.take_append_drop]
    _ = l.take k := by rw [List.filter_append, firstKept, restGone, List.append_nil]

/-- The entries of consecutive nonces from next on at the head of a list: the run Ready takes. -/
def consecutiveRun : Nat → List (Nat × Tx) → List (Nat × Tx)
  | _, [] => []
  | next, entry :: rest => if entry.1 = next then entry :: consecutiveRun (next + 1) rest else []

/--
The run is a prefix of the list with the nonces next, next + 1, and so on, and
the list does not go on with the nonce after them: it is the longest such run.
-/
theorem consecutiveRun_maximal (next : Nat) (l : List (Nat × Tx)) :
    ∃ rest, l = consecutiveRun next l ++ rest ∧
      (consecutiveRun next l).map Prod.fst = List.range' next (consecutiveRun next l).length ∧
      ∀ first ∈ rest.head?, first.1 ≠ next + (consecutiveRun next l).length := by
  induction l generalizing next with
  | nil => exact ⟨[], rfl, rfl, by simp⟩
  | cons first rest inductionHypothesis =>
    by_cases isNext : first.1 = next
    · obtain ⟨after, split, nonces, stops⟩ := inductionHypothesis (next + 1)
      refine ⟨after, ?_, ?_, ?_⟩
      · simpa [consecutiveRun, isNext] using split
      · simp [consecutiveRun, isNext, nonces, List.range'_succ]
      · simpa [consecutiveRun, isNext, Nat.add_assoc, Nat.add_comm 1] using stops
    · exact ⟨first :: rest, by simp [consecutiveRun, isNext], by simp [consecutiveRun, isNext],
        by simp [consecutiveRun, isNext]⟩

/-- What Ready promises of entries in nonce order: the run from the least nonce, when that is at most start. -/
def readyRun (start : Nat) : List (Nat × Tx) → List (Nat × Tx)
  | [] => []
  | first :: rest => if first.1 ≤ start then consecutiveRun first.1 (first :: rest) else []

end Sorting

/-! ## The index of a map -/

section Index

variable {Tx : Type}

theorem lookup_of_mem {items : List (Nat × Tx)} (distinct : (items.map Prod.fst).Nodup)
    {entry : Nat × Tx} (mem : entry ∈ items) : items.lookup entry.1 = some entry.2 := by
  induction items with
  | nil => cases mem
  | cons first rest inductionHypothesis =>
    obtain ⟨firstNew, restDistinct⟩ := List.nodup_cons.mp distinct
    rcases List.mem_cons.mp mem with rfl | later
    · simp [List.lookup]
    · have differs : entry.1 ≠ first.1 := fun same => firstNew (same ▸ List.mem_map_of_mem later)
      simp [List.lookup, beq_false_of_ne differs, inductionHypothesis restDistinct later]

theorem lookup_eq_none_iff_not_mem {items : List (Nat × Tx)} {key : Nat} :
    items.lookup key = none ↔ key ∉ items.map Prod.fst := by
  rw [List.lookup_eq_none_iff]
  simp only [bne_iff_ne, ne_eq, List.mem_map, not_exists, not_and]
  exact ⟨fun differs entry mem same => differs entry mem same.symm,
    fun differs entry mem same => differs entry mem same.symm⟩

/-- Deleting the nonce of an entry leaves the other entries. -/
theorem cons_deleteItem_perm {items : List (Nat × Tx)} (distinct : (items.map Prod.fst).Nodup)
    {entry : Nat × Tx} (mem : entry ∈ items) : (entry :: deleteItem items entry.1).Perm items := by
  have entriesDistinct : items.Nodup := List.Nodup.of_map Prod.fst distinct
  have consDistinct : (entry :: deleteItem items entry.1).Nodup :=
    List.nodup_cons.mpr ⟨by simp [deleteItem], entriesDistinct.filter _⟩
  refine (List.perm_ext_iff_of_nodup consDistinct entriesDistinct).mpr fun other => ?_
  simp only [deleteItem, List.mem_cons, List.mem_filter, decide_eq_true_eq]
  constructor
  · rintro (rfl | ⟨otherIn, -⟩)
    · exact mem
    · exact otherIn
  · intro otherIn
    by_cases same : other.1 = entry.1
    · exact Or.inl (List.inj_on_of_nodup_map distinct otherIn mem same)
    · exact Or.inr ⟨otherIn, same⟩

/-- Looking up the nonces of some of the entries gives their transactions. -/
theorem filterMap_lookup {items entries : List (Nat × Tx)} (distinct : (items.map Prod.fst).Nodup)
    (among : ∀ entry ∈ entries, entry ∈ items) :
    (entries.map Prod.fst).filterMap (fun key => items.lookup key) = entries.map Prod.snd := by
  induction entries with
  | nil => rfl
  | cons first rest inductionHypothesis =>
    have firstFound := lookup_of_mem distinct (among first List.mem_cons_self)
    have restFound := inductionHypothesis fun entry mem => among entry (List.mem_cons_of_mem _ mem)
    simp [firstFound, restFound]

/-- Reading a list from its end, as many steps as lie past k, gives its part after k reversed. -/
theorem map_range_get_eq_reverse_drop {α : Type} [Inhabited α] {l : List α} {n k : Nat}
    (length : l.length = n) (le : k ≤ n) :
    (List.range (n - k)).map (fun step => get l (n - 1 - step)) = (l.drop k).reverse := by
  apply List.ext_getElem
  · simp [length]
  · intro step inRange _
    simp only [List.length_map, List.length_range] at inRange
    simp [ContainerHeap.get, List.getElem_reverse, length, show n - 1 - step < n by omega,
      show k + (n - k - 1 - step) = n - 1 - step by omega]

/-- The index is a heap of exactly the nonces of the entries, which are distinct. -/
structure Indexed (index : List Nat) (items : List (Nat × Tx)) : Prop where
  distinct : (items.map Prod.fst).Nodup
  perm : index.Perm (items.map Prod.fst)
  heap : IsHeap index

theorem Indexed.mem_index {index : List Nat} {items : List (Nat × Tx)} (indexed : Indexed index items)
    {entry : Nat × Tx} (mem : entry ∈ items) : entry.1 ∈ index :=
  indexed.perm.symm.subset (List.mem_map_of_mem mem)

/-- The root of the index is the least nonce of the map. -/
theorem Indexed.least {index : List Nat} {items : List (Nat × Tx)} (indexed : Indexed index items)
    {entry : Nat × Tx} (mem : entry ∈ items) : get index 0 ≤ entry.1 :=
  IsHeap.root_le_of_mem indexed.heap (indexed.mem_index mem)

/-- Leaving out the entries of a nonce and of a list of nonces is deleting the nonce first. -/
theorem filter_not_mem_cons (items : List (Nat × Tx)) (key : Nat) (keys : List Nat) :
    items.filter (fun entry => entry.1 ∉ key :: keys) =
      (deleteItem items key).filter fun entry => entry.1 ∉ keys := by
  simp only [deleteItem, List.filter_filter]
  apply List.filter_congr
  intro entry _
  by_cases isKey : entry.1 = key <;> simp [isKey]

theorem mem_storeItem {items : List (Nat × Tx)} {key : Nat} {tx : Tx} {entry : Nat × Tx}
    (mem : entry ∈ storeItem items key tx) : entry ∈ items ∨ entry = (key, tx) := by
  unfold storeItem at mem
  split_ifs at mem
  · obtain ⟨original, originalIn, rfl⟩ := List.mem_map.mp mem
    split_ifs
    · exact Or.inr rfl
    · exact Or.inl originalIn
  · simpa using mem

theorem Indexed.items_eq_nil {index : List Nat} {items : List (Nat × Tx)} (indexed : Indexed index items)
    (empty : index = []) : items = [] := by
  subst empty
  exact List.map_eq_nil_iff.mp (List.Perm.nil_eq indexed.perm).symm

/-- Taking a nonce out of the index and its entry out of the map keeps the two in step. -/
theorem Indexed.delete {index rest : List Nat} {items : List (Nat × Tx)} (indexed : Indexed index items)
    {entry : Nat × Tx} (mem : entry ∈ items) (taken : (entry.1 :: rest).Perm index)
    (heap : IsHeap rest) : Indexed rest (deleteItem items entry.1) := by
  refine ⟨((List.filter_sublist).map Prod.fst).nodup indexed.distinct, ?_, heap⟩
  have whole : (entry.1 :: (deleteItem items entry.1).map Prod.fst).Perm (items.map Prod.fst) := by
    simpa using (cons_deleteItem_perm indexed.distinct mem).map Prod.fst
  exact List.Perm.cons_inv (taken.trans (indexed.perm.trans whole.symm))

/--
Popping the index gives its root, the least nonce: the entry of that nonce heads
the map in nonce order, and the rest of the index is a heap of the other nonces.
-/
theorem Indexed.pop_least {index : List Nat} {items : List (Nat × Tx)} (indexed : Indexed index items)
    (nonempty : index ≠ []) :
    (pop index).2 = get index 0 ∧ ∃ tx, items.lookup (pop index).2 = some tx ∧
      byNonce items = ((pop index).2, tx) :: byNonce (deleteItem items (pop index).2) ∧
      Indexed (pop index).1 (deleteItem items (pop index).2) := by
  obtain ⟨perm, heap, popped, -⟩ := pop_spec indexed.heap nonempty
  have keyIn : (pop index).2 ∈ items.map Prod.fst :=
    indexed.perm.subset (perm.subset List.mem_cons_self)
  obtain ⟨⟨key, tx⟩, mem, rfl⟩ := List.mem_map.mp keyIn
  have sorted : ((((pop index).2, tx) :: byNonce (deleteItem items (pop index).2)).Pairwise
      fun a b => a.1 ≤ b.1) := by
    refine List.pairwise_cons.mpr ⟨fun other otherIn => ?_, byNonce_pairwise _⟩
    have otherIn : other ∈ items := List.mem_of_mem_filter ((byNonce_perm _).subset otherIn)
    exact popped ▸ indexed.least otherIn
  refine ⟨popped, tx, lookup_of_mem indexed.distinct mem, ?_, indexed.delete mem perm heap⟩
  exact (eq_byNonce indexed.distinct (((byNonce_perm _).cons _).trans
    (cons_deleteItem_perm indexed.distinct mem)) sorted).symm

end Index

/-! ## The loops of Forward and Ready -/

section Loops

variable {Tx : Type}

open TxSortedMap

/--
Forward's loop pops exactly the entries below the threshold, least nonce first,
and leaves the others with their index.
-/
theorem forwardLoop_spec (threshold : Nat) (index : List Nat) (items : List (Nat × Tx))
    (removed : List Tx) (indexed : Indexed index items) :
    (forwardLoop threshold index items removed).2.1 = items.filter (fun entry => threshold ≤ entry.1) ∧
      (forwardLoop threshold index items removed).2.2 =
        removed ++ ((byNonce items).filter fun entry => entry.1 < threshold).map Prod.snd ∧
      Indexed (forwardLoop threshold index items removed).1
        (forwardLoop threshold index items removed).2.1 := by
  fun_induction forwardLoop threshold index items removed with
  | case1 index items removed continuing inductionHypothesis =>
    obtain ⟨popped, tx, found, sorted, rest⟩ := indexed.pop_least continuing.1
    obtain ⟨itemsAfter, removedAfter, indexedAfter⟩ := inductionHypothesis rest
    have below : (pop index).2 < threshold := popped ▸ continuing.2
    refine ⟨?_, ?_, indexedAfter⟩
    · rw [itemsAfter]
      simp only [deleteItem, List.filter_filter]
      apply List.filter_congr
      intro entry _
      by_cases above : threshold ≤ entry.1
      · simp [above, show entry.1 ≠ (pop index).2 by omega]
      · simp [above]
    · rw [removedAfter, found, sorted]
      simp [below]
  | case2 index items removed stopping =>
    -- no entry is below the threshold: each has its nonce in the index, whose least is not below
    have noneBelow : ∀ entry ∈ items, threshold ≤ entry.1 := by
      intro entry mem
      have nonempty : index ≠ [] := List.ne_nil_of_mem (indexed.mem_index mem)
      have notBelow : ¬get index 0 < threshold := fun below => stopping ⟨nonempty, below⟩
      have least := indexed.least mem
      omega
    have sortedNoneBelow : (byNonce items).filter (fun entry => entry.1 < threshold) = [] :=
      List.filter_eq_nil_iff.mpr fun entry mem => by
        have := noneBelow entry ((byNonce_perm items).subset mem)
        simp only [decide_eq_true_eq]
        omega
    have allKept : items.filter (fun entry => threshold ≤ entry.1) = items :=
      List.filter_eq_self.mpr fun entry mem => by simpa using noneBelow entry mem
    refine ⟨allKept.symm, ?_, indexed⟩
    simp [sortedNoneBelow]

/--
Ready's loop pops the entries of consecutive nonces from next on, least first,
and leaves the others with their index.
-/
theorem readyLoop_spec (next : Nat) (index : List Nat) (items : List (Nat × Tx)) (ready : List Tx)
    (indexed : Indexed index items) :
    (readyLoop next index items ready).2.1 =
        items.filter (fun entry => entry.1 ∉ (consecutiveRun next (byNonce items)).map Prod.fst) ∧
      (readyLoop next index items ready).2.2 =
        ready ++ (consecutiveRun next (byNonce items)).map Prod.snd ∧
      Indexed (readyLoop next index items ready).1 (readyLoop next index items ready).2.1 := by
  fun_induction readyLoop next index items ready with
  | case1 next index items ready continuing inductionHypothesis =>
    obtain ⟨popped, tx, found, sorted, rest⟩ := indexed.pop_least continuing.1
    have popsNext : (pop index).2 = next := popped.trans continuing.2
    rw [popsNext] at found sorted rest
    obtain ⟨itemsAfter, readyAfter, indexedAfter⟩ := inductionHypothesis rest
    have runIs : consecutiveRun next (byNonce items) =
        (next, tx) :: consecutiveRun (next + 1) (byNonce (deleteItem items next)) := by
      rw [sorted]
      simp [consecutiveRun]
    refine ⟨?_, ?_, indexedAfter⟩
    · rw [itemsAfter, runIs, List.map_cons, filter_not_mem_cons]
    · rw [readyAfter, found, runIs]
      simp
  | case2 next index items ready stopping =>
    -- the least nonce, if there is one, is not next, so the run is empty
    have runEmpty : consecutiveRun next (byNonce items) = [] := by
      by_cases empty : index = []
      · simp [indexed.items_eq_nil empty, byNonce, consecutiveRun]
      · obtain ⟨popped, tx, -, sorted, -⟩ := indexed.pop_least empty
        have notNext : (pop index).2 ≠ next := popped ▸ fun same => stopping ⟨empty, same⟩
        simp [sorted, consecutiveRun, notNext]
    refine ⟨?_, ?_, indexed⟩ <;> simp [runEmpty]

end Loops

/-! ## The representation invariant -/

section Invariant

variable {Tx : Type} (nonce : Tx → Nat)

open TxSortedMap

/--
The invariant of a txSortedMap: its index is a heap of exactly its nonces, each
entry is stored under its transaction's nonce, and a cache holds the
transactions in nonce order.
-/
structure Valid (m : TxSortedMap Tx) : Prop where
  indexed : Indexed m.index m.items
  keyed : ∀ entry ∈ m.items, nonce entry.2 = entry.1
  cached : ∀ cache, m.cache = some cache → cache = (byNonce m.items).map Prod.snd

theorem valid_newTxSortedMap : Valid nonce (newTxSortedMap : TxSortedMap Tx) :=
  ⟨⟨List.nodup_nil, List.Perm.refl _, fun k _ inRange => absurd inRange (Nat.not_lt_zero k)⟩,
    by simp [newTxSortedMap], by simp [newTxSortedMap]⟩

/-- The entries a filter keeps of a valid map have distinct nonces, each its transaction's. -/
theorem Valid.filter_entries {m : TxSortedMap Tx} (valid : Valid nonce m) (keep : Nat × Tx → Bool) :
    ((m.items.filter keep).map Prod.fst).Nodup ∧ ∀ entry ∈ m.items.filter keep, nonce entry.2 = entry.1 :=
  ⟨((List.filter_sublist).map Prod.fst).nodup valid.indexed.distinct,
    fun entry mem => valid.keyed entry (List.mem_of_mem_filter mem)⟩

theorem put_valid {m : TxSortedMap Tx} (valid : Valid nonce m) (tx : Tx) :
    Valid nonce (m.put nonce tx) := by
  refine ⟨?_, ?_, by simp [put]⟩
  · by_cases fresh : m.items.lookup (nonce tx) = none
    -- a new nonce: pushed on the index and appended to the entries
    · have notIn := lookup_eq_none_iff_not_mem.mp fresh
      obtain ⟨pushed, heap⟩ := push_spec valid.indexed.heap (nonce tx)
      have stored : storeItem m.items (nonce tx) tx = m.items ++ [(nonce tx, tx)] := by
        simp [storeItem, fresh]
      simp only [put, fresh, if_true, stored]
      have appended : (m.items.map Prod.fst ++ [nonce tx]).Perm (nonce tx :: m.items.map Prod.fst) :=
        List.perm_append_singleton _ _
      refine ⟨?_, ?_, heap⟩ <;> rw [List.map_append]
      · exact appended.nodup_iff.mpr (List.nodup_cons.mpr ⟨notIn, valid.indexed.distinct⟩)
      · exact pushed.trans ((valid.indexed.perm.cons _).trans appended.symm)
    -- an old nonce: its entry is overwritten in place and the index stays
    · have overwritten : storeItem m.items (nonce tx) tx =
          m.items.map fun entry => if entry.1 = nonce tx then (nonce tx, tx) else entry :=
        if_pos (Option.isSome_iff_ne_none.mpr fresh)
      have sameKeys : (storeItem m.items (nonce tx) tx).map Prod.fst = m.items.map Prod.fst := by
        rw [overwritten, List.map_map]
        apply List.map_congr_left
        intro entry _
        by_cases isKey : entry.1 = nonce tx <;> simp [isKey]
      simp only [put, fresh, if_false]
      exact ⟨sameKeys ▸ valid.indexed.distinct, sameKeys ▸ valid.indexed.perm, valid.indexed.heap⟩
  · intro entry mem
    rcases mem_storeItem mem with old | rfl
    · exact valid.keyed entry old
    · rfl

/-- With each entry under its nonce, sorting the transactions by nonce is sorting the entries. -/
theorem byNonce_map_snd {items : List (Nat × Tx)} (keyed : ∀ entry ∈ items, nonce entry.2 = entry.1) :
    (byNonce items).map Prod.snd = (items.map Prod.snd).insertionSort fun a b => nonce a ≤ nonce b := by
  apply List.map_insertionSort
  intro a aIn b bIn
  rw [keyed a aIn, keyed b bIn]

/-- The transactions in nonce order have strictly increasing nonces. -/
theorem byNonce_strictly_increasing {items : List (Nat × Tx)} (distinct : (items.map Prod.fst).Nodup)
    (keyed : ∀ entry ∈ items, nonce entry.2 = entry.1) :
    ((byNonce items).map Prod.snd).Pairwise fun a b => nonce a < nonce b := by
  have sortedDistinct : ((byNonce items).map Prod.fst).Nodup :=
    ((byNonce_perm items).map Prod.fst).nodup_iff.mpr distinct
  have different := List.pairwise_map.mp sortedDistinct
  rw [List.pairwise_map]
  refine ((byNonce_pairwise items).and different).imp_of_mem fun aIn bIn ordered => ?_
  have aKeyed := keyed _ ((byNonce_perm items).subset aIn)
  have bKeyed := keyed _ ((byNonce_perm items).subset bIn)
  rw [aKeyed, bKeyed]
  exact lt_of_le_of_ne ordered.1 ordered.2

theorem flatten_spec {m : TxSortedMap Tx} (valid : Valid nonce m) :
    (m.flatten nonce).2 = (byNonce m.items).map Prod.snd ∧ Valid nonce (m.flatten nonce).1 := by
  cases cached : m.cache with
  | some cache =>
    simp only [flatten, cached]
    exact ⟨valid.cached cache cached, valid⟩
  -- the cache is filled with the sorted transactions, which are the entries' in nonce order
  | none =>
    have sorted := byNonce_map_snd nonce valid.keyed
    simp only [flatten, cached]
    exact ⟨sorted.symm, valid.indexed, valid.keyed, fun cache filled => by simpa [sorted] using filled.symm⟩

/-- Reheap rebuilds the index of any entries with distinct nonces. -/
theorem reheap_valid {m : TxSortedMap Tx} (distinct : (m.items.map Prod.fst).Nodup)
    (keyed : ∀ entry ∈ m.items, nonce entry.2 = entry.1) : Valid nonce m.reheap :=
  ⟨⟨distinct, (init_spec _).1, (init_spec _).2⟩, keyed, by simp [reheap]⟩

/-- filter followed at once by reheap. -/
theorem filterStale_reheap_valid {m : TxSortedMap Tx} (valid : Valid nonce m) (filter : Tx → Bool) :
    Valid nonce (m.filterStale filter).1.reheap :=
  reheap_valid nonce (valid.filter_entries nonce _).1 (valid.filter_entries nonce _).2

/-- Filter returns the transactions the filter holds for, in the order of the map. -/
theorem filter_snd (m : TxSortedMap Tx) (filter : Tx → Bool) :
    (m.filter filter).2 = (m.items.filter fun entry => filter entry.2).map Prod.snd :=
  rfl

theorem filter_spec {m : TxSortedMap Tx} (valid : Valid nonce m) (filter : Tx → Bool) :
    (m.filter filter).1.items = m.items.filter (fun entry => !filter entry.2) ∧
      Valid nonce (m.filter filter).1 := by
  by_cases removedSome : (m.filterStale filter).2 ≠ []
  · have reheaped : (m.filter filter).1 = (m.filterStale filter).1.reheap := if_pos removedSome
    rw [reheaped]
    exact ⟨rfl, filterStale_reheap_valid nonce valid filter⟩
  -- nothing was removed, so the map is as it was
  · have stale : (m.filter filter).1 = (m.filterStale filter).1 := if_neg removedSome
    have nothing : (m.items.filter fun entry => filter entry.2).map Prod.snd = [] :=
      not_not.mp removedSome
    have kept : m.items.filter (fun entry => !filter entry.2) = m.items :=
      List.filter_eq_self.mpr fun entry mem => by
        simpa using List.filter_eq_nil_iff.mp (List.map_eq_nil_iff.mp nothing) entry mem
    have unchanged : (m.filterStale filter).1 = m := by
      simp only [filterStale, kept, nothing, ne_eq, not_true_eq_false, if_false]
    rw [stale, unchanged]
    exact ⟨kept.symm, valid⟩

theorem forward_spec {m : TxSortedMap Tx} (valid : Valid nonce m) (threshold : Nat) :
    (m.forward threshold).1.items = m.items.filter (fun entry => threshold ≤ entry.1) ∧
      (m.forward threshold).2 = ((byNonce m.items).filter fun entry => entry.1 < threshold).map Prod.snd ∧
      Valid nonce (m.forward threshold).1 := by
  obtain ⟨itemsAfter, removedIs, indexed⟩ := forwardLoop_spec threshold m.index m.items [] valid.indexed
  unfold TxSortedMap.forward
  generalize forwardLoop threshold m.index m.items [] = result at itemsAfter removedIs indexed ⊢
  obtain ⟨index, items, removed⟩ := result
  simp only [List.nil_append] at itemsAfter removedIs indexed ⊢
  refine ⟨itemsAfter, removedIs, indexed, itemsAfter ▸ (valid.filter_entries nonce _).2,
    fun cache cut => ?_⟩
  -- the cache loses its prefix of entries below the threshold
  obtain ⟨whole, wholeIs, rfl⟩ := Option.map_eq_some_iff.mp cut
  have split := congrArg (List.map Prod.snd)
    (filter_lt_append_filter_le (byNonce_pairwise m.items) threshold)
  rw [List.map_append] at split
  rw [valid.cached whole wholeIs, ← split, removedIs, List.drop_left, itemsAfter,
    byNonce_filter valid.indexed.distinct]

theorem remove_valid {m : TxSortedMap Tx} (valid : Valid nonce m) (key : Nat) :
    (m.remove key).1.items = deleteItem m.items key ∧
      ((m.remove key).2 = true ↔ key ∈ m.items.map Prod.fst) ∧ Valid nonce (m.remove key).1 := by
  cases found : m.items.lookup key with
  | none =>
    have absent := lookup_eq_none_iff_not_mem.mp found
    have kept : deleteItem m.items key = m.items :=
      List.filter_eq_self.mpr fun entry mem => by
        have differs : entry.1 ≠ key := fun same => absent (same ▸ List.mem_map_of_mem mem)
        simpa using differs
    have unchanged : m.remove key = (m, false) := by simp [TxSortedMap.remove, found]
    rw [unchanged]
    exact ⟨kept.symm, by simpa using absent, valid⟩
  | some tx =>
    have present : key ∈ m.items.map Prod.fst := by
      by_contra absent
      simp [lookup_eq_none_iff_not_mem.mpr absent] at found
    obtain ⟨entry, mem, rfl⟩ := List.mem_map.mp present
    -- the nonce is in the index, and heap.Remove takes it from its first place
    have inIndex := valid.indexed.mem_index mem
    cases place : m.index.findIdx? (· = entry.1) with
    | none => simpa using List.findIdx?_eq_none_iff.mp place _ inIndex
    | some i =>
      obtain ⟨inRange, atI, -⟩ := List.findIdx?_eq_some_iff_getElem.mp place
      obtain ⟨taken, heap, removedIs⟩ := ContainerHeap.remove_spec valid.indexed.heap inRange
      have removesKey : (ContainerHeap.remove m.index i).2 = entry.1 := by
        rw [removedIs]
        simpa [ContainerHeap.get, inRange] using atI
      have result : m.remove entry.1 =
          (⟨deleteItem m.items entry.1, (ContainerHeap.remove m.index i).1, none⟩, true) := by
        simp [TxSortedMap.remove, found, place]
      rw [result]
      refine ⟨rfl, by simpa using present, valid.indexed.delete mem (removesKey ▸ taken) heap,
        (valid.filter_entries nonce _).2, by simp⟩

/-- Cap keeps the threshold lowest nonces and returns the transactions of the others, highest first. -/
theorem cap_spec {m : TxSortedMap Tx} (valid : Valid nonce m) (threshold : Nat) :
    (m.cap threshold).2 = ((byNonce m.items).drop threshold).reverse.map Prod.snd ∧
      byNonce (m.cap threshold).1.items = (byNonce m.items).take threshold ∧
      Valid nonce (m.cap threshold).1 := by
  have sortedLength : (byNonce m.items).length = m.items.length := (byNonce_perm _).length_eq
  by_cases fits : m.items.length ≤ threshold
  · have unchanged : m.cap threshold = (m, []) := if_pos fits
    rw [unchanged]
    dsimp only
    refine ⟨?_, (List.take_of_length_le (by omega)).symm, valid⟩
    simp [List.drop_eq_nil_of_le (show (byNonce m.items).length ≤ threshold by omega)]
  -- Cap's sort of the index lists the nonces of the entries in nonce order
  · have sortedIndex : m.index.insertionSort (· ≤ ·) = (byNonce m.items).map Prod.fst := by
      apply List.Perm.eq_of_pairwise (fun _ _ _ _ => Nat.le_antisymm)
        (List.pairwise_insertionSort _ _) (List.pairwise_map.mpr (byNonce_pairwise m.items))
      exact (List.perm_insertionSort _ _).trans
        (valid.indexed.perm.trans ((byNonce_perm _).map _).symm)
    have dropped : (List.range (m.items.length - threshold)).map (fun step =>
        get ((byNonce m.items).map Prod.fst) (m.items.length - 1 - step)) =
          ((byNonce m.items).drop threshold).reverse.map Prod.fst := by
      rw [map_range_get_eq_reverse_drop (by simp [sortedLength]) (by omega)]
      simp
    have drops : (((byNonce m.items).drop threshold).reverse.map Prod.fst).filterMap
        (fun key => m.items.lookup key) = ((byNonce m.items).drop threshold).reverse.map Prod.snd :=
      filterMap_lookup valid.indexed.distinct fun entry mem =>
        (byNonce_perm _).subset (List.mem_of_mem_drop (List.mem_reverse.mp mem))
    have distinctSorted : ((byNonce m.items).map Prod.fst).Nodup :=
      ((byNonce_perm _).map _).nodup_iff.mpr valid.indexed.distinct
    -- the entries Cap keeps are the first threshold in nonce order
    have keptSorted : byNonce (m.items.filter fun entry =>
        entry.1 ∉ ((byNonce m.items).drop threshold).reverse.map Prod.fst) =
          (byNonce m.items).take threshold := by
      rw [byNonce_filter valid.indexed.distinct, ← filter_not_mem_drop distinctSorted threshold]
      apply List.filter_congr
      intro entry _
      simp [List.map_reverse]
    simp only [TxSortedMap.cap, if_neg fits, sortedIndex, dropped]
    refine ⟨drops, keptSorted, ⟨⟨(valid.filter_entries nonce _).1, ?_, (init_spec _).2⟩,
      (valid.filter_entries nonce _).2, ?_⟩⟩
    · rw [← List.map_take, ← keptSorted]
      exact (init_spec _).1.trans ((byNonce_perm _).map _)
    -- the cache loses its suffix of the highest nonces
    · intro cache cut
      obtain ⟨whole, wholeIs, rfl⟩ := Option.map_eq_some_iff.mp cut
      rw [valid.cached whole wholeIs, keptSorted, drops]
      simp [sortedLength, Nat.sub_sub_self (show threshold ≤ m.items.length by omega), List.map_take]

/-- Ready returns the run of consecutive nonces from the least one, when that is at most start. -/
theorem ready_spec {m : TxSortedMap Tx} (valid : Valid nonce m) (start : Nat) :
    (m.ready start).2 = (readyRun start (byNonce m.items)).map Prod.snd ∧
      (m.ready start).1.items =
        m.items.filter (fun entry => entry.1 ∉ (readyRun start (byNonce m.items)).map Prod.fst) ∧
      Valid nonce (m.ready start).1 := by
  by_cases stop : m.index = [] ∨ get m.index 0 > start
  -- no run: the map is empty, or its least nonce is above start
  · have noRun : readyRun start (byNonce m.items) = [] := by
      by_cases empty : m.index = []
      · simp [valid.indexed.items_eq_nil empty, byNonce, readyRun]
      · obtain ⟨popped, tx, -, sorted, -⟩ := valid.indexed.pop_least empty
        have above : (pop m.index).2 > start := popped ▸ stop.resolve_left empty
        simp [sorted, readyRun, show ¬(pop m.index).2 ≤ start by omega]
    have unchanged : m.ready start = (m, []) := if_pos stop
    rw [unchanged, noRun]
    dsimp only
    exact ⟨rfl, (List.filter_eq_self.mpr (by simp)).symm, valid⟩
  · have nonempty : m.index ≠ [] := fun empty => stop (Or.inl empty)
    have notAbove : get m.index 0 ≤ start := by
      by_contra above
      exact stop (Or.inr (by omega))
    obtain ⟨popped, tx, -, sorted, -⟩ := valid.indexed.pop_least nonempty
    have runIs : readyRun start (byNonce m.items) = consecutiveRun (get m.index 0) (byNonce m.items) := by
      rw [sorted]
      simp [readyRun, popped, notAbove]
    obtain ⟨itemsAfter, readyIs, indexed⟩ :=
      readyLoop_spec (get m.index 0) m.index m.items [] valid.indexed
    unfold TxSortedMap.ready
    rw [if_neg stop, runIs]
    generalize readyLoop (get m.index 0) m.index m.items [] = result at itemsAfter readyIs indexed ⊢
    obtain ⟨index, items, ready⟩ := result
    simp only [List.nil_append] at itemsAfter readyIs indexed ⊢
    exact ⟨readyIs, itemsAfter, indexed, itemsAfter ▸ (valid.filter_entries nonce _).2, by simp⟩

end Invariant

/-! ## Runs of operations -/

/-- The operations of a run; filter followed at once by reheap is one step, as the pool uses it. -/
inductive Op (Tx : Type)
  | put (tx : Tx)
  | forward (threshold : Nat)
  | filter (filter : Tx → Bool)
  | filterThenReheap (filter : Tx → Bool)
  | cap (threshold : Nat)
  | remove (key : Nat)
  | ready (start : Nat)
  | flatten

section Runs

variable {Tx : Type} (nonce : Tx → Nat)

open TxSortedMap

/-- One operation on the map, the transactions it returns set aside. -/
def step (m : TxSortedMap Tx) : Op Tx → TxSortedMap Tx
  | .put tx => m.put nonce tx
  | .forward threshold => (m.forward threshold).1
  | .filter filter => (m.filter filter).1
  | .filterThenReheap filter => (m.filterStale filter).1.reheap
  | .cap threshold => (m.cap threshold).1
  | .remove key => (m.remove key).1
  | .ready start => (m.ready start).1
  | .flatten => (m.flatten nonce).1

theorem step_valid {m : TxSortedMap Tx} (valid : Valid nonce m) : ∀ op, Valid nonce (step nonce m op)
  | .put tx => put_valid nonce valid tx
  | .forward threshold => (forward_spec nonce valid threshold).2.2
  | .filter filter => (filter_spec nonce valid filter).2
  | .filterThenReheap filter => filterStale_reheap_valid nonce valid filter
  | .cap threshold => (cap_spec nonce valid threshold).2.2
  | .remove key => (remove_valid nonce valid key).2.2
  | .ready start => (ready_spec nonce valid start).2.2
  | .flatten => (flatten_spec nonce valid).2

theorem run_valid (ops : List (Op Tx)) : Valid nonce (ops.foldl (step nonce) newTxSortedMap) :=
  Runs.invariant_of_foldl (Valid nonce) (fun _ op _ valid => step_valid nonce valid op)
    (valid_newTxSortedMap nonce)

theorem sorted_map_runs_keep_index_and_cache (ops : List (Op Tx)) :
    let m := ops.foldl (step nonce) newTxSortedMap
    (m.items.map Prod.fst).Nodup ∧ m.index.Perm (m.items.map Prod.fst) ∧ IsHeap m.index ∧
      (∀ cache, m.cache = some cache → cache = (byNonce m.items).map Prod.snd) ∧
      ((m.flatten nonce).2.Perm (m.items.map Prod.snd) ∧
        (m.flatten nonce).2.Pairwise fun a b => nonce a < nonce b) ∧
      (∀ threshold, (m.forward threshold).1.items = m.items.filter (fun entry => threshold ≤ entry.1) ∧
        (m.forward threshold).2 =
          ((byNonce m.items).filter fun entry => entry.1 < threshold).map Prod.snd) ∧
      (∀ threshold, (m.cap threshold).2 = ((byNonce m.items).drop threshold).reverse.map Prod.snd ∧
        byNonce (m.cap threshold).1.items = (byNonce m.items).take threshold) ∧
      (∀ start, (m.ready start).2 = (readyRun start (byNonce m.items)).map Prod.snd ∧
        (m.ready start).1.items =
          m.items.filter (fun entry => entry.1 ∉ (readyRun start (byNonce m.items)).map Prod.fst)) := by
  intro m
  have valid : Valid nonce m := run_valid nonce ops
  have flattened := flatten_spec nonce valid
  refine ⟨valid.indexed.distinct, valid.indexed.perm, valid.indexed.heap, valid.cached, ⟨?_, ?_⟩,
    fun threshold => ?_, fun threshold => ?_, fun start => ?_⟩
  · rw [flattened.1]
    exact (byNonce_perm m.items).map Prod.snd
  · rw [flattened.1]
    exact byNonce_strictly_increasing nonce valid.indexed.distinct valid.keyed
  · exact ⟨(forward_spec nonce valid threshold).1, (forward_spec nonce valid threshold).2.1⟩
  · exact ⟨(cap_spec nonce valid threshold).1, (cap_spec nonce valid threshold).2.1⟩
  · exact ⟨(ready_spec nonce valid start).1, (ready_spec nonce valid start).2.1⟩

/-- Nonces 5, 3, 4 and 7 put in that order: Ready(4) takes 3, 4 and 5 and stops at the gap. -/
example : ((([5, 3, 4, 7].map Op.put).foldl (step id) newTxSortedMap).ready 4).2 = [3, 4, 5] := by
  decide +kernel

end Runs

end Kardia.TxPool
