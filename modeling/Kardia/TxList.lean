import Kardia.TxSortedMap

/-!
# The per-account transaction list

txList keeps an account's transactions in a txSortedMap, with two caps: costcap,
the highest cost of a transaction it accepted, and gascap, the highest gas
limit.  Filter trusts the caps to skip the scan when the account's balance and
the block's gas limit cover them, so every operation has to keep them upper
bounds of the stored transactions.  A strict list holds an account's
executable transactions: when Filter or Remove takes one out, every later
nonce goes with it as an invalid, so the nonces left have no gap.

Add replaces the transaction of a nonce only for a gas price bumped by
priceBump percent.  The code computes 100 + int64(priceBump) in int64, which
wraps once priceBump reaches 2^63 - 100; below that the bump is the one its
comment states.
-/

namespace Kardia.TxPool

/-- The fields of types.Transaction that txList reads. -/
structure Transaction where
  nonce : UInt64
  -- a big.Int decoded from RLP, so never negative
  price : Nat
  gasLimit : UInt64
  amount : Nat
  deriving DecidableEq, Repr

namespace Transaction

/-- The nonce as the txSortedMap's key. -/
def key (tx : Transaction) : Nat :=
  tx.nonce.toNat

/-- Cost: price * gas limit + amount. -/
def cost (tx : Transaction) : Nat :=
  tx.price * tx.gasLimit.toNat + tx.amount

end Transaction

/-- A txList: strict for the pending queue, with its transactions and caps. -/
structure TxList where
  strict : Bool
  txs : TxSortedMap Transaction
  costcap : Nat
  gascap : UInt64

def newTxList (strict : Bool) : TxList :=
  ⟨strict, newTxSortedMap, 0, 0⟩

/--
threshold = oldGP * (100 + priceBump) / 100: the sum is 100 + int64(priceBump)
in int64, and big.Int's Div is Euclidean, as Int's / is.
-/
def replacementThreshold (oldPrice : Nat) (priceBump : UInt64) : Int :=
  ((100 : Int64) + priceBump.toInt64).toInt * oldPrice / 100

/-- The transactions Filter takes out: more gas than the block allows, or more cost than the balance. -/
def overLimits (costLimit : Nat) (gasLimit : UInt64) (tx : Transaction) : Bool :=
  decide (tx.gasLimit > gasLimit) || decide (tx.cost > costLimit)

/-- The lowest nonce of the removed transactions, from math.MaxUint64 down. -/
def lowestNonce (removed : List Transaction) : UInt64 :=
  removed.foldl (fun lowest tx => if lowest > tx.nonce then tx.nonce else lowest) 0xFFFFFFFFFFFFFFFF

namespace TxList

/--
An older transaction of the nonce wins unless the new price is above its price
and not below the threshold.
-/
def outbids (old : Option Transaction) (tx : Transaction) (priceBump : UInt64) : Bool :=
  match old with
  | some old =>
    decide (old.price ≥ tx.price) || decide ((tx.price : Int) < replacementThreshold old.price priceBump)
  | none => false

/-- The tail of Add: put the transaction and raise the caps to its cost and gas limit. -/
def accept (l : TxList) (tx : Transaction) : TxList :=
  { l with
    txs := l.txs.put Transaction.key tx,
    costcap := if l.costcap < tx.cost then tx.cost else l.costcap,
    gascap := if l.gascap < tx.gasLimit then tx.gasLimit else l.gascap }

/-- Add: the list, whether the transaction was accepted, and the one it replaced. -/
def add (l : TxList) (tx : Transaction) (priceBump : UInt64) : TxList × Bool × Option Transaction :=
  let old := l.txs.items.lookup tx.key
  if outbids old tx priceBump then (l, false, none)
  else (l.accept tx, true, old)

def forward (l : TxList) (threshold : Nat) : TxList × List Transaction :=
  ({ l with txs := (l.txs.forward threshold).1 }, (l.txs.forward threshold).2)

/--
Filter: the list, the transactions over the limits, and in a strict list the
transactions above the lowest nonce removed.
-/
def filter (l : TxList) (costLimit : Nat) (gasLimit : UInt64) :
    TxList × List Transaction × List Transaction :=
  -- If all transactions are below the threshold, short circuit
  if l.costcap ≤ costLimit ∧ l.gascap ≤ gasLimit then (l, [], [])
  else
    let removed := (l.txs.filter (overLimits costLimit gasLimit)).2
    let lowered := { l with
      txs := (l.txs.filter (overLimits costLimit gasLimit)).1, costcap := costLimit, gascap := gasLimit }
    if removed = [] then (lowered, [], [])
    -- If the list was strict, filter anything above the lowest nonce, then reheap
    else if l.strict then
      let invalidated := lowered.txs.filterStale fun tx => decide (tx.nonce > lowestNonce removed)
      ({ lowered with txs := invalidated.1.reheap }, removed, invalidated.2)
    else ({ lowered with txs := lowered.txs.reheap }, removed, [])

def cap (l : TxList) (threshold : Nat) : TxList × List Transaction :=
  ({ l with txs := (l.txs.cap threshold).1 }, (l.txs.cap threshold).2)

/-- Remove: the list, whether the nonce was there, and in a strict list the transactions above it. -/
def remove (l : TxList) (tx : Transaction) : TxList × Bool × List Transaction :=
  let nonce := tx.nonce
  let removal := l.txs.remove nonce.toNat
  if !removal.2 then (l, false, [])
  -- In strict mode, filter out non-executable transactions
  else if l.strict then
    let invalidated := removal.1.filter fun tx => decide (tx.nonce > nonce)
    ({ l with txs := invalidated.1 }, true, invalidated.2)
  else ({ l with txs := removal.1 }, true, [])

def ready (l : TxList) (start : Nat) : TxList × List Transaction :=
  ({ l with txs := (l.txs.ready start).1 }, (l.txs.ready start).2)

end TxList

/-! ## The caps -/

/-- costcap and gascap bound the cost and the gas limit of every stored transaction. -/
def CapsCover (items : List (Nat × Transaction)) (costcap : Nat) (gascap : UInt64) : Prop :=
  ∀ entry ∈ items, entry.2.cost ≤ costcap ∧ entry.2.gasLimit ≤ gascap

theorem CapsCover.mono {items fewer : List (Nat × Transaction)} {costcap : Nat} {gascap : UInt64}
    (covers : CapsCover items costcap gascap) (among : ∀ entry ∈ fewer, entry ∈ items) :
    CapsCover fewer costcap gascap :=
  fun entry mem => covers entry (among entry mem)

/-- A cap raised to a value when below it bounds both. -/
theorem le_raised (cap x : Nat) :
    cap ≤ (if cap < x then x else cap) ∧ x ≤ (if cap < x then x else cap) := by
  split_ifs <;> omega

theorem le_raised64 (cap x : UInt64) :
    cap ≤ (if cap < x then x else cap) ∧ x ≤ (if cap < x then x else cap) := by
  simp only [UInt64.le_iff_toNat_le]
  split_ifs with below
  · rw [UInt64.lt_iff_toNat_lt] at below
    omega
  · rw [UInt64.lt_iff_toNat_lt] at below
    omega

/-- The transactions Filter keeps are within the limits. -/
theorem within_of_not_overLimits {costLimit : Nat} {gasLimit : UInt64} {tx : Transaction}
    (kept : (!overLimits costLimit gasLimit tx) = true) :
    tx.cost ≤ costLimit ∧ tx.gasLimit ≤ gasLimit := by
  simp only [overLimits, Bool.not_or, Bool.and_eq_true, Bool.not_eq_true', decide_eq_false_iff_not,
    not_lt] at kept
  exact ⟨kept.2, UInt64.not_lt.mp kept.1⟩

namespace TxList

/-- The invariant of a txList: a valid txSortedMap whose transactions the caps cover. -/
structure Valid (l : TxList) : Prop where
  sorted : TxPool.Valid Transaction.key l.txs
  caps : CapsCover l.txs.items l.costcap l.gascap

theorem valid_newTxList (strict : Bool) : (newTxList strict).Valid :=
  ⟨valid_newTxSortedMap Transaction.key, fun entry mem => by simp [newTxList, newTxSortedMap] at mem⟩

/-- An operation that leaves the caps and only takes transactions out keeps the invariant. -/
theorem Valid.shrink {l : TxList} (valid : l.Valid) {txs : TxSortedMap Transaction}
    (sorted : TxPool.Valid Transaction.key txs) (among : ∀ entry ∈ txs.items, entry ∈ l.txs.items) :
    ({ l with txs := txs } : TxList).Valid :=
  ⟨sorted, valid.caps.mono among⟩

theorem Valid.add {l : TxList} (valid : l.Valid) (tx : Transaction) (priceBump : UInt64) :
    (l.add tx priceBump).1.Valid := by
  simp only [TxList.add]
  split_ifs
  · exact valid
  -- the caps rise to the new transaction's cost and gas limit
  · refine ⟨put_valid Transaction.key valid.sorted tx, fun entry mem => ?_⟩
    have cost := le_raised l.costcap tx.cost
    have gas := le_raised64 l.gascap tx.gasLimit
    rcases mem_storeItem mem with old | rfl
    · obtain ⟨oldCost, oldGas⟩ := valid.caps entry old
      exact ⟨le_trans oldCost cost.1, UInt64.le_trans oldGas gas.1⟩
    · exact ⟨cost.2, gas.2⟩

theorem Valid.forward {l : TxList} (valid : l.Valid) (threshold : Nat) :
    (l.forward threshold).1.Valid := by
  obtain ⟨kept, -, sorted⟩ := forward_spec Transaction.key valid.sorted threshold
  refine valid.shrink sorted fun entry mem => ?_
  rw [kept] at mem
  exact List.mem_of_mem_filter mem

theorem Valid.filter {l : TxList} (valid : l.Valid) (costLimit : Nat) (gasLimit : UInt64) :
    (l.filter costLimit gasLimit).1.Valid := by
  obtain ⟨kept, sorted⟩ := filter_spec Transaction.key valid.sorted (overLimits costLimit gasLimit)
  -- after the scan every transaction left is within the limits, which become the caps
  have within : CapsCover (l.txs.filter (overLimits costLimit gasLimit)).1.items costLimit gasLimit := by
    intro entry mem
    rw [kept] at mem
    exact within_of_not_overLimits (List.mem_filter.mp mem).2
  simp only [TxList.filter]
  split_ifs
  · exact valid
  · exact ⟨sorted, within⟩
  · refine ⟨filterStale_reheap_valid Transaction.key sorted _, within.mono fun entry mem => ?_⟩
    exact List.mem_of_mem_filter mem
  · exact ⟨reheap_valid Transaction.key sorted.indexed.distinct sorted.keyed, within⟩

theorem Valid.cap {l : TxList} (valid : l.Valid) (threshold : Nat) : (l.cap threshold).1.Valid := by
  obtain ⟨-, keptSorted, sorted⟩ := cap_spec Transaction.key valid.sorted threshold
  refine valid.shrink sorted fun entry mem => ?_
  -- the entries kept are among the first threshold in nonce order
  have inSorted : entry ∈ byNonce (l.txs.cap threshold).1.items := (byNonce_perm _).symm.subset mem
  rw [keptSorted] at inSorted
  exact (byNonce_perm _).subset (List.mem_of_mem_take inSorted)

theorem Valid.remove {l : TxList} (valid : l.Valid) (tx : Transaction) : (l.remove tx).1.Valid := by
  obtain ⟨deleted, -, sorted⟩ := remove_valid Transaction.key valid.sorted tx.nonce.toNat
  have fewer : ∀ entry ∈ (l.txs.remove tx.nonce.toNat).1.items, entry ∈ l.txs.items := by
    intro entry mem
    rw [deleted] at mem
    exact List.mem_of_mem_filter mem
  simp only [TxList.remove]
  split_ifs
  · exact valid
  · obtain ⟨kept, filtered⟩ := filter_spec Transaction.key sorted fun tx' => decide (tx'.nonce > tx.nonce)
    refine valid.shrink filtered fun entry mem => fewer entry ?_
    rw [kept] at mem
    exact List.mem_of_mem_filter mem
  · exact valid.shrink sorted fewer

theorem Valid.ready {l : TxList} (valid : l.Valid) (start : Nat) : (l.ready start).1.Valid := by
  obtain ⟨-, kept, sorted⟩ := ready_spec Transaction.key valid.sorted start
  refine valid.shrink sorted fun entry mem => ?_
  rw [kept] at mem
  exact List.mem_of_mem_filter mem

end TxList

/-! ## Strict lists -/

/-- The fold of lowestNonce stays at or below its start and each nonce, and is one of them. -/
theorem lowestNonce_fold (removed : List Transaction) (start : UInt64) :
    let lowest := removed.foldl (fun lowest tx => if lowest > tx.nonce then tx.nonce else lowest) start
    lowest.toNat ≤ start.toNat ∧ (∀ tx ∈ removed, lowest.toNat ≤ tx.nonce.toNat) ∧
      (lowest = start ∨ ∃ tx ∈ removed, tx.nonce = lowest) := by
  induction removed generalizing start with
  | nil => simp
  | cons first rest inductionHypothesis =>
    obtain ⟨belowStart, belowRest, isOne⟩ := inductionHypothesis (if start > first.nonce then first.nonce else start)
    simp only [List.foldl_cons]
    generalize rest.foldl (fun lowest tx => if lowest > tx.nonce then tx.nonce else lowest)
      (if start > first.nonce then first.nonce else start) = lowest at belowStart belowRest isOne ⊢
    by_cases lower : start > first.nonce
    · rw [if_pos lower] at belowStart isOne
      have lowerNat := UInt64.lt_iff_toNat_lt.mp lower
      refine ⟨by omega, ?_, ?_⟩
      · simpa [belowStart] using belowRest
      · rcases isOne with same | ⟨tx, txIn, same⟩
        · exact Or.inr ⟨first, List.mem_cons_self, same.symm⟩
        · exact Or.inr ⟨tx, List.mem_cons_of_mem _ txIn, same⟩
    · rw [if_neg lower] at belowStart isOne
      have notLowerNat : ¬first.nonce.toNat < start.toNat := fun less => lower (UInt64.lt_iff_toNat_lt.mpr less)
      refine ⟨belowStart, ?_, ?_⟩
      · simpa [show lowest.toNat ≤ first.nonce.toNat by omega] using belowRest
      · rcases isOne with same | ⟨tx, txIn, same⟩
        · exact Or.inl same
        · exact Or.inr ⟨tx, List.mem_cons_of_mem _ txIn, same⟩

/-- The lowest nonce of a nonempty list of transactions is at most each of theirs, and one of them. -/
theorem lowestNonce_spec {removed : List Transaction} (nonempty : removed ≠ []) :
    (∀ tx ∈ removed, (lowestNonce removed).toNat ≤ tx.nonce.toNat) ∧
      ∃ tx ∈ removed, tx.nonce = lowestNonce removed := by
  obtain ⟨-, below, isOne⟩ := lowestNonce_fold removed 0xFFFFFFFFFFFFFFFF
  refine ⟨below, ?_⟩
  rcases isOne with atStart | found
  -- still math.MaxUint64: every nonce, at most that, equals it
  · obtain ⟨first, firstIn⟩ := List.exists_mem_of_ne_nil removed nonempty
    have atMost := below first firstIn
    have fits := first.nonce.toNat_lt
    refine ⟨first, firstIn, UInt64.toNat_inj.mp ?_⟩
    have value : lowestNonce removed = 0xFFFFFFFFFFFFFFFF := atStart
    rw [atStart] at atMost
    rw [value]
    simp only [UInt64.reduceToNat] at atMost ⊢
    omega
  · exact found

/-- Nonces without a gap: every nonce between two of them is one of them. -/
def Contiguous (keys : List Nat) : Prop :=
  ∀ a ∈ keys, ∀ b ∈ keys, ∀ c, a ≤ c → c ≤ b → c ∈ keys

/-- Keeping the entries of a condition that holds of every lower nonce when of a higher one keeps nonces without a gap. -/
theorem Contiguous.filter_downward {items : List (Nat × Transaction)}
    (contiguous : Contiguous (items.map Prod.fst)) {keep : Nat × Transaction → Bool}
    (downward : ∀ entry ∈ items, ∀ other ∈ items, entry.1 ≤ other.1 → keep other = true → keep entry = true) :
    Contiguous ((items.filter keep).map Prod.fst) := by
  intro a aIn b bIn c above below
  obtain ⟨low, lowIn, rfl⟩ := List.mem_map.mp aIn
  obtain ⟨high, highIn, rfl⟩ := List.mem_map.mp bIn
  have lowKept := List.mem_filter.mp lowIn
  have highKept := List.mem_filter.mp highIn
  obtain ⟨middle, middleIn, rfl⟩ := List.mem_map.mp
    (contiguous _ (List.mem_map_of_mem lowKept.1) _ (List.mem_map_of_mem highKept.1) c above below)
  exact List.mem_map_of_mem (List.mem_filter.mpr
    ⟨middleIn, downward middle middleIn high highKept.1 below highKept.2⟩)

/-- A stored entry's key is its transaction's nonce. -/
theorem key_eq_nonce {m : TxSortedMap Transaction} (valid : TxPool.Valid Transaction.key m)
    {entry : Nat × Transaction} (mem : entry ∈ m.items) : entry.1 = entry.2.nonce.toNat :=
  (valid.keyed entry mem).symm

/-- Two stored entries of one nonce are one entry. -/
theorem eq_of_nonce_eq {m : TxSortedMap Transaction} (valid : TxPool.Valid Transaction.key m)
    {entry other : Nat × Transaction} (entryIn : entry ∈ m.items) (otherIn : other ∈ m.items)
    (same : entry.2.nonce.toNat = other.2.nonce.toNat) : entry = other := by
  apply List.inj_on_of_nodup_map valid.indexed.distinct entryIn otherIn
  rw [key_eq_nonce valid entryIn, key_eq_nonce valid otherIn, same]

namespace TxList

/-- When the caps are within the limits no stored transaction is over them: the short circuit skips nothing. -/
theorem filter_short_circuit_sound {l : TxList} (valid : l.Valid) {costLimit : Nat} {gasLimit : UInt64}
    (within : l.costcap ≤ costLimit ∧ l.gascap ≤ gasLimit) :
    ∀ entry ∈ l.txs.items, overLimits costLimit gasLimit entry.2 = false := by
  intro entry mem
  obtain ⟨cost, gas⟩ := valid.caps entry mem
  have gasWithin := UInt64.le_trans gas within.2
  simp only [overLimits, Bool.or_eq_false_iff, decide_eq_false_iff_not]
  exact ⟨UInt64.not_lt.mpr gasWithin, by omega⟩

/-- Filter returns nothing exactly when no stored transaction is over the limits. -/
theorem filter_returns_nothing_iff {l : TxList} (valid : l.Valid) (costLimit : Nat) (gasLimit : UInt64) :
    ((l.filter costLimit gasLimit).2.1 = [] ∧ (l.filter costLimit gasLimit).2.2 = []) ↔
      ∀ entry ∈ l.txs.items, overLimits costLimit gasLimit entry.2 = false := by
  by_cases within : l.costcap ≤ costLimit ∧ l.gascap ≤ gasLimit
  · have skipped : l.filter costLimit gasLimit = (l, [], []) := if_pos within
    rw [skipped]
    exact ⟨fun _ => filter_short_circuit_sound valid within, fun _ => ⟨rfl, rfl⟩⟩
  -- past the short circuit, Filter returns what the scan removes
  have noneOver : (l.txs.filter (overLimits costLimit gasLimit)).2 = [] ↔
      ∀ entry ∈ l.txs.items, overLimits costLimit gasLimit entry.2 = false := by
    rw [filter_snd, List.map_eq_nil_iff, List.filter_eq_nil_iff]
    simp
  by_cases nothing : (l.txs.filter (overLimits costLimit gasLimit)).2 = []
  · have returned : (l.filter costLimit gasLimit).2 = ([], []) := by
      simp only [TxList.filter, if_neg within, if_pos nothing]
    rw [returned]
    exact ⟨fun _ => noneOver.mp nothing, fun _ => ⟨rfl, rfl⟩⟩
  · have removedOut : (l.filter costLimit gasLimit).2.1 = (l.txs.filter (overLimits costLimit gasLimit)).2 := by
      simp only [TxList.filter, if_neg within, if_neg nothing]
      split <;> rfl
    rw [removedOut]
    exact ⟨fun returned => absurd returned.1 nothing, fun allUnder => absurd (noneOver.mpr allUnder) nothing⟩

/--
In a strict list Filter splits the transactions into those over the limits, the
invalids and those left: each left is below each over the limits, each invalid
above one of them, and nonces without a gap stay without one.
-/
theorem strict_filter_spec {l : TxList} (valid : l.Valid) (strict : l.strict = true)
    (costLimit : Nat) (gasLimit : UInt64) :
    let result := l.filter costLimit gasLimit
    (result.2.1 ++ result.2.2 ++ result.1.txs.items.map Prod.snd).Perm (l.txs.items.map Prod.snd) ∧
      (∀ entry ∈ result.1.txs.items, ∀ removed ∈ result.2.1, entry.2.nonce < removed.nonce) ∧
      (∀ invalid ∈ result.2.2, ∃ removed ∈ result.2.1, removed.nonce < invalid.nonce) ∧
      (Contiguous (l.txs.items.map Prod.fst) → Contiguous (result.1.txs.items.map Prod.fst)) := by
  intro result
  by_cases skip : l.costcap ≤ costLimit ∧ l.gascap ≤ gasLimit
  -- the short circuit leaves the list as it is
  · have unchanged : result = (l, [], []) := if_pos skip
    rw [unchanged]
    exact ⟨by simp, by simp, by simp, id⟩
  obtain ⟨kept, sorted⟩ := filter_spec Transaction.key valid.sorted (overLimits costLimit gasLimit)
  by_cases nothing : (l.txs.filter (overLimits costLimit gasLimit)).2 = []
  -- nothing is over the limits, so every transaction stays
  · have unchanged : result =
        (⟨l.strict, (l.txs.filter (overLimits costLimit gasLimit)).1, costLimit, gasLimit⟩, [], []) := by
      simp only [result, TxList.filter, if_neg skip, if_pos nothing]
    have allKept : (l.txs.filter (overLimits costLimit gasLimit)).1.items = l.txs.items := by
      rw [kept, filter_snd] at *
      refine List.filter_eq_self.mpr fun entry mem => ?_
      simpa using List.filter_eq_nil_iff.mp (List.map_eq_nil_iff.mp nothing) entry mem
    rw [unchanged]
    refine ⟨by simp [allKept], by simp, by simp, fun contiguous => ?_⟩
    simpa [allKept] using contiguous
  -- something is over the limits: the strict list also drops every nonce above the lowest of them
  have remainingIs : result.1.txs.items =
      ((l.txs.items.filter fun entry => !overLimits costLimit gasLimit entry.2).filter
        fun entry => !decide (entry.2.nonce > lowestNonce (l.txs.filter (overLimits costLimit gasLimit)).2)) := by
    simp only [result, TxList.filter, if_neg skip, if_neg nothing, strict, if_true,
      TxSortedMap.reheap, TxSortedMap.filterStale, kept]
  have outputs : result.2 = ((l.txs.filter (overLimits costLimit gasLimit)).2,
      ((l.txs.items.filter fun entry => !overLimits costLimit gasLimit entry.2).filter
        fun entry => decide (entry.2.nonce > lowestNonce (l.txs.filter (overLimits costLimit gasLimit)).2)).map
          Prod.snd) := by
    simp only [result, TxList.filter, if_neg skip, if_neg nothing, strict, if_true,
      TxSortedMap.filterStale, kept]
  set isOver := overLimits costLimit gasLimit
  set removed := (l.txs.filter isOver).2
  set lowest := lowestNonce removed
  have removedIs : removed = (l.txs.items.filter fun entry => isOver entry.2).map Prod.snd :=
    filter_snd l.txs isOver
  obtain ⟨lowestBelow, lowestOne⟩ := lowestNonce_spec nothing
  -- a transaction over the limits has a nonce at least the lowest
  have overAbove : ∀ entry ∈ l.txs.items, isOver entry.2 = true → lowest.toNat ≤ entry.2.nonce.toNat :=
    fun entry mem entryOver => lowestBelow entry.2
      (removedIs ▸ List.mem_map_of_mem (List.mem_filter.mpr ⟨mem, entryOver⟩))
  rw [outputs, remainingIs]
  refine ⟨?_, ?_, ?_, fun contiguous => ?_⟩
  · have split := (List.filter_append_perm (fun entry : Nat × Transaction => isOver entry.2)
      l.txs.items).map Prod.snd
    have splitKept := (List.filter_append_perm (fun entry : Nat × Transaction =>
      decide (entry.2.nonce > lowest)) (l.txs.items.filter fun entry => !isOver entry.2)).map Prod.snd
    rw [List.map_append] at split splitKept
    rw [removedIs, List.append_assoc]
    exact (splitKept.append_left _).trans split
  · intro entry entryIn removedTx removedIn
    rw [removedIs] at removedIn
    obtain ⟨source, sourceIn, rfl⟩ := List.mem_map.mp removedIn
    obtain ⟨entryKept, entryLow⟩ := List.mem_filter.mp entryIn
    obtain ⟨entryStored, entryUnder⟩ := List.mem_filter.mp entryKept
    obtain ⟨sourceStored, sourceOver⟩ := List.mem_filter.mp sourceIn
    have entryAtMost : entry.2.nonce.toNat ≤ lowest.toNat := by
      simpa [UInt64.lt_iff_toNat_lt] using entryLow
    have sourceAtLeast := overAbove source sourceStored sourceOver
    -- the two differ in being over the limits, so their nonces differ
    have differ : entry.2.nonce.toNat ≠ source.2.nonce.toNat := fun same => by
      rw [eq_of_nonce_eq valid.sorted entryStored sourceStored same] at entryUnder
      simp [sourceOver] at entryUnder
    rw [UInt64.lt_iff_toNat_lt]
    omega
  · intro invalid invalidIn
    obtain ⟨source, sourceIn, rfl⟩ := List.mem_map.mp invalidIn
    obtain ⟨lowestTx, lowestIn, isLowest⟩ := lowestOne
    refine ⟨lowestTx, lowestIn, ?_⟩
    rw [isLowest]
    simpa using (List.mem_filter.mp sourceIn).2
  · rw [List.filter_filter]
    apply Contiguous.filter_downward contiguous
    intro entry entryIn other otherIn lower otherKept
    simp only [Bool.and_eq_true, Bool.not_eq_true', decide_eq_false_iff_not, gt_iff_lt,
      UInt64.lt_iff_toNat_lt, not_lt] at otherKept ⊢
    rw [key_eq_nonce valid.sorted entryIn, key_eq_nonce valid.sorted otherIn] at lower
    refine ⟨by omega, ?_⟩
    -- an entry over the limits below one kept would sit at the lowest nonce, where the kept one is
    by_contra entryOver
    simp only [Bool.not_eq_false] at entryOver
    have atLeast := overAbove entry entryIn entryOver
    have same := eq_of_nonce_eq valid.sorted entryIn otherIn (by omega)
    rw [same] at entryOver
    simp [entryOver] at otherKept

/--
In a strict list Remove takes out the stored transaction of the nonce and, as
invalids, every transaction above it: what is left is below the nonce, and
nonces without a gap stay without one.
-/
theorem strict_remove_spec {l : TxList} (valid : l.Valid) (strict : l.strict = true) (tx : Transaction) :
    let result := l.remove tx
    (result.2.1 = true ↔ tx.key ∈ l.txs.items.map Prod.fst) ∧
      ((l.txs.items.lookup tx.key).toList ++ result.2.2 ++ result.1.txs.items.map Prod.snd).Perm
        (l.txs.items.map Prod.snd) ∧
      (result.2.1 = true → ∀ entry ∈ result.1.txs.items, entry.2.nonce < tx.nonce) ∧
      (∀ invalid ∈ result.2.2, tx.nonce < invalid.nonce) ∧
      (Contiguous (l.txs.items.map Prod.fst) → Contiguous (result.1.txs.items.map Prod.fst)) := by
  intro result
  obtain ⟨deleted, found, sorted⟩ := remove_valid Transaction.key valid.sorted tx.nonce.toNat
  by_cases present : tx.key ∈ l.txs.items.map Prod.fst
  · have removedFlag : (l.txs.remove tx.nonce.toNat).2 = true := found.mpr present
    obtain ⟨kept, -⟩ := filter_spec Transaction.key sorted fun stored => decide (stored.nonce > tx.nonce)
    have removal : result = (⟨l.strict, ((l.txs.remove tx.nonce.toNat).1.filter
        fun stored => decide (stored.nonce > tx.nonce)).1, l.costcap, l.gascap⟩, true,
        ((l.txs.remove tx.nonce.toNat).1.filter fun stored => decide (stored.nonce > tx.nonce)).2) := by
      simp [result, TxList.remove, removedFlag, strict]
    have remainingIs : result.1.txs.items = (deleteItem l.txs.items tx.key).filter
        fun entry => !decide (entry.2.nonce > tx.nonce) := by
      rw [removal]
      exact kept.trans (by rw [deleted]; rfl)
    have outputs : result.2 = (true, ((deleteItem l.txs.items tx.key).filter
        fun entry => decide (entry.2.nonce > tx.nonce)).map Prod.snd) := by
      rw [removal, filter_snd, deleted]
      rfl
    obtain ⟨stored, storedIn, storedKey⟩ := List.mem_map.mp present
    have looked : l.txs.items.lookup tx.key = some stored.2 :=
      storedKey ▸ lookup_of_mem valid.sorted.indexed.distinct storedIn
    rw [outputs, remainingIs, looked]
    refine ⟨by simpa using present, ?_, ?_, ?_, fun contiguous => ?_⟩
    -- the stored transaction, those above its nonce and those below are all of them
    · have split := (List.filter_append_perm (fun entry : Nat × Transaction =>
        decide (entry.2.nonce > tx.nonce)) (deleteItem l.txs.items tx.key)).map Prod.snd
      have whole := (cons_deleteItem_perm valid.sorted.indexed.distinct storedIn).map Prod.snd
      rw [List.map_append] at split
      rw [storedKey] at whole
      simpa [List.append_assoc] using (split.cons stored.2).trans whole
    · intro _ entry entryIn
      obtain ⟨entryLeft, entryLow⟩ := List.mem_filter.mp entryIn
      obtain ⟨entryStored, entryOther⟩ := List.mem_filter.mp entryLeft
      have entryKey := key_eq_nonce valid.sorted entryStored
      simp only [decide_eq_true_eq, Bool.not_eq_true', decide_eq_false_iff_not, gt_iff_lt,
        UInt64.lt_iff_toNat_lt, not_lt] at entryOther entryLow
      rw [UInt64.lt_iff_toNat_lt]
      simp only [Transaction.key] at entryOther
      omega
    · intro invalid invalidIn
      obtain ⟨source, sourceIn, rfl⟩ := List.mem_map.mp invalidIn
      simpa using (List.mem_filter.mp sourceIn).2
    · simp only [deleteItem, List.filter_filter] at contiguous ⊢
      apply Contiguous.filter_downward contiguous
      intro entry entryIn other otherIn lower otherKept
      rw [key_eq_nonce valid.sorted entryIn, key_eq_nonce valid.sorted otherIn] at lower
      simp only [Bool.and_eq_true, Bool.not_eq_true', decide_eq_false_iff_not, decide_eq_true_eq,
        gt_iff_lt, UInt64.lt_iff_toNat_lt, not_lt, Transaction.key,
        key_eq_nonce valid.sorted entryIn, key_eq_nonce valid.sorted otherIn] at otherKept ⊢
      omega
  -- an absent nonce leaves the list as it is
  · have notRemoved : (l.txs.remove tx.nonce.toNat).2 = false :=
      Bool.eq_false_iff.mpr fun removedFlag => present (found.mp removedFlag)
    have unchanged : result = (l, false, []) := by
      simp [result, TxList.remove, notRemoved]
    rw [unchanged, lookup_eq_none_iff_not_mem.mpr present]
    exact ⟨by simpa using present, by simp, by simp, by simp, id⟩

end TxList

/-! ## Runs of operations -/

/-- The txList operations of a run. -/
inductive TxOp
  | add (tx : Transaction) (priceBump : UInt64)
  | forward (threshold : Nat)
  | filter (costLimit : Nat) (gasLimit : UInt64)
  | cap (threshold : Nat)
  | remove (tx : Transaction)
  | ready (start : Nat)

namespace TxList

/-- One operation on the list, what it returns set aside. -/
def step (l : TxList) : TxOp → TxList
  | .add tx priceBump => (l.add tx priceBump).1
  | .forward threshold => (l.forward threshold).1
  | .filter costLimit gasLimit => (l.filter costLimit gasLimit).1
  | .cap threshold => (l.cap threshold).1
  | .remove tx => (l.remove tx).1
  | .ready start => (l.ready start).1

theorem Valid.step {l : TxList} (valid : l.Valid) : ∀ op, (l.step op).Valid
  | .add tx priceBump => valid.add tx priceBump
  | .forward threshold => valid.forward threshold
  | .filter costLimit gasLimit => valid.filter costLimit gasLimit
  | .cap threshold => valid.cap threshold
  | .remove tx => valid.remove tx
  | .ready start => valid.ready start

theorem strict_step (l : TxList) : ∀ op, (l.step op).strict = l.strict
  | .add tx priceBump => by
    simp only [step, add]
    split <;> rfl
  | .forward _ | .cap _ | .ready _ => rfl
  | .filter costLimit gasLimit => by
    simp only [step, TxList.filter]
    split_ifs <;> rfl
  | .remove tx => by
    simp only [step, TxList.remove]
    split_ifs <;> rfl

theorem run_valid (strict : Bool) (ops : List TxOp) : (ops.foldl step (newTxList strict)).Valid :=
  Runs.invariant_of_foldl Valid (fun _ op _ valid => valid.step op) (valid_newTxList strict)

/--
Over every run from a new list the caps cover the stored transactions, so
Filter's short circuit skips nothing and Filter returns nothing exactly when
no stored transaction is over the limits.
-/
theorem runs_keep_caps (strict : Bool) (ops : List TxOp) :
    let l := ops.foldl step (newTxList strict)
    CapsCover l.txs.items l.costcap l.gascap ∧
      ∀ costLimit gasLimit,
        (l.costcap ≤ costLimit ∧ l.gascap ≤ gasLimit →
          ∀ entry ∈ l.txs.items, overLimits costLimit gasLimit entry.2 = false) ∧
        (((l.filter costLimit gasLimit).2.1 = [] ∧ (l.filter costLimit gasLimit).2.2 = []) ↔
          ∀ entry ∈ l.txs.items, overLimits costLimit gasLimit entry.2 = false) := by
  intro l
  have valid : l.Valid := run_valid strict ops
  exact ⟨valid.caps, fun costLimit gasLimit =>
    ⟨filter_short_circuit_sound valid, filter_returns_nothing_iff valid costLimit gasLimit⟩⟩

/-- A strict list built by any run keeps its nonces without a gap through Filter and Remove. -/
theorem strict_runs_keep_nonces_contiguous (ops : List TxOp) :
    let l := ops.foldl step (newTxList true)
    Contiguous (l.txs.items.map Prod.fst) →
      ∀ costLimit gasLimit tx, Contiguous ((l.filter costLimit gasLimit).1.txs.items.map Prod.fst) ∧
        Contiguous ((l.remove tx).1.txs.items.map Prod.fst) := by
  intro l contiguous costLimit gasLimit tx
  have valid : l.Valid := run_valid true ops
  have strict : l.strict = true :=
    Runs.invariant_of_foldl (fun l : TxList => l.strict = true)
      (fun l op _ strict => (strict_step l op).trans strict) rfl
  exact ⟨(strict_filter_spec valid strict costLimit gasLimit).2.2.2 contiguous,
    (strict_remove_spec valid strict tx).2.2.2.2 contiguous⟩

end TxList

/-! ## The replacement price bump -/

/-- Below 2^63 - 100, 100 + int64(priceBump) is the sum it stands for. -/
theorem bumpFactor_toInt {priceBump : UInt64} (small : priceBump.toNat + 100 < 2 ^ 63) :
    ((100 : Int64) + priceBump.toInt64).toInt = 100 + priceBump.toNat := by
  have bits : priceBump.toInt64.toInt = priceBump.toNat := by
    change priceBump.toBitVec.toInt = priceBump.toNat
    rw [BitVec.toInt_eq_toNat_cond, UInt64.toNat_toBitVec, if_pos (by omega)]
  have hundred : (100 : Int64).toInt = 100 := by decide
  rw [Int64.toInt_add, bits, hundred]
  apply Int.bmod_eq_of_le <;> omega

theorem replacementThreshold_eq {priceBump : UInt64} (small : priceBump.toNat + 100 < 2 ^ 63)
    (oldPrice : Nat) :
    replacementThreshold oldPrice priceBump = ((oldPrice * (100 + priceBump.toNat) / 100 : Nat) : Int) := by
  rw [replacementThreshold, bumpFactor_toInt small]
  push_cast
  ring_nf

/--
Add replaces a stored transaction only for a strictly higher price that is at
least the old one bumped by priceBump percent, as long as 100 + priceBump fits
in an int64.
-/
theorem add_replaces_only_above_bump {l : TxList} {tx old : Transaction} {priceBump : UInt64}
    (small : priceBump.toNat + 100 < 2 ^ 63) (stored : l.txs.items.lookup tx.key = some old)
    (accepted : (l.add tx priceBump).2.1 = true) :
    old.price < tx.price ∧ old.price * (100 + priceBump.toNat) / 100 ≤ tx.price := by
  have notOutbid : ¬(old.price ≥ tx.price ∨ (tx.price : Int) < replacementThreshold old.price priceBump) := by
    intro outbid
    have wins : TxList.outbids (some old) tx priceBump = true := by
      simpa [TxList.outbids] using outbid
    simp [TxList.add, stored, wins] at accepted
  rw [replacementThreshold_eq small] at notOutbid
  omega

/--
A priceBump of 2^64 - 100 turns int64(priceBump) into -100 and the threshold
into 0: a transaction of price 2 replaces one of price 1, although the old
price bumped by priceBump percent is far above 2.
-/
theorem add_replaces_below_bump_when_int64_wraps :
    let old : Transaction := ⟨0, 1, 21000, 0⟩
    let tx : Transaction := ⟨0, 2, 21000, 0⟩
    let listed := ((newTxList true).add old 10).1
    (listed.add tx 0xFFFFFFFFFFFFFF9C).2 = (true, some old) ∧
      tx.price < old.price * (100 + 0xFFFFFFFFFFFFFF9C) / 100 := by
  decide +kernel

end Kardia.TxPool
