import Kardia.ValidatorSetUpdate
import Kardia.KeyedList
import Kardia.Runs

namespace Kardia

/-!
# The helpers of updateWithChangeSet

One lemma for each helper of updateWithChangeSet, on the inputs the callers
give it.  processChanges splits the changes sorted by strictly ascending
addresses into the positive updates and the removals.  The merge of
applyUpdates keeps the validators no update names and adds the updates,
sorted by address.  The loop of applyRemovals drops exactly the removals
when they are sorted and all present.  updateTotalVotingPower caches the
sum of the powers when they are positive and no panic stops it, and neither
the rescaling nor the centring moves an address or a power.

updateWithChangeSet reads the change set only through its sorted copy and
its emptiness, so two permutations of a change set without repeated
addresses have one result.
-/

/-- ValidatorsByAddress.Less: ascending addresses. -/
def validatorsByAddressLess (a b : Validator) : Prop :=
  a.address.val < b.address.val

/-- ValidatorsByVotingPower.Less: descending powers, then ascending addresses. -/
def validatorsByVotingPowerLess (a b : Validator) : Prop :=
  if a.votingPower = b.votingPower then a.address.val < b.address.val
  else a.votingPower > b.votingPower

/-- Distinct addresses are distinct address values. -/
theorem nodup_address_val_iff {validators : List Validator} :
    (validators.map fun val => val.address.val).Nodup ↔ (validators.map Validator.address).Nodup := by
  have injective : Function.Injective Address.val := by
    rintro ⟨a⟩ ⟨b⟩ same
    cases same
    rfl
  rw [show (validators.map fun val => val.address.val) = (validators.map Validator.address).map Address.val
    from (List.map_map ..).symm, List.nodup_map_iff injective]

namespace ValidatorSet

/-- GetByAddress finds the first validator at the address. -/
theorem getByAddress_snd (vs : ValidatorSet) (address : Address) :
    (vs.getByAddress address).2 = KeyedList.find Validator.address vs.validators address := by
  unfold getByAddress KeyedList.find
  rw [List.find?_eq_bind_findIdx?_getElem?]
  cases vs.validators.findIdx? fun val => val.address == address <;> rfl

end ValidatorSet

/-! ## Sorting by address -/

section SortByAddress

variable {changes permuted : List Validator}

theorem sortByAddress_perm (changes : List Validator) : (sortByAddress changes).Perm changes :=
  List.perm_insertionSort _ changes

/-- Two permutations of a list of distinct addresses sort to one list. -/
theorem sortByAddress_eq_of_perm
    (distinct : (changes.map Validator.address).Nodup)
    (perm : permuted.Perm changes) :
    sortByAddress permuted = sortByAddress changes := by
  have distinctPermuted : (permuted.map fun val => val.address.val).Nodup :=
    (perm.map _).nodup_iff.mpr (nodup_address_val_iff.mpr distinct)
  exact KeyedList.insertionSort_eq_of_perm distinctPermuted perm

/-- A list sorted by strictly ascending addresses has distinct addresses. -/
theorem nodup_of_sorted_by_address (sorted : changes.Pairwise validatorsByAddressLess) :
    (changes.map Validator.address).Nodup :=
  nodup_address_val_iff.mp (KeyedList.nodup_of_pairwise_lt sorted)

/-- A list of distinct addresses sorts by strictly ascending addresses. -/
theorem sortByAddress_sorted (distinct : (changes.map Validator.address).Nodup) :
    (sortByAddress changes).Pairwise validatorsByAddressLess :=
  KeyedList.pairwise_insertionSort_lt (nodup_address_val_iff.mpr distinct)

end SortByAddress

/-! ## processChanges -/

section ProcessChanges

open ValidatorSet

variable {changes list updates removals updated removed : List Validator}
  {valUpdate : Validator} {prevAddr : Address}

/--
One pass of the loop of processChanges: the change is not at the previous
address, its power is within the bounds, and the loop goes on from its
address with the change added to the updates or, for power 0, the removals.
-/
theorem processChangesLoop_cons_eq_ok
    (processed :
      processChangesLoop changes (valUpdate :: list) prevAddr updates removals = .ok (updated, removed)) :
    valUpdate.address ≠ prevAddr ∧ 0 ≤ valUpdate.votingPower ∧
      processChangesLoop changes list valUpdate.address
          (if valUpdate.votingPower = 0 then updates else updates ++ [valUpdate])
          (if valUpdate.votingPower = 0 then removals ++ [valUpdate] else removals) =
        .ok (updated, removed) := by
  unfold processChangesLoop at processed
  -- the three errors are closed by the split
  split_ifs at processed with repeated negative aboveMax zero
  · exact ⟨repeated, not_lt.mp negative, by simpa [zero] using processed⟩
  · exact ⟨repeated, not_lt.mp negative, by simpa [zero] using processed⟩

/-- The loop of processChanges adds the changes of positive power to the updates and the others to the removals. -/
theorem processChangesLoop_split
    (processed : processChangesLoop changes list prevAddr updates removals = .ok (updated, removed)) :
    updated = updates ++ list.filter (fun val => 0 < val.votingPower) ∧
      removed = removals ++ list.filter (fun val => val.votingPower = 0) := by
  induction list generalizing prevAddr updates removals with
  | nil =>
      cases processed
      simp
  | cons valUpdate rest inductionHypothesis =>
      obtain ⟨-, nonnegative, continued⟩ := processChangesLoop_cons_eq_ok processed
      obtain ⟨updatedEq, removedEq⟩ := inductionHypothesis continued
      by_cases zero : valUpdate.votingPower = 0
      · simp [updatedEq, removedEq, zero]
      · have positive : 0 < valUpdate.votingPower := lt_of_le_of_ne nonnegative (Ne.symm zero)
        simp [updatedEq, removedEq, zero, positive]

/--
The loop of processChanges over a list sorted by address, from an address at
or below the list's, accepts it only when its addresses strictly ascend from
the start.
-/
theorem processChangesLoop_sorted
    (sorted : list.Pairwise fun a b => a.address.val ≤ b.address.val)
    (above : ∀ val ∈ list, prevAddr.val ≤ val.address.val)
    (processed : processChangesLoop changes list prevAddr updates removals = .ok (updated, removed)) :
    list.Pairwise validatorsByAddressLess ∧ ∀ val ∈ list, prevAddr.val < val.address.val := by
  induction list generalizing prevAddr updates removals with
  | nil => simp
  | cons valUpdate rest inductionHypothesis =>
      obtain ⟨fresh, -, continued⟩ := processChangesLoop_cons_eq_ok processed
      obtain ⟨headBelow, restSorted⟩ := List.pairwise_cons.mp sorted
      obtain ⟨restStrict, restAbove⟩ := inductionHypothesis restSorted headBelow continued
      have headAbove : prevAddr.val < valUpdate.address.val := by
        apply lt_of_le_of_ne (above valUpdate List.mem_cons_self)
        intro same
        exact fresh (congrArg Address.mk same).symm
      refine ⟨List.pairwise_cons.mpr ⟨restAbove, restStrict⟩, ?_⟩
      intro val member
      rcases List.mem_cons.mp member with rfl | later
      · exact headAbove
      · exact headAbove.trans (restAbove val later)

/-- The loop of processChanges accepts only changes of nonnegative power. -/
theorem processChangesLoop_nonnegative
    (processed : processChangesLoop changes list prevAddr updates removals = .ok (updated, removed)) :
    ∀ val ∈ list, 0 ≤ val.votingPower := by
  induction list generalizing prevAddr updates removals with
  | nil => simp
  | cons valUpdate rest inductionHypothesis =>
      obtain ⟨-, nonnegative, continued⟩ := processChangesLoop_cons_eq_ok processed
      intro val member
      rcases List.mem_cons.mp member with rfl | later
      · exact nonnegative
      · exact inductionHypothesis continued val later

/--
processChanges accepts changes of nonnegative power sorted by strictly
ascending addresses, and returns the positive ones as updates and the others
as removals, in that order.
-/
theorem processChanges_eq_ok
    {deletes : List Validator}
    (processed : processChanges changes = .ok (updates, deletes)) :
    updates = (sortByAddress changes).filter (fun val => 0 < val.votingPower) ∧
      deletes = (sortByAddress changes).filter (fun val => val.votingPower = 0) ∧
      (sortByAddress changes).Pairwise validatorsByAddressLess ∧
      ∀ val ∈ sortByAddress changes, 0 ≤ val.votingPower := by
  unfold processChanges at processed
  obtain ⟨updatesEq, deletesEq⟩ := processChangesLoop_split processed
  have sorted : (sortByAddress changes).Pairwise fun a b => a.address.val ≤ b.address.val :=
    KeyedList.pairwise_insertionSort_le changes
  obtain ⟨strict, -⟩ :=
    processChangesLoop_sorted sorted (fun val _ => Nat.zero_le val.address.val) processed
  exact ⟨by simpa using updatesEq, by simpa using deletesEq, strict, processChangesLoop_nonnegative processed⟩

/-- The updates and the removals of an accepted change set are sorted by address. -/
theorem processChanges_sorted
    {deletes : List Validator}
    (processed : processChanges changes = .ok (updates, deletes)) :
    updates.Pairwise validatorsByAddressLess ∧ deletes.Pairwise validatorsByAddressLess := by
  obtain ⟨rfl, rfl, sorted, -⟩ := processChanges_eq_ok processed
  exact ⟨sorted.filter _, sorted.filter _⟩

/-- The updates of an accepted change set have positive powers. -/
theorem processChanges_positive
    {deletes : List Validator}
    (processed : processChanges changes = .ok (updates, deletes)) :
    ∀ update ∈ updates, 0 < update.votingPower := by
  obtain ⟨rfl, -⟩ := processChanges_eq_ok processed
  intro update member
  simpa using (List.mem_filter.mp member).2

/-- An update and a removal of an accepted change set are at different addresses. -/
theorem address_not_mem_updates
    {deletes : List Validator}
    (processed : processChanges changes = .ok (updates, deletes))
    {delete : Validator}
    (member : delete ∈ deletes) :
    delete.address ∉ updates.map Validator.address := by
  obtain ⟨rfl, rfl, sorted, -⟩ := processChanges_eq_ok processed
  intro named
  obtain ⟨update, updateMember, same⟩ := List.mem_map.mp named
  obtain ⟨deleteSorted, zero⟩ := List.mem_filter.mp member
  obtain ⟨updateSorted, positive⟩ := List.mem_filter.mp updateMember
  obtain rfl := List.inj_on_of_nodup_map (nodup_of_sorted_by_address sorted) updateSorted deleteSorted same
  simp only [decide_eq_true_eq] at zero positive
  rw [zero] at positive
  exact lt_irrefl 0 positive

/-- A change set that processChanges accepts has distinct addresses. -/
theorem nodup_of_processChanges_eq_ok
    {deletes : List Validator}
    (processed : processChanges changes = .ok (updates, deletes)) :
    (changes.map Validator.address).Nodup := by
  obtain ⟨-, -, sorted, -⟩ := processChanges_eq_ok processed
  exact ((sortByAddress_perm changes).map Validator.address).nodup_iff.mp
    (nodup_of_sorted_by_address sorted)

end ProcessChanges

/-! ## The merge of applyUpdates and the loop of applyRemovals -/

section Merge

open ValidatorSet

variable {existing updates deletes : List Validator} {first update : Validator}

/-- Below the head of a list sorted by address is below all of it. -/
theorem lt_of_lt_head
    {val : Validator}
    (sorted : (first :: existing).Pairwise validatorsByAddressLess)
    (below : val.address.val < first.address.val) :
    ∀ other ∈ first :: existing, val.address.val < other.address.val := by
  intro other member
  rcases List.mem_cons.mp member with rfl | later
  · exact below
  · exact below.trans (List.rel_of_pairwise_cons sorted later)

/-- An address above the head of a list that the list holds is in its tail. -/
theorem mem_tail_of_above
    {address : Address}
    (present : address ∈ (first :: existing).map Validator.address)
    (above : first.address.val < address.val) :
    address ∈ existing.map Validator.address := by
  rcases List.mem_cons.mp present with same | later
  · rw [same] at above
    exact absurd above (lt_irrefl _)
  · exact later

/-- Validators above an address are filtered alike with or without the address among the removed. -/
theorem filter_address_not_mem_cons
    (above : ∀ val ∈ existing, update.address.val < val.address.val) :
    existing.filter (fun val => val.address ∉ (update :: updates).map Validator.address) =
      existing.filter fun val => val.address ∉ updates.map Validator.address := by
  apply List.filter_congr
  intro val member
  have other : val.address ≠ update.address := fun same =>
    (above val member).ne (congrArg Address.val same).symm
  simp [other]

/--
The merge of applyUpdates over two lists sorted by address holds the
validators that no update names, then the updates, up to order.
-/
theorem mergeUpdates_perm
    (existingSorted : existing.Pairwise validatorsByAddressLess)
    (updatesSorted : updates.Pairwise validatorsByAddressLess) :
    (mergeUpdates existing updates).Perm
      (existing.filter (fun val => val.address ∉ updates.map Validator.address) ++ updates) := by
  fun_induction mergeUpdates existing updates with
  | case1 first existing update updates below inductionHypothesis =>
      -- the validator is below every update, so no update names it
      have kept : first.address ∉ (update :: updates).map Validator.address := by
        intro named
        obtain ⟨other, member, same⟩ := List.mem_map.mp named
        have above := lt_of_lt_head updatesSorted below other member
        rw [same] at above
        exact lt_irrefl _ above
      rw [List.filter_cons_of_pos (by simpa using kept)]
      exact (inductionHypothesis (List.pairwise_cons.mp existingSorted).2 updatesSorted).cons first
  | case2 first existing update updates _ same inductionHypothesis =>
      -- the update replaces the validator at its address
      obtain ⟨existingAbove, restSorted⟩ := List.pairwise_cons.mp existingSorted
      have updateBelow : ∀ val ∈ existing, update.address.val < val.address.val := by
        simpa [validatorsByAddressLess, same] using existingAbove
      rw [List.filter_cons_of_neg (by simp [same]), filter_address_not_mem_cons updateBelow]
      exact ((inductionHypothesis restSorted (List.pairwise_cons.mp updatesSorted).2).cons update).trans
        List.perm_middle.symm
  | case3 first existing update updates notBelow other inductionHypothesis =>
      have updateBelow : update.address.val < first.address.val :=
        lt_of_le_of_ne (not_lt.mp notBelow) fun same => other (congrArg Address.mk same).symm
      rw [filter_address_not_mem_cons (lt_of_lt_head existingSorted updateBelow)]
      exact ((inductionHypothesis existingSorted (List.pairwise_cons.mp updatesSorted).2).cons update).trans
        List.perm_middle.symm
  | case4 existing => simp
  | case5 updates _ => simp

/-- A validator of the merge is one of the validators or one of the updates. -/
theorem mem_of_mem_mergeUpdates
    {val : Validator}
    (existingSorted : existing.Pairwise validatorsByAddressLess)
    (updatesSorted : updates.Pairwise validatorsByAddressLess)
    (member : val ∈ mergeUpdates existing updates) :
    val ∈ existing ∨ val ∈ updates := by
  rcases List.mem_append.mp ((mergeUpdates_perm existingSorted updatesSorted).mem_iff.mp member) with
    kept | updated
  · exact .inl (List.mem_of_mem_filter kept)
  · exact .inr updated

/-- The merge of two lists sorted by address is sorted by address. -/
theorem mergeUpdates_sorted
    (existingSorted : existing.Pairwise validatorsByAddressLess)
    (updatesSorted : updates.Pairwise validatorsByAddressLess) :
    (mergeUpdates existing updates).Pairwise validatorsByAddressLess := by
  fun_induction mergeUpdates existing updates with
  | case1 first existing update updates below inductionHypothesis =>
      obtain ⟨existingAbove, restSorted⟩ := List.pairwise_cons.mp existingSorted
      refine List.pairwise_cons.mpr ⟨?_, inductionHypothesis restSorted updatesSorted⟩
      intro val member
      rcases mem_of_mem_mergeUpdates restSorted updatesSorted member with kept | updated
      · exact existingAbove val kept
      · exact lt_of_lt_head updatesSorted below val updated
  | case2 first existing update updates _ same inductionHypothesis =>
      obtain ⟨existingAbove, restSorted⟩ := List.pairwise_cons.mp existingSorted
      obtain ⟨updatesAbove, updatesRest⟩ := List.pairwise_cons.mp updatesSorted
      refine List.pairwise_cons.mpr ⟨?_, inductionHypothesis restSorted updatesRest⟩
      intro val member
      rcases mem_of_mem_mergeUpdates restSorted updatesRest member with kept | updated
      · simpa [validatorsByAddressLess, same] using existingAbove val kept
      · exact updatesAbove val updated
  | case3 first existing update updates notBelow other inductionHypothesis =>
      obtain ⟨updatesAbove, updatesRest⟩ := List.pairwise_cons.mp updatesSorted
      have updateBelow : update.address.val < first.address.val :=
        lt_of_le_of_ne (not_lt.mp notBelow) fun same => other (congrArg Address.mk same).symm
      refine List.pairwise_cons.mpr ⟨?_, inductionHypothesis existingSorted updatesRest⟩
      intro val member
      rcases mem_of_mem_mergeUpdates existingSorted updatesRest member with kept | updated
      · exact lt_of_lt_head existingSorted updateBelow val kept
      · exact updatesAbove val updated
  | case4 existing => exact existingSorted
  | case5 updates _ => exact updatesSorted

/--
The loop of applyRemovals over validators sorted by address, with removals
sorted by address and all present, drops exactly the removals.
-/
theorem removeDeletes_eq_ok
    (existingSorted : existing.Pairwise validatorsByAddressLess)
    (deletesSorted : deletes.Pairwise validatorsByAddressLess)
    (present : ∀ delete ∈ deletes, delete.address ∈ existing.map Validator.address) :
    removeDeletes existing deletes =
      .ok (existing.filter fun val => val.address ∉ deletes.map Validator.address) := by
  fun_induction removeDeletes existing deletes with
  | case1 existing => simp
  | case2 delete deletes =>
      -- no validator is left for the first removal
      simpa using present delete List.mem_cons_self
  | case3 first existing delete deletes same inductionHypothesis =>
      obtain ⟨existingAbove, restSorted⟩ := List.pairwise_cons.mp existingSorted
      obtain ⟨deletesAbove, deletesRest⟩ := List.pairwise_cons.mp deletesSorted
      have deleteBelow : ∀ val ∈ existing, delete.address.val < val.address.val := by
        simpa [validatorsByAddressLess, same] using existingAbove
      have restPresent : ∀ other ∈ deletes, other.address ∈ existing.map Validator.address := by
        intro other member
        apply mem_tail_of_above (present other (List.mem_cons_of_mem delete member))
        simpa [validatorsByAddressLess, same] using deletesAbove other member
      rw [inductionHypothesis restSorted deletesRest restPresent, List.filter_cons_of_neg (by simp [same]),
        filter_address_not_mem_cons deleteBelow]
  | case4 first existing delete deletes other inductionHypothesis =>
      -- every removal is above the validator, which stays
      have firstBelow : first.address.val < delete.address.val := by
        have inRest := (List.mem_cons.mp (present delete List.mem_cons_self)).resolve_left (Ne.symm other)
        obtain ⟨val, member, same⟩ := List.mem_map.mp inRest
        rw [← same]
        exact List.rel_of_pairwise_cons existingSorted member
      have allAbove := lt_of_lt_head deletesSorted firstBelow
      have restPresent : ∀ removal ∈ delete :: deletes, removal.address ∈ existing.map Validator.address :=
        fun removal member => mem_tail_of_above (present removal member) (allAbove removal member)
      have kept : first.address ∉ (delete :: deletes).map Validator.address := by
        intro named
        obtain ⟨removal, member, same⟩ := List.mem_map.mp named
        have above := allAbove removal member
        rw [same] at above
        exact lt_irrefl _ above
      rw [inductionHypothesis (List.pairwise_cons.mp existingSorted).2 deletesSorted restPresent,
        List.filter_cons_of_pos (by simpa using kept)]
      rfl

end Merge

/-! ## The total, the new priorities, the rescaling and the centring -/

section Stages

open ValidatorSet

variable {vs next : ValidatorSet}

/-- A clipped sum with a positive power that stays within MaxTotalVotingPower is the sum. -/
theorem safeAddClip_eq_add
    {sum power : Int}
    (positive : 0 < power)
    (within : ¬ safeAddClip sum power > maxTotalVotingPower) :
    safeAddClip sum power = sum + power := by
  unfold safeAddClip safeAdd at *
  have notNegative : ¬ power < 0 := not_lt.mpr positive.le
  by_cases overflows : sum > maxInt64 - power
  · -- the clipped sum, MaxInt64, is above MaxTotalVotingPower
    rw [if_pos ⟨positive, overflows⟩] at within
    simp [notNegative, maxTotalVotingPower, maxInt64] at within
  · rw [if_neg fun clipped => overflows clipped.2, if_neg fun clipped => notNegative clipped.1]

/-- updateTotalVotingPower caches the sum of positive powers when it does not panic. -/
theorem updateTotalVotingPower_eq_ok
    (positive : ∀ val ∈ vs.validators, 0 < val.votingPower)
    (updated : vs.updateTotalVotingPower = .ok next) :
    next = { vs with totalVotingPower := (vs.validators.map Validator.votingPower).sum } := by
  unfold updateTotalVotingPower at updated
  obtain ⟨sum, summed, rfl⟩ := Runs.map_eq_ok updated
  have added := Runs.run_eq_add_sum Validator.votingPower ?_ summed
  · rw [added, zero_add]
  · intro partialSum val nextSum member stepped
    dsimp only at stepped
    split_ifs at stepped with above
    cases stepped
    exact safeAddClip_eq_add (positive val member) above

/-- With the cache at the sum of positive powers, reading the total changes nothing. -/
theorem refreshTotalVotingPower_eq_ok
    {total : Int}
    (positive : ∀ val ∈ vs.validators, 0 < val.votingPower)
    (cached : vs.totalVotingPower = (vs.validators.map Validator.votingPower).sum)
    (refreshed : vs.refreshTotalVotingPower = .ok (next, total)) :
    next = vs ∧ total = vs.totalVotingPower := by
  unfold refreshTotalVotingPower at refreshed
  split_ifs at refreshed with zero
  · obtain ⟨updated, recomputed, same⟩ := Runs.map_eq_ok refreshed
    rw [updateTotalVotingPower_eq_ok positive recomputed, ← cached] at same
    cases same
    exact ⟨rfl, rfl⟩
  · cases refreshed
    exact ⟨rfl, rfl⟩

/--
verifyUpdates, on a set whose cache is the sum of its positive powers,
leaves the set as it is, and the total it accepts is the set's total with
the delta of every update.
-/
theorem verifyUpdates_eq_ok
    {updates : List Validator}
    {removedPower : Int}
    {checked : Except UpdateError Int}
    (positive : ∀ val ∈ vs.validators, 0 < val.votingPower)
    (cached : vs.totalVotingPower = (vs.validators.map Validator.votingPower).sum)
    (verified : verifyUpdates updates vs removedPower = .ok (next, checked)) :
    next = vs ∧
      ∀ total, checked = .ok total → total = vs.totalVotingPower + (updates.map vs.delta).sum := by
  unfold verifyUpdates at verified
  obtain ⟨⟨refreshedSet, refreshedTotal⟩, refreshed, result⟩ := Runs.bind_eq_ok verified
  obtain ⟨sameSet, sameTotal⟩ := refreshTotalVotingPower_eq_ok positive cached refreshed
  subst refreshedSet refreshedTotal
  simp only [Except.ok.injEq, Prod.mk.injEq] at result
  obtain ⟨rfl, rfl⟩ := result
  refine ⟨rfl, ?_⟩
  intro total summed
  obtain ⟨afterUpdates, ran, rfl⟩ := Runs.map_eq_ok summed
  have added := Runs.run_eq_add_sum vs.delta ?_ ran
  · rw [added, ((List.perm_insertionSort _ updates).map vs.delta).sum_eq]
    ring
  · intro partialTotal update nextTotal _ stepped
    split_ifs at stepped
    cases stepped
    rfl

/-- verifyRemovals accepts only removals of validators of the set. -/
theorem verifyRemovals_eq_ok
    {deletes : List Validator}
    {removedPower : Int}
    (verified : verifyRemovals deletes vs = .ok (.ok removedPower)) :
    ∀ delete ∈ deletes, delete.address ∈ vs.validators.map Validator.address := by
  unfold verifyRemovals at verified
  split at verified
  · cases verified
  · rename_i summed
    intro delete member
    obtain ⟨partialPower, nextPower, stepped⟩ := Runs.step_ok_of_run_of_mem summed member
    split at stepped
    · cases stepped
    · rename_i val found
      rw [getByAddress_snd] at found
      obtain ⟨valMember, same⟩ := KeyedList.mem_of_find_eq_some found
      exact List.mem_map.mpr ⟨val, valMember, same⟩

/-- RescalePriorities divides every priority by one ratio, 1 when it does not rescale. -/
theorem rescalePriorities_eq_ok
    {diffMax : Int}
    (rescaled : vs.rescalePriorities diffMax = .ok next) :
    ∃ ratio, next = { vs with
      validators := vs.validators.map fun val =>
        { val with proposerPriority := val.proposerPriority.tdiv ratio } } := by
  unfold rescalePriorities at rescaled
  split_ifs at rescaled with empty nonpositive
  · cases rescaled
    exact ⟨1, by simp⟩
  · obtain ⟨diff, -, divided⟩ := Runs.map_eq_ok rescaled
    split_ifs at divided
    · exact ⟨_, divided.symm⟩
    · subst divided
      exact ⟨1, by simp⟩

/-- shiftByAvgProposerPriority subtracts one average from every priority, clipped. -/
theorem shiftByAvgProposerPriority_eq_ok
    (shifted : vs.shiftByAvgProposerPriority = .ok next) :
    ∃ avg, next = { vs with
      validators := vs.validators.map fun val =>
        { val with proposerPriority := safeSubClip val.proposerPriority avg } } := by
  unfold shiftByAvgProposerPriority at shifted
  split_ifs at shifted
  obtain ⟨avg, -, centred⟩ := Runs.map_eq_ok shifted
  exact ⟨avg, centred.symm⟩

end Stages

/-! ## updateWithChangeSet -/

section UpdateWithChangeSet

open ValidatorSet

variable {vs next : ValidatorSet} {changes permuted : List Validator} {allowDeletes : Bool}

/--
The priority computeNewPriorities gives an update: that of the validator at
its address, or -(U + U >> 3) for a new one.
-/
def startPriority (vs : ValidatorSet) (updatedTotalVotingPower : Int) (address : Address) : Int :=
  match (vs.getByAddress address).2 with
  | some val => val.proposerPriority
  | none => wrapInt64 (-(updatedTotalVotingPower + (updatedTotalVotingPower >>> 3)))

theorem computeNewPriorities_eq (updates : List Validator) (updatedTotalVotingPower : Int) :
    computeNewPriorities updates vs updatedTotalVotingPower =
      updates.map fun update =>
        { update with proposerPriority := startPriority vs updatedTotalVotingPower update.address } := by
  unfold computeNewPriorities startPriority
  apply List.map_congr_left
  intro update _
  cases (vs.getByAddress update.address).2 <;> rfl

/--
An accepted change set is empty and changes nothing, or passes the checks
and goes through every step of the application: the updates with their new
priorities merged, the removals dropped, the total cached and read, the
priorities rescaled and centred, and the validators sorted by power.
-/
theorem updateWithChangeSet_eq_ok_none
    (positive : ∀ val ∈ vs.validators, 0 < val.votingPower)
    (cached : vs.totalVotingPower = (vs.validators.map Validator.votingPower).sum)
    (accepted : vs.updateWithChangeSet changes allowDeletes = .ok (next, none)) :
    (changes = [] ∧ next = vs) ∨
      ∃ updates deletes removed totaled refreshed total rescaled shifted,
        processChanges changes = .ok (updates, deletes) ∧
        (∀ delete ∈ deletes, delete.address ∈ vs.validators.map Validator.address) ∧
        (vs.applyUpdates
            (computeNewPriorities updates vs (vs.totalVotingPower + (updates.map vs.delta).sum))).applyRemovals
          deletes = .ok removed ∧
        removed.updateTotalVotingPower = .ok totaled ∧
        totaled.refreshTotalVotingPower = .ok (refreshed, total) ∧
        refreshed.rescalePriorities (wrapInt64 (priorityWindowSizeFactor * total)) = .ok rescaled ∧
        rescaled.shiftByAvgProposerPriority = .ok shifted ∧
        next = { shifted with validators := sortByVotingPower shifted.validators } := by
  unfold updateWithChangeSet at accepted
  split_ifs at accepted with empty
  · cases accepted
    exact .inl ⟨List.isEmpty_iff.mp empty, rfl⟩
  split at accepted
  · cases accepted
  rename_i updates deletes processed
  split_ifs at accepted
  · cases accepted
  obtain ⟨checkedRemovals, removalsVerified, continued⟩ := Runs.bind_eq_ok accepted
  split at continued
  · cases continued
  rename_i _ removedPower
  obtain ⟨⟨verifiedSet, checkedUpdates⟩, updatesVerified, continued⟩ := Runs.bind_eq_ok continued
  dsimp only at continued
  split at continued
  · cases continued
  rename_i total
  obtain ⟨sameSet, totalEq⟩ := verifyUpdates_eq_ok positive cached updatesVerified
  subst verifiedSet
  obtain rfl := totalEq total rfl
  split_ifs at continued
  · cases continued
  obtain ⟨removed, removedOk, continued⟩ := Runs.bind_eq_ok continued
  obtain ⟨totaled, totaledOk, continued⟩ := Runs.bind_eq_ok continued
  obtain ⟨⟨refreshed, refreshedTotal⟩, refreshedOk, continued⟩ := Runs.bind_eq_ok continued
  obtain ⟨rescaled, rescaledOk, continued⟩ := Runs.bind_eq_ok continued
  obtain ⟨shifted, shiftedOk, continued⟩ := Runs.bind_eq_ok continued
  cases continued
  exact .inr ⟨updates, deletes, removed, totaled, refreshed, refreshedTotal, rescaled, shifted, processed,
    verifyRemovals_eq_ok removalsVerified, removedOk, totaledOk, refreshedOk, rescaledOk, shiftedOk, rfl⟩

/-- A rejected change set leaves a set whose cache is the sum of its positive powers as it was. -/
theorem updateWithChangeSet_eq_ok_some
    {err : UpdateError}
    (positive : ∀ val ∈ vs.validators, 0 < val.votingPower)
    (cached : vs.totalVotingPower = (vs.validators.map Validator.votingPower).sum)
    (rejected : vs.updateWithChangeSet changes allowDeletes = .ok (next, some err)) :
    next = vs := by
  unfold updateWithChangeSet at rejected
  split_ifs at rejected with empty
  · cases rejected
  split at rejected
  · cases rejected
    rfl
  split_ifs at rejected
  · cases rejected
    rfl
  obtain ⟨checkedRemovals, -, continued⟩ := Runs.bind_eq_ok rejected
  split at continued
  · cases continued
    rfl
  obtain ⟨⟨verifiedSet, checkedUpdates⟩, updatesVerified, continued⟩ := Runs.bind_eq_ok continued
  obtain ⟨sameSet, -⟩ := verifyUpdates_eq_ok positive cached updatesVerified
  subst verifiedSet
  dsimp only at continued
  split at continued
  · cases continued
    rfl
  split_ifs at continued
  · cases continued
    rfl
  -- the application ends without an error
  obtain ⟨_, -, continued⟩ := Runs.bind_eq_ok continued
  obtain ⟨_, -, continued⟩ := Runs.bind_eq_ok continued
  obtain ⟨⟨_, _⟩, -, continued⟩ := Runs.bind_eq_ok continued
  obtain ⟨_, -, continued⟩ := Runs.bind_eq_ok continued
  obtain ⟨_, -, continued⟩ := Runs.bind_eq_ok continued
  cases continued

/-- The change set an update accepts has distinct addresses. -/
theorem nodup_of_updateWithChangeSet_eq_ok_none
    (positive : ∀ val ∈ vs.validators, 0 < val.votingPower)
    (cached : vs.totalVotingPower = (vs.validators.map Validator.votingPower).sum)
    (accepted : vs.updateWithChangeSet changes allowDeletes = .ok (next, none)) :
    (changes.map Validator.address).Nodup := by
  rcases updateWithChangeSet_eq_ok_none positive cached accepted with ⟨rfl, -⟩ | ⟨_, _, _, _, _, _, _, _, processed, -⟩
  · exact List.nodup_nil
  · exact nodup_of_processChanges_eq_ok processed

/--
updateWithChangeSet reads the change set through its sorted copy: a
permutation of a change set without repeated addresses has its result.
-/
theorem updateWithChangeSet_perm
    (distinct : (changes.map Validator.address).Nodup)
    (perm : permuted.Perm changes) :
    vs.updateWithChangeSet permuted allowDeletes = vs.updateWithChangeSet changes allowDeletes := by
  have sameEmptiness : permuted.isEmpty = changes.isEmpty := by
    rw [Bool.eq_iff_iff, List.isEmpty_iff, List.isEmpty_iff, ← List.length_eq_zero_iff,
      ← List.length_eq_zero_iff, perm.length_eq]
  unfold updateWithChangeSet processChanges
  rw [sortByAddress_eq_of_perm distinct perm, sameEmptiness]

end UpdateWithChangeSet

/-! ## What an accepted change set leaves -/

section Survivors

open ValidatorSet

variable {vs next : ValidatorSet} {changes updates deletes : List Validator}
  {allowDeletes : Bool} {updatedTotalVotingPower : Int}

/--
The validators applyUpdates and applyRemovals leave: the set merged with the
updates and their new priorities, without the removals.
-/
def survivors (vs : ValidatorSet) (updates deletes : List Validator) (updatedTotalVotingPower : Int) :
    List Validator :=
  (mergeUpdates (sortByAddress vs.validators)
      (computeNewPriorities updates vs updatedTotalVotingPower)).filter
    fun val => val.address ∉ deletes.map Validator.address

theorem map_address_computeNewPriorities :
    (computeNewPriorities updates vs updatedTotalVotingPower).map Validator.address =
      updates.map Validator.address := by
  rw [computeNewPriorities_eq, List.map_map]
  rfl

theorem computeNewPriorities_sorted
    (vs : ValidatorSet)
    (updatedTotalVotingPower : Int)
    (sorted : updates.Pairwise validatorsByAddressLess) :
    (computeNewPriorities updates vs updatedTotalVotingPower).Pairwise validatorsByAddressLess := by
  rw [computeNewPriorities_eq, List.pairwise_map]
  exact sorted

section Accepted

variable (distinct : (vs.validators.map Validator.address).Nodup)
  (processed : processChanges changes = .ok (updates, deletes))
include distinct processed

theorem merge_sorted :
    (mergeUpdates (sortByAddress vs.validators)
      (computeNewPriorities updates vs updatedTotalVotingPower)).Pairwise validatorsByAddressLess :=
  mergeUpdates_sorted (sortByAddress_sorted distinct)
    (computeNewPriorities_sorted _ _ (processChanges_sorted processed).1)

theorem survivors_sorted :
    (survivors vs updates deletes updatedTotalVotingPower).Pairwise validatorsByAddressLess :=
  (merge_sorted distinct processed).filter _

/--
A validator left is one of the set that no update names, or an update with
its new priority.
-/
theorem mem_survivors
    {val : Validator}
    (member : val ∈ survivors vs updates deletes updatedTotalVotingPower) :
    (val ∈ vs.validators ∧ val.address ∉ updates.map Validator.address) ∨
      ∃ update ∈ updates,
        val = { update with proposerPriority := startPriority vs updatedTotalVotingPower update.address } := by
  have merged := (List.mem_filter.mp member).1
  have perm := mergeUpdates_perm (sortByAddress_sorted distinct)
    (computeNewPriorities_sorted vs updatedTotalVotingPower (processChanges_sorted processed).1)
  rcases List.mem_append.mp (perm.mem_iff.mp merged) with kept | updated
  · obtain ⟨existing, notUpdated⟩ := List.mem_filter.mp kept
    simp only [decide_eq_true_eq, map_address_computeNewPriorities] at notUpdated
    exact .inl ⟨(sortByAddress_perm _).mem_iff.mp existing, notUpdated⟩
  · rw [computeNewPriorities_eq] at updated
    obtain ⟨update, updateMember, rfl⟩ := List.mem_map.mp updated
    exact .inr ⟨update, updateMember, rfl⟩

theorem survivors_positive (positive : ∀ val ∈ vs.validators, 0 < val.votingPower) :
    ∀ val ∈ survivors vs updates deletes updatedTotalVotingPower, 0 < val.votingPower := by
  intro val member
  rcases mem_survivors distinct processed member with ⟨existing, -⟩ | ⟨update, updateMember, rfl⟩
  · exact positive val existing
  · exact processChanges_positive processed update updateMember

/--
The validator left at an address: none at a removal, the update with its
new priority at an update, and the set's elsewhere.
-/
theorem find_survivors (address : Address) :
    KeyedList.find Validator.address (survivors vs updates deletes updatedTotalVotingPower) address =
      if address ∈ deletes.map Validator.address then none
      else if address ∈ updates.map Validator.address then
        (KeyedList.find Validator.address updates address).map fun update =>
          { update with proposerPriority := startPriority vs updatedTotalVotingPower update.address }
      else KeyedList.find Validator.address vs.validators address := by
  have existingSorted := sortByAddress_sorted distinct
  have updatesSorted :=
    computeNewPriorities_sorted vs updatedTotalVotingPower (processChanges_sorted processed).1
  have mergedDistinct := nodup_of_sorted_by_address (mergeUpdates_sorted existingSorted updatesSorted)
  have existingDistinct := ((sortByAddress_perm vs.validators).map Validator.address).nodup_iff.mpr distinct
  unfold survivors
  rw [KeyedList.find_filter, KeyedList.find_perm mergedDistinct (mergeUpdates_perm existingSorted updatesSorted),
    KeyedList.find_filter_append, map_address_computeNewPriorities, computeNewPriorities_eq,
    KeyedList.find_perm existingDistinct (sortByAddress_perm vs.validators), KeyedList.find_map]
  -- the new priorities keep the addresses
  intro update
  rfl

end Accepted

/--
An accepted change set leaves the validators left, every priority rescaled
by one ratio and centred by one average, sorted by power, with the proposer
and with their total cached.
-/
theorem updateWithChangeSet_shape
    (distinct : (vs.validators.map Validator.address).Nodup)
    (positive : ∀ val ∈ vs.validators, 0 < val.votingPower)
    (cached : vs.totalVotingPower = (vs.validators.map Validator.votingPower).sum)
    (accepted : vs.updateWithChangeSet changes allowDeletes = .ok (next, none)) :
    (changes = [] ∧ next = vs) ∨
      ∃ updates deletes ratio avg,
        processChanges changes = .ok (updates, deletes) ∧
        next =
          ⟨sortByVotingPower
              ((survivors vs updates deletes (vs.totalVotingPower + (updates.map vs.delta).sum)).map
                fun val => { val with proposerPriority := safeSubClip (val.proposerPriority.tdiv ratio) avg }),
            vs.proposer,
            ((survivors vs updates deletes (vs.totalVotingPower + (updates.map vs.delta).sum)).map
              Validator.votingPower).sum⟩ := by
  rcases updateWithChangeSet_eq_ok_none positive cached accepted with unchanged |
    ⟨updates, deletes, removed, totaled, refreshed, total, rescaled, shifted, processed, present,
      removedOk, totaledOk, refreshedOk, rescaledOk, shiftedOk, rfl⟩
  · exact .inl unchanged
  right
  have existingSorted := sortByAddress_sorted distinct
  have updatesSorted := computeNewPriorities_sorted vs (vs.totalVotingPower + (updates.map vs.delta).sum)
    (processChanges_sorted processed).1
  -- every removal is in the merge, where no update names it
  have presentMerged : ∀ delete ∈ deletes, delete.address ∈
      (mergeUpdates (sortByAddress vs.validators)
        (computeNewPriorities updates vs (vs.totalVotingPower + (updates.map vs.delta).sum))).map
        Validator.address := by
    intro delete member
    obtain ⟨val, valMember, same⟩ := List.mem_map.mp (present delete member)
    have notUpdated := address_not_mem_updates processed member
    refine List.mem_map.mpr ⟨val, (mergeUpdates_perm existingSorted updatesSorted).mem_iff.mpr
      (List.mem_append_left _ (List.mem_filter.mpr ⟨(sortByAddress_perm _).mem_iff.mpr valMember, ?_⟩)), same⟩
    simpa [map_address_computeNewPriorities, same] using notUpdated
  unfold applyRemovals applyUpdates at removedOk
  split_ifs at removedOk
  obtain ⟨left, removedLeft, rfl⟩ := Runs.map_eq_ok removedOk
  rw [removeDeletes_eq_ok (mergeUpdates_sorted existingSorted updatesSorted)
    (processChanges_sorted processed).2 presentMerged] at removedLeft
  cases removedLeft
  rw [updateTotalVotingPower_eq_ok (survivors_positive distinct processed positive) totaledOk] at refreshedOk
  obtain ⟨rfl, rfl⟩ := refreshTotalVotingPower_eq_ok (survivors_positive distinct processed positive) rfl refreshedOk
  obtain ⟨ratio, rfl⟩ := rescalePriorities_eq_ok rescaledOk
  obtain ⟨avg, rfl⟩ := shiftByAvgProposerPriority_eq_ok shiftedOk
  refine ⟨updates, deletes, ratio, avg, processed, ?_⟩
  simp only [List.map_map, Function.comp_def]
  rfl

end Survivors

end Kardia
