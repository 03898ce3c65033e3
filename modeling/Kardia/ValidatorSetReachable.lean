import Kardia.ValidatorSetChanges
import Kardia.ValidatorSetPriority

namespace Kardia

/-!
# Reachable validator sets and what a change set does to them

A validator set is reachable when NewValidatorSet builds it, or when a
change set or IncrementProposerPriority leads to it from a reachable set.
Every reachable set is well formed: its addresses are distinct, its powers
positive, its cache is the sum of the powers, and it is sorted by
ValidatorsByVotingPower.  IncrementProposerPriority moves no address or
power, a rejected change set leaves the set as it was, and an accepted one
leaves a well-formed set.

Read as a map from addresses to powers, the set an accepted change set
leaves is the old map overridden by the changes, a change of power 0
removing its address.  A validator new to the set starts from
-(U + U >> 3), U the total after the updates and before the removals, a
validator of the set from its own priority, and all are then rescaled by one
ratio and centred by one average.
-/

namespace ValidatorSet

/-- The invariant of the validator sets the code builds. -/
structure WellFormed (vs : ValidatorSet) : Prop where
  distinct : (vs.validators.map Validator.address).Nodup
  positive : ∀ val ∈ vs.validators, 0 < val.votingPower
  cached : vs.totalVotingPower = (vs.validators.map Validator.votingPower).sum
  sorted : vs.validators.Pairwise validatorsByVotingPowerLess

/-- The sets NewValidatorSet, UpdateWithChangeSet and IncrementProposerPriority build. -/
inductive Reachable : ValidatorSet → Prop where
  | new {vals : List Validator} {vs : ValidatorSet} :
      newValidatorSet vals = .ok vs → Reachable vs
  | update {vs next : ValidatorSet} {changes : List Validator} {err : Option UpdateError} :
      Reachable vs → vs.UpdateWithChangeSet changes = .ok (next, err) → Reachable next
  | increment {vs next : ValidatorSet} {times : Int} :
      Reachable vs → vs.IncrementProposerPriority times = .ok next → Reachable next

/-- The power of the validator GetByAddress finds. -/
def powerOf (vs : ValidatorSet) (address : Address) : Option Int :=
  (vs.getByAddress address).2.map Validator.votingPower

/--
The power a change list gives an address: none for a change of power 0, the
changed power for another change, and the set's power without a change.
-/
def changedPower (vs : ValidatorSet) (changes : List Validator) (address : Address) : Option Int :=
  match KeyedList.find Validator.address changes address with
  | some change => if change.votingPower = 0 then none else some change.votingPower
  | none => vs.powerOf address

/-- The total after the updates and before the removals: the set's power and each update's delta. -/
def totalAfterUpdates (vs : ValidatorSet) (changes : List Validator) : Int :=
  (vs.validators.map Validator.votingPower).sum +
    ((changes.filter fun change => 0 < change.votingPower).map vs.delta).sum

/-- The address and power of every validator, in order: what WellFormed reads. -/
def addressPowers (validators : List Validator) : List (Address × Int) :=
  validators.map fun val => (val.address, val.votingPower)

variable {vs next : ValidatorSet} {changes : List Validator}

/-! ## Sets with the same addresses and powers -/

/-- ValidatorsByVotingPower.Less read on addresses and powers. -/
theorem pairwise_votingPowerLess_iff (validators : List Validator) :
    validators.Pairwise validatorsByVotingPowerLess ↔
      (addressPowers validators).Pairwise fun a b =>
        if a.2 = b.2 then a.1.val < b.1.val else a.2 > b.2 := by
  rw [addressPowers, List.pairwise_map]
  rfl

/-- A set with the addresses, powers and cache of a well-formed set is well formed. -/
theorem WellFormed.of_addressPowers
    (wellFormed : WellFormed vs)
    (same : addressPowers next.validators = addressPowers vs.validators)
    (sameTotal : next.totalVotingPower = vs.totalVotingPower) :
    WellFormed next := by
  have addresses : next.validators.map Validator.address = vs.validators.map Validator.address := by
    simpa [addressPowers, Function.comp_def] using congrArg (List.map Prod.fst) same
  have powers : next.validators.map Validator.votingPower = vs.validators.map Validator.votingPower := by
    simpa [addressPowers, Function.comp_def] using congrArg (List.map Prod.snd) same
  refine ⟨addresses ▸ wellFormed.distinct, ?_, ?_, ?_⟩
  · intro val member
    obtain ⟨other, otherMember, samePower⟩ :=
      List.mem_map.mp (powers ▸ List.mem_map.mpr ⟨val, member, rfl⟩)
    rw [← samePower]
    exact wellFormed.positive other otherMember
  · rw [sameTotal, wellFormed.cached, powers]
  · rw [pairwise_votingPowerLess_iff, same, ← pairwise_votingPowerLess_iff]
    exact wellFormed.sorted

/-- Changing priorities keeps the addresses and powers. -/
@[simp] theorem addressPowers_map_priority (validators : List Validator) (priority : Validator → Int) :
    addressPowers (validators.map fun val => { val with proposerPriority := priority val }) =
      addressPowers validators := by
  simp [addressPowers]

/-- Replacing a validator by itself with another priority keeps the addresses and powers. -/
theorem addressPowers_set
    {validators : List Validator}
    {index : Nat}
    {val : Validator}
    (found : validators[index]? = some val)
    (priority : Int) :
    addressPowers (validators.set index { val with proposerPriority := priority }) =
      addressPowers validators := by
  unfold addressPowers
  rw [List.map_set]
  apply List.ext_getElem?
  intro position
  rw [List.getElem?_set]
  split_ifs with atIndex inRange
  · subst atIndex
    simp [found]
  · simp_all
  · rfl

/-! ## IncrementProposerPriority -/

/-- A pair of the zip of the indices with a list is an index and the element there. -/
theorem getElem?_of_mem_zip_range
    {validators : List Validator}
    {index : Nat}
    {val : Validator}
    (member : (index, val) ∈ (List.range validators.length).zip validators) :
    validators[index]? = some val := by
  obtain ⟨position, inRange, atPosition⟩ := List.getElem_of_mem member
  rw [List.getElem_zip] at atPosition
  simp only [List.getElem_range, Prod.mk.injEq] at atPosition
  obtain ⟨rfl, rfl⟩ := atPosition
  simp

/-- The validator with the most priority is the one at its index. -/
theorem getValWithMostPriority_eq_ok_some
    {index : Nat}
    {val : Validator}
    (found : vs.getValWithMostPriority = .ok (some (index, val))) :
    vs.validators[index]? = some val := by
  unfold getValWithMostPriority at found
  apply getElem?_of_mem_zip_range
  -- the winner so far is always a pair of the loop
  refine Runs.invariant_of_run_of_mem
    (fun winner => ∀ pair, winner = some pair → pair ∈ (List.range vs.validators.length).zip vs.validators)
    ?_ (fun _ none => by cases none) found (index, val) rfl
  rintro winner ⟨position, candidate⟩ next member holds stepped
  dsimp only at stepped
  split at stepped
  · cases stepped
  · split at stepped
    · split_ifs at stepped
      · cases stepped
        exact holds
      · cases stepped
        rintro pair ⟨⟩
        exact member
    · cases stepped
      rintro pair ⟨⟩
      exact member

/-- One round of incrementProposerPriority keeps a set well formed. -/
theorem incrementProposerPriority_wellFormed
    {mostest : Validator}
    (wellFormed : WellFormed vs)
    (incremented : vs.incrementProposerPriority = .ok (next, mostest)) :
    WellFormed next := by
  unfold incrementProposerPriority at incremented
  obtain ⟨winner, winnerOk, continued⟩ := Runs.bind_eq_ok incremented
  split at continued
  · cases continued
  rename_i index val
  obtain ⟨⟨refreshed, total⟩, refreshedOk, continued⟩ := Runs.bind_eq_ok continued
  cases continued
  -- the priorities grow, the addresses and powers stay
  have grown : WellFormed { vs with
      validators := vs.validators.map fun (val : Validator) =>
        { val with proposerPriority := wrapInt64 (val.proposerPriority + val.votingPower) } } :=
    wellFormed.of_addressPowers (addressPowers_map_priority _ _) rfl
  obtain ⟨rfl, rfl⟩ := refreshTotalVotingPower_eq_ok grown.positive grown.cached refreshedOk
  exact grown.of_addressPowers (addressPowers_set (getValWithMostPriority_eq_ok_some winnerOk) _) rfl

/-- The rounds of IncrementProposerPriority keep a set well formed. -/
theorem incrementRounds_wellFormed
    {rounds : Nat}
    {proposer last : Option Validator}
    (wellFormed : WellFormed vs)
    (ran : incrementRounds rounds vs proposer = .ok (next, last)) :
    WellFormed next := by
  induction rounds generalizing vs proposer with
  | zero =>
      cases ran
      exact wellFormed
  | succ rounds inductionHypothesis =>
      obtain ⟨⟨incremented, mostest⟩, incrementedOk, continued⟩ := Runs.bind_eq_ok ran
      exact inductionHypothesis (incrementProposerPriority_wellFormed wellFormed incrementedOk) continued

/-- IncrementProposerPriority keeps a set well formed. -/
theorem IncrementProposerPriority_wellFormed
    {times : Int}
    (wellFormed : WellFormed vs)
    (incremented : vs.IncrementProposerPriority times = .ok next) :
    WellFormed next := by
  unfold IncrementProposerPriority at incremented
  split_ifs at incremented
  obtain ⟨⟨refreshed, total⟩, refreshedOk, continued⟩ := Runs.bind_eq_ok incremented
  obtain ⟨rfl, rfl⟩ := refreshTotalVotingPower_eq_ok wellFormed.positive wellFormed.cached refreshedOk
  obtain ⟨rescaled, rescaledOk, continued⟩ := Runs.bind_eq_ok continued
  obtain ⟨ratio, rfl⟩ := rescalePriorities_eq_ok rescaledOk
  obtain ⟨shifted, shiftedOk, continued⟩ := Runs.bind_eq_ok continued
  obtain ⟨avg, rfl⟩ := shiftByAvgProposerPriority_eq_ok shiftedOk
  obtain ⟨⟨rounds, proposer⟩, roundsOk, continued⟩ := Runs.bind_eq_ok continued
  cases continued
  refine WellFormed.of_addressPowers (incrementRounds_wellFormed ?_ roundsOk) rfl rfl
  -- the rescaling and the centring move no address or power
  refine WellFormed.of_addressPowers ?_ (addressPowers_map_priority _ _) rfl
  exact wellFormed.of_addressPowers (addressPowers_map_priority _ _) rfl

/-! ## What an accepted change set leaves -/

theorem sortByVotingPower_perm (validators : List Validator) :
    (sortByVotingPower validators).Perm validators :=
  List.perm_insertionSort _ validators

/-- sort.Sort(ValidatorsByVotingPower) sorts distinct addresses by ValidatorsByVotingPower.Less. -/
theorem sortByVotingPower_sorted
    {validators : List Validator}
    (distinct : (validators.map Validator.address).Nodup) :
    (sortByVotingPower validators).Pairwise validatorsByVotingPowerLess := by
  have total : Std.Total fun a b : Validator =>
      a.votingPower > b.votingPower ∨ (a.votingPower = b.votingPower ∧ a.address.val ≤ b.address.val) :=
    ⟨fun a b => by omega⟩
  have transitive : IsTrans Validator fun a b =>
      a.votingPower > b.votingPower ∨ (a.votingPower = b.votingPower ∧ a.address.val ≤ b.address.val) :=
    ⟨fun _ _ _ first second => by omega⟩
  have sorted : (sortByVotingPower validators).Pairwise fun a b =>
      a.votingPower > b.votingPower ∨ (a.votingPower = b.votingPower ∧ a.address.val ≤ b.address.val) :=
    List.pairwise_insertionSort _ validators
  have sortedDistinct : ((sortByVotingPower validators).map Validator.address).Nodup :=
    ((sortByVotingPower_perm validators).map _).nodup_iff.mpr distinct
  rw [List.Nodup, List.pairwise_map] at sortedDistinct
  refine sorted.imp₂ ?_ sortedDistinct
  intro a b ordered other
  have otherValue : a.address.val ≠ b.address.val := fun same => other (congrArg Address.mk same)
  unfold validatorsByVotingPowerLess
  split_ifs <;> omega

/-- Distinct addresses of positive power, sorted by power with their sum cached, are well formed. -/
theorem wellFormed_sortByVotingPower
    {validators : List Validator}
    {proposer : Option Validator}
    {total : Int}
    (distinct : (validators.map Validator.address).Nodup)
    (positive : ∀ val ∈ validators, 0 < val.votingPower)
    (summed : total = (validators.map Validator.votingPower).sum) :
    WellFormed ⟨sortByVotingPower validators, proposer, total⟩ := by
  have perm := sortByVotingPower_perm validators
  refine ⟨(perm.map _).nodup_iff.mpr distinct, fun val member => positive val (perm.mem_iff.mp member), ?_,
    sortByVotingPower_sorted distinct⟩
  rw [summed]
  exact (perm.map _).sum_eq.symm

/-- safeSubClip of zero is the identity. -/
theorem safeSubClip_zero (value : Int) : safeSubClip value 0 = value := by
  simp [safeSubClip, safeSub]

/-- A validator of a set with distinct addresses starts from its own priority. -/
theorem startPriority_of_mem
    {updatedTotalVotingPower : Int}
    {val : Validator}
    (distinct : (vs.validators.map Validator.address).Nodup)
    (member : val ∈ vs.validators) :
    startPriority vs updatedTotalVotingPower val.address = val.proposerPriority := by
  unfold startPriority
  rw [getByAddress_snd, KeyedList.find_key_of_mem distinct member]

/-- The total verifyUpdates accepts is the total after the updates and before the removals. -/
theorem totalAfterUpdates_eq
    {updates deletes : List Validator}
    (cached : vs.totalVotingPower = (vs.validators.map Validator.votingPower).sum)
    (processed : processChanges changes = .ok (updates, deletes)) :
    vs.totalVotingPower + (updates.map vs.delta).sum = vs.totalAfterUpdates changes := by
  obtain ⟨rfl, -⟩ := processChanges_eq_ok processed
  rw [totalAfterUpdates, cached, (((sortByAddress_perm changes).filter _).map vs.delta).sum_eq]

/--
The power an accepted change set gives an address, read off its updates and
removals: none at a removal, the update's at an update, and the set's
elsewhere.
-/
theorem changedPower_eq_of_processChanges
    {updates deletes : List Validator}
    (processed : processChanges changes = .ok (updates, deletes))
    (address : Address) :
    vs.changedPower changes address =
      if address ∈ deletes.map Validator.address then none
      else if address ∈ updates.map Validator.address then
        (KeyedList.find Validator.address updates address).map Validator.votingPower
      else vs.powerOf address := by
  have distinct := nodup_of_processChanges_eq_ok processed
  obtain ⟨rfl, rfl, sorted, nonnegative⟩ := processChanges_eq_ok processed
  have sortedDistinct := nodup_of_sorted_by_address sorted
  unfold changedPower
  rw [KeyedList.find_perm distinct (sortByAddress_perm changes).symm]
  cases found : KeyedList.find Validator.address (sortByAddress changes) address with
  | none =>
      -- no change names the address
      have absent := KeyedList.find_eq_none_iff.mp found
      have notRemoved :
          address ∉ ((sortByAddress changes).filter fun val => val.votingPower = 0).map Validator.address :=
        fun named => absent ((List.filter_sublist.map Validator.address).subset named)
      have notUpdated :
          address ∉ ((sortByAddress changes).filter fun val => 0 < val.votingPower).map Validator.address :=
        fun named => absent ((List.filter_sublist.map Validator.address).subset named)
      rw [if_neg notRemoved, if_neg notUpdated]
  | some change =>
      obtain ⟨member, rfl⟩ := KeyedList.mem_of_find_eq_some found
      dsimp only
      by_cases zero : change.votingPower = 0
      · have removed :
            change.address ∈ ((sortByAddress changes).filter fun val => val.votingPower = 0).map
              Validator.address :=
          List.mem_map_of_mem (List.mem_filter.mpr ⟨member, by simpa using zero⟩)
        rw [if_pos zero, if_pos removed]
      · have positive : 0 < change.votingPower := lt_of_le_of_ne (nonnegative change member) (Ne.symm zero)
        have updated : change ∈ (sortByAddress changes).filter fun val => 0 < val.votingPower :=
          List.mem_filter.mpr ⟨member, by simpa using positive⟩
        -- the one change at the address is not a removal
        have notRemoved :
            change.address ∉ ((sortByAddress changes).filter fun val => val.votingPower = 0).map
              Validator.address := by
          intro named
          obtain ⟨other, otherMember, same⟩ := List.mem_map.mp named
          obtain ⟨otherSorted, otherZero⟩ := List.mem_filter.mp otherMember
          obtain rfl := List.inj_on_of_nodup_map sortedDistinct otherSorted member same
          exact zero (by simpa using otherZero)
        rw [if_neg zero, if_neg notRemoved, if_pos (List.mem_map_of_mem updated),
          KeyedList.find_key_of_mem (nodup_of_sorted_by_address (sorted.filter _)) updated]
        rfl

section Shape

variable {updates deletes : List Validator} {ratio avg updatedTotalVotingPower : Int}

/-- The validators left with every priority rescaled by one ratio and centred by one average. -/
theorem recentred_distinct
    (distinct : (vs.validators.map Validator.address).Nodup)
    (processed : processChanges changes = .ok (updates, deletes)) :
    (((survivors vs updates deletes updatedTotalVotingPower).map fun val =>
        { val with proposerPriority := safeSubClip (val.proposerPriority.tdiv ratio) avg }).map
      Validator.address).Nodup := by
  rw [List.map_map]
  exact nodup_of_sorted_by_address (survivors_sorted distinct processed)

/--
The power the set an accepted change set leaves gives an address: none at a
removal, the update's at an update, and the old set's elsewhere.
-/
theorem powerOf_shape
    {proposer : Option Validator}
    {total : Int}
    (distinct : (vs.validators.map Validator.address).Nodup)
    (processed : processChanges changes = .ok (updates, deletes))
    (address : Address) :
    powerOf
        ⟨sortByVotingPower ((survivors vs updates deletes updatedTotalVotingPower).map fun val =>
            { val with proposerPriority := safeSubClip (val.proposerPriority.tdiv ratio) avg }),
          proposer, total⟩
        address =
      if address ∈ deletes.map Validator.address then none
      else if address ∈ updates.map Validator.address then
        (KeyedList.find Validator.address updates address).map Validator.votingPower
      else vs.powerOf address := by
  unfold powerOf
  rw [getByAddress_snd, getByAddress_snd]
  dsimp only
  rw [KeyedList.find_perm ((sortByVotingPower_perm _).map _ |>.nodup_iff.mpr (recentred_distinct distinct processed))
      (sortByVotingPower_perm _),
    KeyedList.find_map, Option.map_map, find_survivors distinct processed]
  · split_ifs
    · rfl
    · rw [Option.map_map]
      rfl
    · rfl
  · intro val
    rfl

/-- A validator an accepted change set leaves has its start priority, rescaled and centred. -/
theorem priority_of_mem_shape
    {val : Validator}
    (distinct : (vs.validators.map Validator.address).Nodup)
    (processed : processChanges changes = .ok (updates, deletes))
    (member : val ∈ sortByVotingPower ((survivors vs updates deletes updatedTotalVotingPower).map fun val =>
        { val with proposerPriority := safeSubClip (val.proposerPriority.tdiv ratio) avg })) :
    val.proposerPriority =
      safeSubClip ((startPriority vs updatedTotalVotingPower val.address).tdiv ratio) avg := by
  obtain ⟨left, leftMember, rfl⟩ := List.mem_map.mp ((sortByVotingPower_perm _).mem_iff.mp member)
  rcases mem_survivors distinct processed leftMember with ⟨existing, -⟩ | ⟨update, -, rfl⟩
  · show safeSubClip (left.proposerPriority.tdiv ratio) avg =
      safeSubClip ((startPriority vs updatedTotalVotingPower left.address).tdiv ratio) avg
    rw [startPriority_of_mem distinct existing]
  · rfl

end Shape

/--
What an accepted change set does: the set it leaves is well formed, gives
each address the changed power, and holds priorities that start from the
old ones or -(U + U >> 3) and are rescaled and centred alike.
-/
structure ChangeSetApplied (vs : ValidatorSet) (changes : List Validator) (next : ValidatorSet) : Prop where
  wellFormed : WellFormed next
  powers : ∀ address, next.powerOf address = vs.changedPower changes address
  priorities : ∃ ratio avg, ∀ val ∈ next.validators,
    val.proposerPriority =
      safeSubClip ((startPriority vs (vs.totalAfterUpdates changes) val.address).tdiv ratio) avg

/-- An accepted change set on a well-formed set does what ChangeSetApplied says. -/
theorem updateWithChangeSet_applied
    {allowDeletes : Bool}
    (wellFormed : WellFormed vs)
    (accepted : vs.updateWithChangeSet changes allowDeletes = .ok (next, none)) :
    ChangeSetApplied vs changes next := by
  rcases updateWithChangeSet_shape wellFormed.distinct wellFormed.positive wellFormed.cached accepted with
    ⟨rfl, rfl⟩ | ⟨updates, deletes, ratio, avg, processed, rfl⟩
  · -- an empty change set leaves the set as it is
    refine ⟨wellFormed, fun address => rfl, 1, 0, fun val member => ?_⟩
    rw [startPriority_of_mem wellFormed.distinct member, Int.tdiv_one, safeSubClip_zero]
  refine ⟨?_, fun address => ?_, ratio, avg, fun val member => ?_⟩
  · apply wellFormed_sortByVotingPower (recentred_distinct wellFormed.distinct processed)
    · intro val member
      obtain ⟨left, leftMember, rfl⟩ := List.mem_map.mp member
      exact survivors_positive wellFormed.distinct processed wellFormed.positive left leftMember
    · rw [List.map_map]
      rfl
  · rw [powerOf_shape wellFormed.distinct processed, changedPower_eq_of_processChanges processed]
  · rw [← totalAfterUpdates_eq wellFormed.cached processed]
    exact priority_of_mem_shape wellFormed.distinct processed member

/-! ## Every reachable set is well formed -/

/-- A change set, accepted or not, leaves a well-formed set well formed. -/
theorem updateWithChangeSet_wellFormed
    {allowDeletes : Bool}
    {err : Option UpdateError}
    (wellFormed : WellFormed vs)
    (updated : vs.updateWithChangeSet changes allowDeletes = .ok (next, err)) :
    WellFormed next := by
  cases err with
  | none => exact (updateWithChangeSet_applied wellFormed updated).wellFormed
  | some err =>
      rw [updateWithChangeSet_eq_ok_some wellFormed.positive wellFormed.cached updated]
      exact wellFormed

/-- NewValidatorSet builds a well-formed set. -/
theorem newValidatorSet_wellFormed
    {vals : List Validator}
    (created : newValidatorSet vals = .ok vs) :
    WellFormed vs := by
  unfold newValidatorSet at created
  obtain ⟨⟨updated, err⟩, updatedOk, continued⟩ := Runs.bind_eq_ok created
  have emptyWellFormed : WellFormed ⟨[], none, 0⟩ := ⟨List.nodup_nil, by simp, rfl, List.Pairwise.nil⟩
  have updatedWellFormed := updateWithChangeSet_wellFormed emptyWellFormed updatedOk
  dsimp only at continued
  split at continued
  · cases continued
  split_ifs at continued
  · exact IncrementProposerPriority_wellFormed updatedWellFormed continued
  · cases continued
    exact updatedWellFormed

/-- Every reachable set is well formed. -/
theorem Reachable.wellFormed (reachable : Reachable vs) : WellFormed vs := by
  induction reachable with
  | new created => exact newValidatorSet_wellFormed created
  | update _ updated inductionHypothesis => exact updateWithChangeSet_wellFormed inductionHypothesis updated
  | increment _ incremented inductionHypothesis =>
      exact IncrementProposerPriority_wellFormed inductionHypothesis incremented

/-! ## What a change set does to a reachable set -/

/--
On a reachable set, an accepted change set leaves one validator per address,
with the power the changes give the address: the changed power, none after a
change of power 0, and the old power without a change.  The validators are
sorted by ValidatorsByVotingPower.  Each starts from its old priority, or
from -(U + U >> 3) when it is new, and all are rescaled by one ratio and
centred by one average.  Every permutation of the change set is accepted
with the same result.
-/
theorem accepted_change_set_result
    (reachable : Reachable vs)
    (accepted : vs.UpdateWithChangeSet changes = .ok (next, none)) :
    (next.validators.map Validator.address).Nodup ∧
      (∀ address, next.powerOf address = vs.changedPower changes address) ∧
      next.validators.Pairwise validatorsByVotingPowerLess ∧
      (∃ ratio avg, ∀ val ∈ next.validators,
        val.proposerPriority =
          safeSubClip ((startPriority vs (vs.totalAfterUpdates changes) val.address).tdiv ratio) avg) ∧
      ∀ permuted, permuted.Perm changes → vs.UpdateWithChangeSet permuted = .ok (next, none) := by
  have wellFormed := reachable.wellFormed
  have applied := updateWithChangeSet_applied wellFormed accepted
  refine ⟨applied.wellFormed.distinct, applied.powers, applied.wellFormed.sorted, applied.priorities, ?_⟩
  intro permuted perm
  have distinct := nodup_of_updateWithChangeSet_eq_ok_none wellFormed.positive wellFormed.cached accepted
  unfold UpdateWithChangeSet at accepted ⊢
  rw [updateWithChangeSet_perm distinct perm]
  exact accepted

/-- NewValidatorSet of A and B, then B removed and C added. -/
theorem accepted_change_set_result_window :
    Reachable ⟨[⟨⟨2⟩, 100, -1⟩, ⟨⟨1⟩, 1, 1⟩], some ⟨⟨2⟩, 100, -1⟩, 101⟩ ∧
      ValidatorSet.UpdateWithChangeSet ⟨[⟨⟨2⟩, 100, -1⟩, ⟨⟨1⟩, 1, 1⟩], some ⟨⟨2⟩, 100, -1⟩, 101⟩
          Window.changes =
        .ok (⟨[⟨⟨1⟩, 1, 58⟩, ⟨⟨3⟩, 1, -57⟩], some ⟨⟨2⟩, 100, -1⟩, 2⟩, none) ∧
      ([⟨⟨1⟩, 1, 58⟩, ⟨⟨3⟩, 1, -57⟩].map Validator.address).Nodup ∧
      (∀ address, powerOf ⟨[⟨⟨1⟩, 1, 58⟩, ⟨⟨3⟩, 1, -57⟩], some ⟨⟨2⟩, 100, -1⟩, 2⟩ address =
        changedPower ⟨[⟨⟨2⟩, 100, -1⟩, ⟨⟨1⟩, 1, 1⟩], some ⟨⟨2⟩, 100, -1⟩, 101⟩ Window.changes address) ∧
      [⟨⟨1⟩, 1, 58⟩, ⟨⟨3⟩, 1, -57⟩].Pairwise validatorsByVotingPowerLess ∧
      (∃ ratio avg, ∀ val ∈ [(⟨⟨1⟩, 1, 58⟩ : Validator), ⟨⟨3⟩, 1, -57⟩],
        val.proposerPriority =
          safeSubClip
            ((startPriority ⟨[⟨⟨2⟩, 100, -1⟩, ⟨⟨1⟩, 1, 1⟩], some ⟨⟨2⟩, 100, -1⟩, 101⟩
                (totalAfterUpdates ⟨[⟨⟨2⟩, 100, -1⟩, ⟨⟨1⟩, 1, 1⟩], some ⟨⟨2⟩, 100, -1⟩, 101⟩ Window.changes)
                val.address).tdiv ratio) avg) ∧
      ∀ permuted, permuted.Perm Window.changes →
        ValidatorSet.UpdateWithChangeSet ⟨[⟨⟨2⟩, 100, -1⟩, ⟨⟨1⟩, 1, 1⟩], some ⟨⟨2⟩, 100, -1⟩, 101⟩ permuted =
          .ok (⟨[⟨⟨1⟩, 1, 58⟩, ⟨⟨3⟩, 1, -57⟩], some ⟨⟨2⟩, 100, -1⟩, 2⟩, none) := by
  have created : newValidatorSet Window.genesis =
      .ok ⟨[⟨⟨2⟩, 100, -1⟩, ⟨⟨1⟩, 1, 1⟩], some ⟨⟨2⟩, 100, -1⟩, 101⟩ := by
    decide +kernel
  have accepted : ValidatorSet.UpdateWithChangeSet ⟨[⟨⟨2⟩, 100, -1⟩, ⟨⟨1⟩, 1, 1⟩], some ⟨⟨2⟩, 100, -1⟩, 101⟩
      Window.changes = .ok (⟨[⟨⟨1⟩, 1, 58⟩, ⟨⟨3⟩, 1, -57⟩], some ⟨⟨2⟩, 100, -1⟩, 2⟩, none) := by
    decide +kernel
  exact ⟨.new created, accepted, accepted_change_set_result (.new created) accepted⟩

/-! ## The zero address -/

/--
processChanges starts its scan from the zero address as the previous one,
so a change set with a validator at the zero address is rejected as a
duplicate entry, although it names that address once.  The same change at
address 2 is accepted.
-/
theorem zero_address_change_rejected :
    newValidatorSet [⟨⟨1⟩, 1, 0⟩] = .ok ⟨[⟨⟨1⟩, 1, 0⟩], some ⟨⟨1⟩, 1, 0⟩, 1⟩ ∧
      ValidatorSet.UpdateWithChangeSet ⟨[⟨⟨1⟩, 1, 0⟩], some ⟨⟨1⟩, 1, 0⟩, 1⟩ [⟨Address.empty, 1, 0⟩] =
        .ok (⟨[⟨⟨1⟩, 1, 0⟩], some ⟨⟨1⟩, 1, 0⟩, 1⟩,
          some (.duplicateEntry ⟨Address.empty, 1, 0⟩ [⟨Address.empty, 1, 0⟩])) ∧
      ValidatorSet.UpdateWithChangeSet ⟨[⟨⟨1⟩, 1, 0⟩], some ⟨⟨1⟩, 1, 0⟩, 1⟩ [⟨⟨2⟩, 1, 0⟩] =
        .ok (⟨[⟨⟨1⟩, 1, 1⟩, ⟨⟨2⟩, 1, -1⟩], some ⟨⟨1⟩, 1, 0⟩, 2⟩, none) := by
  decide +kernel

/--
The change list calculateValidatorSetUpdates makes for a new list holding a
validator at the zero address is rejected as a duplicate entry, and the set
keeps its old validator.
-/
theorem zero_address_validator_not_synced :
    newValidatorSet [⟨⟨1⟩, 1, 0⟩] = .ok ⟨[⟨⟨1⟩, 1, 0⟩], some ⟨⟨1⟩, 1, 0⟩, 1⟩ ∧
      calculateValidatorSetUpdates [⟨⟨1⟩, 1, 0⟩] [⟨Address.empty, 1, 0⟩] =
        [⟨Address.empty, 1, 0⟩, ⟨⟨1⟩, 0, 0⟩] ∧
      ValidatorSet.UpdateWithChangeSet ⟨[⟨⟨1⟩, 1, 0⟩], some ⟨⟨1⟩, 1, 0⟩, 1⟩
          [⟨Address.empty, 1, 0⟩, ⟨⟨1⟩, 0, 0⟩] =
        .ok (⟨[⟨⟨1⟩, 1, 0⟩], some ⟨⟨1⟩, 1, 0⟩, 1⟩,
          some (.duplicateEntry ⟨Address.empty, 1, 0⟩ [⟨Address.empty, 1, 0⟩, ⟨⟨1⟩, 0, 0⟩])) := by
  decide +kernel

end ValidatorSet

end Kardia
