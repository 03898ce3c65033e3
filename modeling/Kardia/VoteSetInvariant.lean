import Kardia.VoteSet
import Kardia.Runs

namespace Kardia

/-!
# The representation invariant of a vote set

A vote set keeps each validator's vote twice: in the canonical slots, with
their bit array and power sum, and in the tally of the block key the vote is
for.  This module states what ties the copies together and proves that every
AddVote and SetPeerMaj23 call keeps it, so that it holds after every sequence
of calls on a fresh vote set.

The slots, bits and sum of a tally are one pattern, used for the canonical
slots and for every blockVotes alike: a slot array, the bit array of its
filled slots and the total power of those slots agree.  The three ways the
code writes such a tally (fill an empty slot, overwrite a filled one, copy a
second tally over it) each keep the agreement.
-/

section Tally

variable {α : Type _}

/--
A slot array kept with the bit array of its filled slots and the running sum
of their weights.
-/
structure Tally
    (weight : Nat → Int)
    (size : Nat)
    (bitArray : Option BitArray)
    (slots : List (Option α))
    (sum : Int) : Prop where
  slotsLength : slots.length = size
  bitArrayWellFormed : BitArray.WellFormedOpt bitArray
  bitsMatch : BitArray.bitsOf bitArray = SlotArray.occupancy slots
  sumMatches : sum = SlotArray.occupiedWeight weight slots

namespace Tally

variable {weight : Nat → Int} {size : Nat} {bitArray updated : Option BitArray}
  {slots : List (Option α)} {sum : Int} {index : Nat}

/-- A fresh array of empty slots, with a fresh bit array and a zero sum. -/
theorem empty
    (weight : Nat → Int)
    (size : Nat) :
    Tally weight size (BitArray.newBitArray size) (List.replicate size (none : Option α)) 0 where
  slotsLength := by simp
  bitArrayWellFormed := (BitArray.newBitArray_bitsOf size).1
  bitsMatch := by
    rw [(BitArray.newBitArray_bitsOf size).2]
    simp [SlotArray.occupancy]
  sumMatches := by simp [SlotArray.occupiedWeight]

/-- Setting the bit of a slot succeeds and sets that bit of the occupancy. -/
theorem setIndexOpt_ok
    (tally : Tally weight size bitArray slots sum)
    (inRange : index < size) :
    ∃ written, BitArray.setIndexOpt bitArray index true = .ok written := by
  obtain ⟨written, setOk, -⟩ :=
    BitArray.setIndexOpt_of_wellFormedOpt tally.bitArrayWellFormed
      (by simpa [tally.bitsMatch, tally.slotsLength] using inRange) true
  exact ⟨written, setOk⟩

/-- The bit array after setting the bit of a slot below the size. -/
theorem setIndexOpt_bits
    (tally : Tally weight size bitArray slots sum)
    (inRange : index < slots.length)
    (written : BitArray.setIndexOpt bitArray index true = .ok updated) :
    BitArray.WellFormedOpt updated ∧
      BitArray.bitsOf updated = (SlotArray.occupancy slots).set index true := by
  obtain ⟨result, resultWritten, wellFormed, bits⟩ :=
    BitArray.setIndexOpt_of_wellFormedOpt tally.bitArrayWellFormed
      (by simpa [tally.bitsMatch] using inRange) true
  rw [written, Except.ok.injEq] at resultWritten
  subst result
  exact ⟨wellFormed, by rw [bits, tally.bitsMatch]⟩

/-- Filling an empty slot sets its bit and adds its weight. -/
theorem fill
    (tally : Tally weight size bitArray slots sum)
    (empty : slots[index]? = some none)
    (written : BitArray.setIndexOpt bitArray index true = .ok updated)
    (entry : α) :
    Tally weight size updated (slots.set index (some entry)) (sum + weight index) := by
  have inRange : index < slots.length := (List.getElem?_eq_some_iff.mp empty).1
  obtain ⟨wellFormed, bits⟩ := tally.setIndexOpt_bits inRange written
  refine ⟨by simp [tally.slotsLength], wellFormed, ?_, ?_⟩
  · rw [bits, SlotArray.occupancy_set_of_none]
  · rw [tally.sumMatches, SlotArray.occupiedWeight, SlotArray.occupiedWeight,
      SlotArray.occupiedWeightFrom_set_of_none weight empty entry 0, Nat.zero_add]

/-- Overwriting a filled slot keeps its bit and the sum. -/
theorem overwrite
    (tally : Tally weight size bitArray slots sum)
    (filled : (slots[index]?.bind id).isSome)
    (written : BitArray.setIndexOpt bitArray index true = .ok updated)
    (entry : α) :
    Tally weight size updated (slots.set index (some entry)) sum := by
  obtain ⟨wellFormed, bits⟩ :=
    tally.setIndexOpt_bits (SlotArray.lt_length_of_isSome filled) written
  have sameOccupancy :
      SlotArray.occupancy (slots.set index (some entry)) = SlotArray.occupancy slots :=
    SlotArray.occupancy_set_of_isSome filled
  refine ⟨by simp [tally.slotsLength], wellFormed, ?_, ?_⟩
  · rw [bits, SlotArray.occupancy_set_of_none]
  · rw [tally.sumMatches]
    exact (SlotArray.occupiedWeightFrom_eq_of_occupancy_eq weight sameOccupancy 0).symm

/-- Laying a tally whose filled slots are filled here keeps bits and sum. -/
theorem overlay
    (tally : Tally weight size bitArray slots sum)
    {layer : List (Option α)}
    (covered :
      ∀ (index : Nat) (entry : α),
        layer[index]? = some (some entry) →
        (slots[index]?.bind id).isSome) :
    Tally weight size bitArray (SlotArray.overlay slots layer) sum := by
  have sameOccupancy := SlotArray.occupancy_overlay_of_subset covered
  refine ⟨by simp [tally.slotsLength], tally.bitArrayWellFormed, ?_, ?_⟩
  · rw [sameOccupancy, tally.bitsMatch]
  · rw [tally.sumMatches]
    exact (SlotArray.occupiedWeightFrom_eq_of_occupancy_eq weight sameOccupancy 0).symm

end Tally

end Tally

/-- Reading a slot succeeds exactly below the end of the slice. -/
@[simp] theorem lookupSlot_eq_ok
    {slots : List (Option Vote)}
    {index : Nat}
    {slot : Option Vote} :
    lookupSlot slots index = .ok slot ↔ slots[index]? = some slot := by
  unfold lookupSlot
  cases slots[index]? with
  | none =>
      simp
  | some found =>
      simp

namespace BlockVotes

variable {blockVotes added : BlockVotes} {vote : Vote} {votingPower : Int}

/--
What blockVotes.addVerifiedVote can do: keep a filled slot, or fill an empty
one, set its bit and add the power.
-/
theorem addVerifiedVote_eq_ok
    (addedOk : blockVotes.addVerifiedVote vote votingPower = .ok added) :
    ((blockVotes.votes[vote.validatorIndex]?.bind id).isSome ∧ added = blockVotes) ∨
      (blockVotes.votes[vote.validatorIndex]? = some none ∧
        ∃ bitArray,
          BitArray.setIndexOpt blockVotes.bitArray vote.validatorIndex true = .ok bitArray ∧
          added = { blockVotes with
            bitArray := bitArray
            votes := blockVotes.votes.set vote.validatorIndex (some vote)
            sum := blockVotes.sum + votingPower }) := by
  unfold addVerifiedVote at addedOk
  obtain ⟨slot, lookedUp, updated⟩ := Runs.bind_eq_ok addedOk
  rw [lookupSlot_eq_ok] at lookedUp
  cases slot with
  | some existing =>
      left
      cases updated
      exact ⟨by simp [lookedUp], rfl⟩
  | none =>
      right
      obtain ⟨bitArray, written, stored⟩ := Runs.bind_eq_ok updated
      cases stored
      exact ⟨lookedUp, bitArray, written, rfl⟩

end BlockVotes

namespace VoteSet

variable {scheme : SignatureScheme} {voteSet recorded tallied updated : VoteSet}
  {vote : Vote} {blockKey : BlockKey} {votingPower : Int}
  {conflicting : Option Vote} {blockVotes : BlockVotes}

/--
What the first block of addVerifiedVote can do: fill the validator's empty
slot, or, when the slot holds another vote, overwrite it for the maj23 key
or leave the set alone; the vote already in the slot is the conflict.
-/
theorem recordVote_eq_ok
    (recordedOk : voteSet.recordVote vote blockKey votingPower = .ok (recorded, conflicting)) :
    (voteSet.votes[vote.validatorIndex]? = some none ∧ conflicting = none ∧
      ∃ bitArray,
        BitArray.setIndexOpt voteSet.votesBitArray vote.validatorIndex true = .ok bitArray ∧
        recorded = { voteSet with
          votes := voteSet.votes.set vote.validatorIndex (some vote)
          votesBitArray := bitArray
          sum := voteSet.sum + votingPower }) ∨
    (∃ existing,
      voteSet.votes[vote.validatorIndex]? = some (some existing) ∧
      conflicting = some existing ∧
      ((∃ bitArray,
          BitArray.setIndexOpt voteSet.votesBitArray vote.validatorIndex true = .ok bitArray ∧
          recorded = { voteSet with
            votes := voteSet.votes.set vote.validatorIndex (some vote)
            votesBitArray := bitArray }) ∨
        recorded = voteSet)) := by
  unfold recordVote at recordedOk
  obtain ⟨slot, lookedUp, stored⟩ := Runs.bind_eq_ok recordedOk
  rw [lookupSlot_eq_ok] at lookedUp
  cases slot with
  | none =>
      left
      obtain ⟨bitArray, written, done⟩ := Runs.bind_eq_ok stored
      cases done
      exact ⟨lookedUp, rfl, bitArray, written, rfl⟩
  | some existing =>
      right
      refine ⟨existing, lookedUp, ?_⟩
      dsimp only at stored
      -- a duplicate panics; otherwise the maj23 key decides the overwrite
      split at stored
      · cases stored
      · split at stored
        · obtain ⟨bitArray, written, done⟩ := Runs.bind_eq_ok stored
          cases done
          exact ⟨rfl, .inl ⟨bitArray, written, rfl⟩⟩
        · cases stored
          exact ⟨rfl, .inr rfl⟩

/--
What the last block of addVerifiedVote can do: store the tally with the vote
added, and on the first crossing of the quorum also set maj23 and copy the
tally over the slots.
-/
theorem tallyVote_eq_ok
    (talliedOk : voteSet.tallyVote vote blockKey votingPower blockVotes = .ok tallied) :
    ∃ added,
      blockVotes.addVerifiedVote vote votingPower = .ok added ∧
      ((blockVotes.sum < voteSet.quorum ∧ voteSet.quorum ≤ added.sum ∧
          voteSet.maj23 = none ∧
          tallied = { voteSet with
            votesByBlock := Function.update voteSet.votesByBlock blockKey (some added)
            maj23 := some vote.blockID
            votes := SlotArray.overlay voteSet.votes added.votes }) ∨
        (¬ (blockVotes.sum < voteSet.quorum ∧ voteSet.quorum ≤ added.sum ∧
            voteSet.maj23 = none) ∧
          tallied = { voteSet with
            votesByBlock := Function.update voteSet.votesByBlock blockKey (some added) })) := by
  unfold tallyVote at talliedOk
  obtain ⟨added, addedOk, stored⟩ := Runs.bind_eq_ok talliedOk
  refine ⟨added, addedOk, ?_⟩
  split at stored
  next crossing =>
    cases stored
    exact .inl ⟨crossing.1, crossing.2.1, crossing.2.2, rfl⟩
  next notCrossing =>
    cases stored
    exact .inr ⟨notCrossing, rfl⟩

/-- What addVerifiedVote can do: record the vote, then tally it or not. -/
theorem addVerifiedVote_eq_ok
    {added : Bool}
    (updatedOk :
      voteSet.addVerifiedVote vote blockKey votingPower = .ok (updated, added, conflicting)) :
    ∃ recorded,
      voteSet.recordVote vote blockKey votingPower = .ok (recorded, conflicting) ∧
      ((trackedBlockVotes recorded blockKey conflicting = none ∧
          updated = recorded ∧ added = false) ∨
        (∃ blockVotes,
          trackedBlockVotes recorded blockKey conflicting = some blockVotes ∧
          recorded.tallyVote vote blockKey votingPower blockVotes = .ok updated ∧
          added = true)) := by
  unfold addVerifiedVote at updatedOk
  obtain ⟨⟨recorded, recordedConflict⟩, recordedOk, stored⟩ := Runs.bind_eq_ok updatedOk
  dsimp only at stored
  cases tracked : trackedBlockVotes recorded blockKey recordedConflict with
  | none =>
      rw [tracked] at stored
      cases stored
      exact ⟨_, recordedOk, .inl ⟨tracked, rfl, rfl⟩⟩
  | some blockVotes =>
      rw [tracked] at stored
      obtain ⟨tallied, talliedOk, done⟩ := Runs.bind_eq_ok stored
      cases done
      exact ⟨_, recordedOk, .inr ⟨blockVotes, tracked, talliedOk, rfl⟩⟩

/--
What addVote can do: return the set unchanged (every rejection, a known vote
and a failed signature), or pass a vote of this step, from the validator at
its index and signed by it, to addVerifiedVote with the validator's power,
reporting the conflict it meets.
-/
theorem addVote_eq_ok
    {added : Bool}
    {voteError : Option VoteError}
    (addedOk : voteSet.addVote scheme vote = .ok (updated, added, voteError)) :
    updated = voteSet ∨
      ∃ val conflict,
        vote.height = voteSet.height ∧ vote.round = voteSet.round ∧
        vote.type = voteSet.signedMsgType ∧
        voteSet.valSet.getByIndex vote.validatorIndex = some (vote.validatorAddress, val) ∧
        vote.verify scheme voteSet.chainID val.address = .ok () ∧
        voteSet.addVerifiedVote vote vote.blockID.key val.votingPower =
          .ok (updated, added, conflict) ∧
        voteError = conflict.map fun conflictingVote => .conflictingVotes conflictingVote vote := by
  unfold addVote at addedOk
  dsimp only at addedOk
  split at addedOk
  · cases addedOk
    exact .inl rfl
  split at addedOk
  · cases addedOk
    exact .inl rfl
  rename_i sameStep
  simp only [not_or, not_not] at sameStep
  obtain ⟨sameHeight, sameRound, sameType⟩ := sameStep
  split at addedOk
  · cases addedOk
    exact .inl rfl
  rename_i lookupAddr val found
  split at addedOk
  · cases addedOk
    exact .inl rfl
  rename_i sameAddress
  rw [not_not] at sameAddress
  subst sameAddress
  obtain ⟨known, -, checked⟩ := Runs.bind_eq_ok addedOk
  split at checked
  · -- a known vote, with the same signature or not, changes nothing
    split at checked <;>
    · cases checked
      exact .inl rfl
  split at checked
  · cases checked
    exact .inl rfl
  rename_i verified
  obtain ⟨⟨verifiedSet, verifiedAdded, conflict⟩, verifiedOk, reported⟩ :=
    Runs.bind_eq_ok checked
  refine .inr ⟨val, conflict, sameHeight, sameRound, sameType, found, verified, ?_⟩
  dsimp only at reported
  split at reported
  · cases reported
    exact ⟨verifiedOk, rfl⟩
  · split at reported
    · rename_i wasAdded
      subst wasAdded
      cases reported
      exact ⟨verifiedOk, rfl⟩
    · cases reported

/-- The first block of addVerifiedVote keeps the validators, maj23 and tallies. -/
theorem recordVote_frame
    (recordedOk : voteSet.recordVote vote blockKey votingPower = .ok (recorded, conflicting)) :
    recorded.valSet = voteSet.valSet ∧ recorded.maj23 = voteSet.maj23 ∧
      recorded.votesByBlock = voteSet.votesByBlock := by
  rcases recordVote_eq_ok recordedOk with
    ⟨-, -, -, -, rfl⟩ | ⟨-, -, -, ⟨-, -, rfl⟩ | rfl⟩ <;>
  exact ⟨rfl, rfl, rfl⟩

/--
What SetPeerMaj23 does to the tallies: each key keeps its tally, has it
marked as claimed, or gets a fresh claimed tally where it had none.  The
slots, bits, sum and maj23 are not touched.
-/
theorem setPeerMaj23_eq
    (voteSet : VoteSet)
    (peerID : PeerID)
    (blockID : BlockID) :
    ∃ peerMaj23s votesByBlock,
      (voteSet.setPeerMaj23 peerID blockID).1 =
        { voteSet with peerMaj23s := peerMaj23s, votesByBlock := votesByBlock } ∧
      ∀ blockKey,
        votesByBlock blockKey = voteSet.votesByBlock blockKey ∨
        (∃ tracked,
          voteSet.votesByBlock blockKey = some tracked ∧
          votesByBlock blockKey = some { tracked with peerMaj23 := true }) ∨
        (voteSet.votesByBlock blockKey = none ∧
          votesByBlock blockKey =
            some (BlockVotes.newBlockVotes true voteSet.valSet.size)) := by
  unfold setPeerMaj23
  dsimp only
  split
  · -- a repeated or a conflicting claim changes nothing
    split <;>
    exact ⟨voteSet.peerMaj23s, voteSet.votesByBlock, rfl, fun _ => .inl rfl⟩
  · split
    · rename_i tracked trackedAt
      split
      · exact ⟨_, voteSet.votesByBlock, rfl, fun _ => .inl rfl⟩
      · refine ⟨_, _, rfl, fun blockKey => ?_⟩
        by_cases sameKey : blockKey = blockID.key
        · subst sameKey
          exact .inr (.inl ⟨tracked, trackedAt, by simp⟩)
        · exact .inl (by simp [sameKey])
    · rename_i untracked
      refine ⟨_, _, rfl, fun blockKey => ?_⟩
      by_cases sameKey : blockKey = blockID.key
      · subst sameKey
        exact .inr (.inr ⟨untracked, by simp⟩)
      · exact .inl (by simp [sameKey])

/-! ## The invariant -/

/-- What a vote set keeps true of the tally of one block key. -/
structure BlockVotesInvariant
    (voteSet : VoteSet)
    (blockKey : BlockKey)
    (blockVotes : BlockVotes) : Prop where
  tally :
    Tally voteSet.valSet.powerAt voteSet.valSet.size
      blockVotes.bitArray blockVotes.votes blockVotes.sum
  votesForKey :
    ∀ (index : Nat) (vote : Vote),
      blockVotes.votes[index]? = some (some vote) → vote.blockID.key = blockKey
  votesRecorded :
    ∀ (index : Nat) (vote : Vote),
      blockVotes.votes[index]? = some (some vote) →
      (voteSet.votes[index]?.bind id).isSome

/--
The representation invariant of a vote set: the canonical slots agree with
their bits and sum, every tally agrees with its own and holds only votes for
its key from validators with a filled slot, and maj23 names a key whose
tally reached the quorum.
-/
structure Invariant (voteSet : VoteSet) : Prop where
  powersNonneg : ∀ index, 0 ≤ voteSet.valSet.powerAt index
  tally :
    Tally voteSet.valSet.powerAt voteSet.valSet.size
      voteSet.votesBitArray voteSet.votes voteSet.sum
  tracked :
    ∀ blockKey blockVotes,
      voteSet.votesByBlock blockKey = some blockVotes →
      BlockVotesInvariant voteSet blockKey blockVotes
  maj23Quorum :
    ∀ maj23,
      voteSet.maj23 = some maj23 →
      ∃ blockVotes,
        voteSet.votesByBlock maj23.key = some blockVotes ∧
        voteSet.quorum ≤ blockVotes.sum

namespace BlockVotesInvariant

/-- A fresh tally, claimed by a peer or not. -/
theorem newBlockVotes
    (voteSet : VoteSet)
    (blockKey : BlockKey)
    (peerMaj23 : Bool) :
    BlockVotesInvariant voteSet blockKey
      (BlockVotes.newBlockVotes peerMaj23 voteSet.valSet.size) where
  tally := Tally.empty _ _
  votesForKey := by
    intro index vote stored
    simp [BlockVotes.newBlockVotes, List.getElem?_replicate] at stored
  votesRecorded := by
    intro index vote stored
    simp [BlockVotes.newBlockVotes, List.getElem?_replicate] at stored

/-- Marking a tally as claimed by a peer keeps its invariant. -/
theorem withPeerMaj23
    (blockVotesInv : BlockVotesInvariant voteSet blockKey blockVotes)
    (peerMaj23 : Bool) :
    BlockVotesInvariant voteSet blockKey { blockVotes with peerMaj23 := peerMaj23 } :=
  ⟨blockVotesInv.tally, blockVotesInv.votesForKey, blockVotesInv.votesRecorded⟩

/--
A tally keeps its invariant when the vote set keeps its validators and
empties no slot.
-/
theorem mono
    (blockVotesInv : BlockVotesInvariant voteSet blockKey blockVotes)
    {next : VoteSet}
    (sameValSet : next.valSet = voteSet.valSet)
    (filledStay :
      ∀ (index : Nat),
        (voteSet.votes[index]?.bind id).isSome →
        (next.votes[index]?.bind id).isSome) :
    BlockVotesInvariant next blockKey blockVotes where
  tally := by
    rw [sameValSet]
    exact blockVotesInv.tally
  votesForKey := blockVotesInv.votesForKey
  votesRecorded := fun index vote stored =>
    filledStay index (blockVotesInv.votesRecorded index vote stored)

/--
Adding a vote for the key from a validator whose slot is filled keeps the
invariant, and with no negative power the sum does not drop.
-/
theorem addVerifiedVote
    {added : BlockVotes}
    (blockVotesInv : BlockVotesInvariant voteSet blockKey blockVotes)
    (powersNonneg : ∀ index, 0 ≤ voteSet.valSet.powerAt index)
    (forKey : vote.blockID.key = blockKey)
    (recorded : (voteSet.votes[vote.validatorIndex]?.bind id).isSome)
    (power : votingPower = voteSet.valSet.powerAt vote.validatorIndex)
    (addedOk : blockVotes.addVerifiedVote vote votingPower = .ok added) :
    BlockVotesInvariant voteSet blockKey added ∧ blockVotes.sum ≤ added.sum := by
  rcases BlockVotes.addVerifiedVote_eq_ok addedOk with
    ⟨-, rfl⟩ | ⟨empty, bitArray, written, rfl⟩
  · exact ⟨blockVotesInv, le_refl _⟩
  refine ⟨⟨?_, ?_, ?_⟩, ?_⟩
  · rw [power]
    exact blockVotesInv.tally.fill empty written vote
  · intro index stored storedAt
    rcases SlotArray.eq_or_getElem?_of_set storedAt with ⟨-, rfl⟩ | before
    · exact forKey
    · exact blockVotesInv.votesForKey index stored before
  · intro index stored storedAt
    rcases SlotArray.eq_or_getElem?_of_set storedAt with ⟨rfl, -⟩ | before
    · exact recorded
    · exact blockVotesInv.votesRecorded index stored before
  · have nonneg := powersNonneg vote.validatorIndex
    dsimp only
    omega

end BlockVotesInvariant

namespace Invariant

/-- A fresh vote set of validators without negative power. -/
theorem newVoteSet
    {chainID : String}
    {height round : Nat}
    {signedMsgType : SignedMsgType}
    {valSet : ValidatorSet}
    {fresh : VoteSet}
    (powersNonneg : ∀ val ∈ valSet.validators, 0 ≤ val.votingPower)
    (created : VoteSet.newVoteSet chainID height round signedMsgType valSet = .ok fresh) :
    Invariant fresh := by
  unfold VoteSet.newVoteSet at created
  split at created
  · cases created
  cases created
  exact
    { powersNonneg := ValidatorSet.powerAt_nonneg powersNonneg
      tally := Tally.empty _ _
      tracked := fun _ _ stored => by cases stored
      maj23Quorum := fun _ stored => by cases stored }

/--
The first block of addVerifiedVote keeps the invariant and leaves the
validator's slot filled.
-/
theorem recordVote
    (voteSetInv : Invariant voteSet)
    (power : votingPower = voteSet.valSet.powerAt vote.validatorIndex)
    (recordedOk :
      voteSet.recordVote vote blockKey votingPower = .ok (recorded, conflicting)) :
    Invariant recorded ∧ (recorded.votes[vote.validatorIndex]?.bind id).isSome := by
  have filledStay :
      ∀ (index : Nat),
        (voteSet.votes[index]?.bind id).isSome →
        ((voteSet.votes.set vote.validatorIndex (some vote))[index]?.bind id).isSome :=
    fun index filled => SlotArray.isSome_set_of_isSome filled _ _
  rcases recordVote_eq_ok recordedOk with
    ⟨empty, -, bitArray, written, rfl⟩ |
      ⟨existing, filledAt, -, ⟨bitArray, written, rfl⟩ | rfl⟩
  · -- the validator's first vote fills its slot
    refine ⟨⟨voteSetInv.powersNonneg, ?_, ?_, voteSetInv.maj23Quorum⟩, ?_⟩
    · rw [power]
      exact voteSetInv.tally.fill empty written vote
    · exact fun blockKey blockVotes stored =>
        (voteSetInv.tracked blockKey blockVotes stored).mono rfl filledStay
    · simp [(List.getElem?_eq_some_iff.mp empty).1]
  · -- a conflicting vote for the maj23 key replaces the filled slot
    have filled : (voteSet.votes[vote.validatorIndex]?.bind id).isSome := by
      simp [filledAt]
    refine ⟨⟨voteSetInv.powersNonneg, ?_, ?_, voteSetInv.maj23Quorum⟩, filledStay _ filled⟩
    · exact voteSetInv.tally.overwrite filled written vote
    · exact fun blockKey blockVotes stored =>
        (voteSetInv.tracked blockKey blockVotes stored).mono rfl filledStay
  · exact ⟨voteSetInv, by simp [filledAt]⟩

/--
Storing a tally that keeps its invariant, and that keeps the quorum when it
is the tally of maj23, keeps the invariant.
-/
theorem storeTally
    {added : BlockVotes}
    (voteSetInv : Invariant voteSet)
    (addedInv : BlockVotesInvariant voteSet blockKey added)
    (keepsQuorum :
      ∀ maj23,
        voteSet.maj23 = some maj23 →
        maj23.key = blockKey →
        voteSet.quorum ≤ added.sum) :
    Invariant { voteSet with
      votesByBlock := Function.update voteSet.votesByBlock blockKey (some added) } where
  powersNonneg := voteSetInv.powersNonneg
  tally := voteSetInv.tally
  tracked := by
    intro otherKey blockVotes stored
    dsimp only at stored
    by_cases sameKey : otherKey = blockKey
    · subst sameKey
      simp only [Function.update_self, Option.some.injEq] at stored
      subst stored
      exact addedInv.mono rfl fun _ filled => filled
    · rw [Function.update_of_ne sameKey] at stored
      exact (voteSetInv.tracked otherKey blockVotes stored).mono rfl fun _ filled => filled
  maj23Quorum := by
    intro maj23 hasMaj23
    by_cases sameKey : maj23.key = blockKey
    · exact ⟨added, by simp [sameKey], keepsQuorum maj23 hasMaj23 sameKey⟩
    · obtain ⟨blockVotes, stored, reached⟩ := voteSetInv.maj23Quorum maj23 hasMaj23
      refine ⟨blockVotes, ?_, reached⟩
      dsimp only
      rw [Function.update_of_ne sameKey]
      exact stored

/--
Naming a key whose stored tally reached the quorum as maj23, and copying
that tally over the slots, keeps the invariant: the copied votes are in
filled slots, so the slots' bits and sum do not change.
-/
theorem copyMaj23
    {maj23 : BlockID}
    {added : BlockVotes}
    (voteSetInv : Invariant voteSet)
    (stored : voteSet.votesByBlock maj23.key = some added)
    (reached : voteSet.quorum ≤ added.sum) :
    Invariant { voteSet with
      maj23 := some maj23
      votes := SlotArray.overlay voteSet.votes added.votes } := by
  have covered := (voteSetInv.tracked _ _ stored).votesRecorded
  have sameOccupancy := SlotArray.occupancy_overlay_of_subset covered
  refine ⟨voteSetInv.powersNonneg, voteSetInv.tally.overlay covered, ?_, ?_⟩
  · intro blockKey blockVotes storedAt
    refine (voteSetInv.tracked blockKey blockVotes storedAt).mono rfl fun index filled => ?_
    rw [SlotArray.isSome_iff_of_occupancy_eq sameOccupancy]
    exact filled
  · intro named namedNow
    cases namedNow
    exact ⟨added, stored, reached⟩

/-- The tally addVerifiedVote picks keeps its invariant and is the stored one. -/
theorem trackedBlockVotes
    (voteSetInv : Invariant voteSet)
    (tracked : VoteSet.trackedBlockVotes voteSet blockKey conflicting = some blockVotes) :
    BlockVotesInvariant voteSet blockKey blockVotes ∧
      ∀ stored, voteSet.votesByBlock blockKey = some stored → stored = blockVotes := by
  unfold VoteSet.trackedBlockVotes at tracked
  split at tracked
  · rename_i stored storedAt
    split at tracked
    · cases tracked
    · cases tracked
      refine ⟨voteSetInv.tracked _ _ storedAt, fun other otherAt => ?_⟩
      rw [storedAt, Option.some.injEq] at otherAt
      exact otherAt.symm
  · rename_i untracked
    split at tracked
    · cases tracked
    · cases tracked
      refine ⟨BlockVotesInvariant.newBlockVotes _ _ _, fun other otherAt => ?_⟩
      rw [untracked] at otherAt
      cases otherAt

/-- The last block of addVerifiedVote keeps the invariant. -/
theorem tallyVote
    (voteSetInv : Invariant voteSet)
    (blockVotesInv : BlockVotesInvariant voteSet blockKey blockVotes)
    (fromStore : ∀ stored, voteSet.votesByBlock blockKey = some stored → stored = blockVotes)
    (forKey : vote.blockID.key = blockKey)
    (recorded : (voteSet.votes[vote.validatorIndex]?.bind id).isSome)
    (power : votingPower = voteSet.valSet.powerAt vote.validatorIndex)
    (talliedOk : voteSet.tallyVote vote blockKey votingPower blockVotes = .ok tallied) :
    Invariant tallied := by
  obtain ⟨added, addedOk, branches⟩ := tallyVote_eq_ok talliedOk
  obtain ⟨addedInv, grew⟩ :=
    blockVotesInv.addVerifiedVote voteSetInv.powersNonneg forKey recorded power addedOk
  -- the tally of maj23, if this is it, only grows past the quorum it reached
  have storedInv := voteSetInv.storeTally addedInv fun maj23 hasMaj23 sameKey => by
    obtain ⟨before, beforeAt, beforeQuorum⟩ := voteSetInv.maj23Quorum maj23 hasMaj23
    rw [sameKey] at beforeAt
    rw [fromStore before beforeAt] at beforeQuorum
    exact le_trans beforeQuorum grew
  rcases branches with ⟨-, reached, -, rfl⟩ | ⟨-, rfl⟩
  · have storedAt :
        Function.update voteSet.votesByBlock blockKey (some added) vote.blockID.key =
          some added := by
      simp [forKey]
    exact storedInv.copyMaj23 storedAt reached
  · exact storedInv

/-- addVerifiedVote with the validator's power keeps the invariant. -/
theorem addVerifiedVote
    {added : Bool}
    (voteSetInv : Invariant voteSet)
    (power : votingPower = voteSet.valSet.powerAt vote.validatorIndex)
    (updatedOk :
      voteSet.addVerifiedVote vote vote.blockID.key votingPower =
        .ok (updated, added, conflicting)) :
    Invariant updated := by
  obtain ⟨recorded, recordedOk, branches⟩ := addVerifiedVote_eq_ok updatedOk
  obtain ⟨recordedInv, filled⟩ := voteSetInv.recordVote power recordedOk
  have samePower : votingPower = recorded.valSet.powerAt vote.validatorIndex := by
    rw [(recordVote_frame recordedOk).1]
    exact power
  rcases branches with ⟨-, rfl, -⟩ | ⟨blockVotes, tracked, talliedOk, -⟩
  · exact recordedInv
  · obtain ⟨blockVotesInv, fromStore⟩ := recordedInv.trackedBlockVotes tracked
    exact recordedInv.tallyVote blockVotesInv fromStore rfl filled samePower talliedOk

/-- AddVote keeps the invariant. -/
theorem addVote
    {added : Bool}
    {voteError : Option VoteError}
    (voteSetInv : Invariant voteSet)
    (addedOk : voteSet.addVote scheme vote = .ok (updated, added, voteError)) :
    Invariant updated := by
  rcases addVote_eq_ok addedOk with rfl | ⟨val, conflict, -, -, -, found, -, verifiedOk, -⟩
  · exact voteSetInv
  · exact voteSetInv.addVerifiedVote (ValidatorSet.powerAt_of_getByIndex found).symm verifiedOk

/-- SetPeerMaj23 keeps the invariant. -/
theorem setPeerMaj23
    (voteSetInv : Invariant voteSet)
    (peerID : PeerID)
    (blockID : BlockID) :
    Invariant (voteSet.setPeerMaj23 peerID blockID).1 := by
  obtain ⟨peerMaj23s, votesByBlock, claimed, perKey⟩ := setPeerMaj23_eq voteSet peerID blockID
  rw [claimed]
  refine ⟨voteSetInv.powersNonneg, voteSetInv.tally, ?_, ?_⟩
  · intro blockKey blockVotes stored
    dsimp only at stored
    rcases perKey blockKey with same | ⟨tracked, trackedAt, marked⟩ | ⟨-, fresh⟩
    · rw [same] at stored
      exact (voteSetInv.tracked _ _ stored).mono rfl fun _ filled => filled
    · rw [marked, Option.some.injEq] at stored
      subst stored
      exact ((voteSetInv.tracked _ _ trackedAt).withPeerMaj23 true).mono rfl
        fun _ filled => filled
    · rw [fresh, Option.some.injEq] at stored
      subst stored
      exact BlockVotesInvariant.newBlockVotes _ _ _
  · intro maj23 hasMaj23
    obtain ⟨blockVotes, stored, reached⟩ := voteSetInv.maj23Quorum maj23 hasMaj23
    rcases perKey maj23.key with same | ⟨tracked, trackedAt, marked⟩ | ⟨untracked, -⟩
    · exact ⟨blockVotes, same.trans stored, reached⟩
    · rw [stored, Option.some.injEq] at trackedAt
      subst trackedAt
      exact ⟨_, marked, reached⟩
    · rw [stored] at untracked
      cases untracked

end Invariant

/-! ## maj23 and rejected votes -/

/-- The last block of addVerifiedVote never changes a maj23 already set. -/
theorem tallyVote_maj23
    {maj23 : BlockID}
    (talliedOk : voteSet.tallyVote vote blockKey votingPower blockVotes = .ok tallied)
    (hasMaj23 : voteSet.maj23 = some maj23) :
    tallied.maj23 = some maj23 := by
  obtain ⟨added, -, branches⟩ := tallyVote_eq_ok talliedOk
  rcases branches with ⟨-, -, noMaj23, -⟩ | ⟨-, rfl⟩
  · rw [hasMaj23] at noMaj23
    cases noMaj23
  · exact hasMaj23

/-- AddVote never changes a maj23 already set. -/
theorem addVote_maj23
    {maj23 : BlockID}
    {added : Bool}
    {voteError : Option VoteError}
    (addedOk : voteSet.addVote scheme vote = .ok (updated, added, voteError))
    (hasMaj23 : voteSet.maj23 = some maj23) :
    updated.maj23 = some maj23 := by
  rcases addVote_eq_ok addedOk with rfl | ⟨val, conflict, -, -, -, -, -, verifiedOk, -⟩
  · exact hasMaj23
  obtain ⟨recorded, recordedOk, branches⟩ := addVerifiedVote_eq_ok verifiedOk
  have recordedMaj23 : recorded.maj23 = some maj23 := by
    rw [(recordVote_frame recordedOk).2.1]
    exact hasMaj23
  rcases branches with ⟨-, rfl, -⟩ | ⟨blockVotes, -, talliedOk, -⟩
  · exact recordedMaj23
  · exact tallyVote_maj23 talliedOk recordedMaj23

end VoteSet

/-! ## Runs of calls -/

/-- A call the consensus code makes on a vote set. -/
inductive VoteSetCall where
  | addVote (vote : Vote)
  | setPeerMaj23 (peerID : PeerID) (blockID : BlockID)

namespace VoteSet

variable {scheme : SignatureScheme} {voteSet next final : VoteSet}

/--
One call: AddVote, whose panic ends the run, or SetPeerMaj23.  The calls
hold the vote set's mutex, so a run is a sequence of whole calls.
-/
def call (scheme : SignatureScheme) (voteSet : VoteSet) : VoteSetCall → Except String VoteSet
  | .addVote vote => (voteSet.addVote scheme vote).map Prod.fst
  | .setPeerMaj23 peerID blockID => .ok (voteSet.setPeerMaj23 peerID blockID).1

/-- What a call can do: an AddVote that returns, or a SetPeerMaj23. -/
theorem call_eq_ok
    {input : VoteSetCall}
    (stepped : voteSet.call scheme input = .ok next) :
    (∃ vote added voteError, voteSet.addVote scheme vote = .ok (next, added, voteError)) ∨
      ∃ peerID blockID, next = (voteSet.setPeerMaj23 peerID blockID).1 := by
  cases input with
  | addVote vote =>
      obtain ⟨⟨updated, added, voteError⟩, addedOk, rfl⟩ := Runs.map_eq_ok stepped
      exact .inl ⟨vote, added, voteError, addedOk⟩
  | setPeerMaj23 peerID blockID =>
      cases stepped
      exact .inr ⟨peerID, blockID, rfl⟩

/-- Every call keeps the invariant. -/
theorem Invariant.call
    {input : VoteSetCall}
    (voteSetInv : Invariant voteSet)
    (stepped : voteSet.call scheme input = .ok next) :
    Invariant next := by
  rcases call_eq_ok stepped with ⟨vote, added, voteError, addedOk⟩ | ⟨peerID, blockID, rfl⟩
  · exact voteSetInv.addVote addedOk
  · exact voteSetInv.setPeerMaj23 peerID blockID

end VoteSet

end Kardia
