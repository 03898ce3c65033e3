import Kardia.ConsensusSteps

namespace Kardia

/-!
# The invariant of a consensus node

What holds of a node in every state it reaches, and why the round steps keep
it.  The invariant has two parts.

The signing part: the sign log is strictly increasing when each record is
placed at the (height, round, step) its signing leads to, and no record is
ahead of the node; every timeout scheduled is for a round the node has
reached; the node's height is the one after its state's last block.  A node
signs only from a step before the one the signature leads to, so it signs
each vote type at most once per height and round.

The locking part: a locked block and a valid block each have +2/3 prevotes
for their hash in their round, and that round is one the node has reached.
It rests on HeightVoteSet.Keeps: no operation on the votes loses a majority.

The leaf updates of the state each get one lemma here, and each round step
(enterNewRound to enterPrecommitWait) one lemma that it keeps the invariant
and does not move the node back.  The commit path and the handling of inputs
follow in Kardia.ConsensusSafety.
-/

namespace ConsensusState

variable {env : Environment}

/-- +2/3 of the prevotes of a round are for the hash of a block: a polka for it. -/
def Polka (env : Environment) (votes : HeightVoteSet) (round : Nat) (block : Block) : Prop :=
  ∃ blockID, VoteSet.majorityOf (votes.prevotes round) = (blockID, true) ∧
    hashesTo env (some block) blockID.hash = true

/-- A polka stays a polka under every operation that keeps the vote sets. -/
theorem Polka.keeps
    {votes votes' : HeightVoteSet}
    {round : Nat}
    {block : Block}
    (polka : Polka env votes round block)
    (kept : votes.Keeps votes') :
    Polka env votes' round block := by
  obtain ⟨blockID, majority, hashes⟩ := polka
  exact ⟨blockID, kept.majorityOf majority, hashes⟩

/-- The invariant of a consensus node. -/
structure Invariant (env : Environment) (cs : ConsensusState) : Prop where
  height_eq : cs.height = cs.state.nextHeight
  round_pos : 1 ≤ cs.round
  signLog_sorted : (cs.signLog.map SignRecord.hrs).Pairwise (· < ·)
  signLog_le : ∀ record ∈ cs.signLog, record.hrs ≤ cs.hrs
  signLog_votes : ∀ record ∈ cs.signLog, ∀ vote, record.vote = some vote →
    vote.height = record.height ∧ vote.round = record.round ∧ vote.type = record.type
  timeouts_reached : ∀ timeout ∈ cs.timeouts, cs.reached timeout.height timeout.round
  locked : ∀ block, cs.lockedBlock = some block →
    1 ≤ cs.lockedRound ∧ cs.lockedRound ≤ cs.round ∧ Polka env cs.votes cs.lockedRound block
  valid : ∀ block, cs.validBlock = some block →
    cs.validRound ≤ cs.round ∧ Polka env cs.votes cs.validRound block

/-- The second state keeps the invariant and is not behind the first. -/
structure Advances (env : Environment) (cs next : ConsensusState) : Prop where
  invariant : Invariant env next
  hrs_le : cs.hrs ≤ next.hrs

theorem Advances.refl {cs : ConsensusState} (inv : Invariant env cs) : Advances env cs cs :=
  ⟨inv, le_refl _⟩

theorem Advances.trans
    {cs middle next : ConsensusState}
    (first : Advances env cs middle)
    (second : Advances env middle next) :
    Advances env cs next :=
  ⟨second.invariant, le_trans first.hrs_le second.hrs_le⟩

/-- At one height, a node that advances does not go back a round. -/
theorem Advances.round_le
    {cs next : ConsensusState}
    (advanced : Advances env cs next)
    (sameHeight : next.height = cs.height) :
    cs.round ≤ next.round :=
  round_le_of_hrs_le advanced.hrs_le sameHeight

/-! ## Leaf updates -/

namespace Invariant

variable {cs : ConsensusState}

/-- Moving forward to a round and step of the same height. -/
theorem updateRoundStep
    (inv : Invariant env cs)
    {round : Nat}
    {step : RoundStepType}
    (ahead : cs.hrs ≤ hrsOf cs.height round step) :
    Invariant env (cs.updateRoundStep round step) := by
  have advanced : cs.hrs ≤ (cs.updateRoundStep round step).hrs := ahead
  have roundLe : cs.round ≤ round := round_le_of_hrs_le advanced rfl
  refine
    { inv with
      round_pos := le_trans inv.round_pos roundLe
      signLog_le := fun record member => le_trans (inv.signLog_le record member) advanced
      timeouts_reached := fun timeout member =>
        reached_of_hrs_le (inv.timeouts_reached timeout member) advanced
      locked := fun block locked => ?_
      valid := fun block valid => ?_ }
  · obtain ⟨positive, below, polka⟩ := inv.locked block locked
    exact ⟨positive, le_trans below roundLe, polka⟩
  · obtain ⟨below, polka⟩ := inv.valid block valid
    exact ⟨le_trans below roundLe, polka⟩

/-- Scheduling a timeout for a round the node has reached. -/
theorem scheduleTimeout
    (inv : Invariant env cs)
    {height round : Nat}
    {step : RoundStepType}
    (reachedRound : cs.reached height round) :
    Invariant env (cs.scheduleTimeout height round step) := by
  refine { inv with timeouts_reached := ?_ }
  intro timeout member
  rcases List.mem_append.mp member with old | new
  · exact inv.timeouts_reached timeout old
  · rw [List.mem_singleton.mp new]
    exact reachedRound

/-- Clearing the lock. -/
theorem unlock (inv : Invariant env cs) : Invariant env cs.unlock :=
  { inv with locked := fun _ locked => by cases locked }

/-- Replacing the votes by votes that keep every majority. -/
theorem keeps
    (inv : Invariant env cs)
    {votes : HeightVoteSet}
    (kept : cs.votes.Keeps votes) :
    Invariant env { cs with votes := votes } where
  __ := inv
  locked block locked := by
    obtain ⟨positive, below, polka⟩ := inv.locked block locked
    exact ⟨positive, below, polka.keeps kept⟩
  valid block valid := by
    obtain ⟨below, polka⟩ := inv.valid block valid
    exact ⟨below, polka.keeps kept⟩

/-- Locking in the node's round, or clearing the lock, on a block with a polka in that round. -/
theorem setLock
    (inv : Invariant env cs)
    (lockedBlock : Option Block)
    (lockedBlockParts : Option PartSet)
    (polka : ∀ block, lockedBlock = some block → Polka env cs.votes cs.round block) :
    Invariant env
      { cs with
        lockedRound := cs.round
        lockedBlock := lockedBlock
        lockedBlockParts := lockedBlockParts } :=
  { inv with
    locked := fun block locked => ⟨inv.round_pos, le_refl _, polka block locked⟩ }

/-- Taking a block with a polka in the node's round as the valid block. -/
theorem setValid
    (inv : Invariant env cs)
    (validBlock : Option Block)
    (validBlockParts : Option PartSet)
    (polka : ∀ block, validBlock = some block → Polka env cs.votes cs.round block) :
    Invariant env
      { cs with
        validRound := cs.round
        validBlock := validBlock
        validBlockParts := validBlockParts } :=
  { inv with
    valid := fun block valid => ⟨le_refl _, polka block valid⟩ }

/--
Signing a vote from a step before the one its signing leads to, and moving
to that step: the new record is ahead of every record before it.
-/
theorem signAddVote
    (inv : Invariant env cs)
    {now : Time}
    {signedMsgType : SignedMsgType}
    {hash : Hash}
    {header : PartSetHeader}
    (ahead : cs.hrs < hrsOf cs.height cs.round (RoundStepType.ofVoteType signedMsgType)) :
    Advances env cs
      ((signAddVote env cs now signedMsgType hash header).updateRoundStep cs.round
        (RoundStepType.ofVoteType signedMsgType)) := by
  obtain ⟨vote, outbox, signed, voteMatches⟩ :=
    @signAddVote_eq env cs now signedMsgType hash header
  rw [signed]
  let record : SignRecord := ⟨cs.height, cs.round, signedMsgType, vote⟩
  -- every record before is at or below the node, so strictly below the new one
  have belowNew : ∀ old ∈ cs.signLog, old.hrs < record.hrs := fun old member =>
    lt_of_le_of_lt (inv.signLog_le old member) ahead
  refine ⟨{ inv with signLog_sorted := ?_, signLog_le := ?_, signLog_votes := ?_ }, le_of_lt ahead⟩
  · show ((cs.signLog ++ [record]).map SignRecord.hrs).Pairwise (· < ·)
    rw [List.map_append, List.pairwise_append]
    refine ⟨inv.signLog_sorted, List.pairwise_singleton _ _, ?_⟩
    intro earlier earlierMember later laterMember
    obtain ⟨old, oldMember, rfl⟩ := List.mem_map.mp earlierMember
    rw [List.map_singleton, List.mem_singleton] at laterMember
    rw [laterMember]
    exact belowNew old oldMember
  · intro entry member
    rcases List.mem_append.mp member with old | new
    · exact le_of_lt (belowNew entry old)
    · rw [List.mem_singleton.mp new]
      exact le_refl _
  · intro entry member signedVote holds
    rcases List.mem_append.mp member with old | new
    · exact inv.signLog_votes entry old signedVote holds
    · rw [List.mem_singleton.mp new] at holds ⊢
      exact voteMatches signedVote holds

end Invariant

/-! ## Round steps -/

/--
The guard of enterPropose, enterPrevote, enterPrevoteWait and enterPrecommit
passes only at the node's height and for a position ahead of the node.
-/
theorem ahead_of_guard
    {cs : ConsensusState}
    {height round : Nat}
    {step : RoundStepType}
    (passed : ¬(cs.height ≠ height ∨ round < cs.round ∨ (cs.round = round ∧ step ≤ cs.step))) :
    cs.height = height ∧ cs.hrs < hrsOf cs.height round step := by
  simp only [ne_eq, not_or, not_not, not_lt, not_and, RoundStepType.le_iff_toNat_le] at passed
  obtain ⟨sameHeight, notBehind, notYet⟩ := passed
  refine ⟨sameHeight, ?_⟩
  simp only [hrs, hrsOf_lt_hrsOf, lt_self_iff_false, true_and, false_or]
  by_cases sameRound : cs.round = round
  · have := notYet sameRound
    omega
  · omega

/--
enterPrevote, entered for a round the node has reached at its height, signs
at most one prevote, at the node's round and from a step before prevote.
-/
theorem enterPrevote_advances
    {cs next : ConsensusState}
    {now : Time}
    {height round : Nat}
    (inv : Invariant env cs)
    (reachedRound : cs.height = height → round ≤ cs.round)
    (entered : enterPrevote env cs now height round = .ok next) :
    Advances env cs next ∧ next.height = cs.height := by
  unfold enterPrevote at entered
  split_ifs at entered with ignored
  · cases entered
    exact ⟨Advances.refl inv, rfl⟩
  · obtain ⟨sameHeight, ahead⟩ := ahead_of_guard ignored
    -- the node is at the round it enters, since it has reached it
    have atRound : round = cs.round := by
      have := reachedRound sameHeight
      simp only [hrs, hrsOf_lt_hrsOf] at ahead
      omega
    subst atRound
    obtain ⟨prevoted, prevotedOk, rfl⟩ := Runs.map_eq_ok entered
    obtain ⟨hash, header, rfl⟩ := doPrevote_eq prevotedOk
    exact ⟨inv.signAddVote ahead, @signAddVote_height env _ _ _ _ _⟩

/-- enterPrevoteWait schedules its timeout and moves to the wait step of its round. -/
theorem enterPrevoteWait_advances
    {cs next : ConsensusState}
    {height round : Nat}
    (inv : Invariant env cs)
    (entered : enterPrevoteWait cs height round = .ok next) :
    Advances env cs next ∧ next.height = cs.height := by
  unfold enterPrevoteWait at entered
  split_ifs at entered with ignored noMajority
  · cases entered
    exact ⟨Advances.refl inv, rfl⟩
  · cases entered
    obtain ⟨rfl, ahead⟩ := ahead_of_guard ignored
    have moved := inv.updateRoundStep (le_of_lt ahead)
    have waiting : Invariant env
        ((cs.updateRoundStep round .prevoteWait).scheduleTimeout cs.height round .prevoteWait) :=
      moved.scheduleTimeout (Or.inr ⟨rfl, le_refl _⟩)
    exact ⟨⟨waiting, le_of_lt ahead⟩, rfl⟩

/--
The body of enterPrecommit, in the node's round, changes only the lock and
the proposal block and then signs a precommit: the lock it sets is on a block
with a polka in that round.
-/
theorem precommitBody_spec
    {cs next : ConsensusState}
    {now : Time}
    (inv : Invariant env cs)
    (body : precommitBody env cs now cs.round = .ok next) :
    ∃ locked hash header,
      next = signAddVote env locked now .precommitType hash header ∧
        Invariant env locked ∧ locked.hrs = cs.hrs := by
  unfold precommitBody signNilVote at body
  cases majority : VoteSet.majorityOf (cs.votes.prevotes cs.round) with
  | mk blockID ok =>
  rw [majority] at body
  dsimp only at body
  cases ok with
  | false =>
      -- no polka: precommit nil
      rw [if_pos (show (!false) = true from rfl)] at body
      cases body
      exact ⟨cs, _, _, rfl, inv, rfl⟩
  | true =>
  rw [if_neg (show ¬(!true) = true from Bool.false_ne_true)] at body
  by_cases polPanic : cs.votes.polInfo.1 < cs.round
  · rw [if_pos polPanic] at body
    cases body
  rw [if_neg polPanic] at body
  by_cases nilPolka : blockID.isZero = true
  · -- a polka for nil: unlock and precommit nil
    rw [if_pos nilPolka] at body
    cases body
    by_cases hasLock : cs.lockedBlock.isSome = true
    · rw [if_pos hasLock]
      exact ⟨cs.unlock, _, _, rfl, inv.unlock, rfl⟩
    · rw [if_neg hasLock]
      exact ⟨cs, _, _, rfl, inv, rfl⟩
  rw [if_neg nilPolka] at body
  by_cases relock : hashesTo env cs.lockedBlock blockID.hash = true
  · -- a polka for the locked block: relock in this round
    rw [if_pos relock] at body
    cases body
    refine ⟨_, _, _, rfl, inv.setLock cs.lockedBlock cs.lockedBlockParts ?_, rfl⟩
    intro block locked
    rw [locked] at relock
    exact ⟨blockID, majority, relock⟩
  rw [if_neg relock] at body
  by_cases lock : hashesTo env cs.proposalBlock blockID.hash = true
  · -- a polka for the proposal block: lock it in this round
    rw [if_pos lock] at body
    cases body
    refine ⟨_, _, _, rfl, inv.setLock cs.proposalBlock cs.proposalBlockParts ?_, rfl⟩
    intro block proposed
    rw [proposed] at lock
    exact ⟨blockID, majority, lock⟩
  · -- a polka for a block we do not have: unlock and fetch it
    rw [if_neg lock] at body
    cases body
    by_cases missingParts : (!PartSet.hasHeader cs.unlock.proposalBlockParts blockID.partsHeader) = true
    · rw [if_pos missingParts]
      exact ⟨_, _, _, rfl, { inv.unlock with }, rfl⟩
    · rw [if_neg missingParts]
      exact ⟨cs.unlock, _, _, rfl, inv.unlock, rfl⟩

/--
enterPrecommit, entered for a round the node has reached at its height,
signs at most one precommit, at the node's round and from a step before
precommit.
-/
theorem enterPrecommit_advances
    {cs next : ConsensusState}
    {now : Time}
    {height round : Nat}
    (inv : Invariant env cs)
    (reachedRound : cs.height = height → round ≤ cs.round)
    (entered : enterPrecommit env cs now height round = .ok next) :
    Advances env cs next ∧ next.height = cs.height := by
  unfold enterPrecommit at entered
  split_ifs at entered with ignored
  · cases entered
    exact ⟨Advances.refl inv, rfl⟩
  · obtain ⟨sameHeight, ahead⟩ := ahead_of_guard ignored
    have atRound : round = cs.round := by
      have := reachedRound sameHeight
      simp only [hrs, hrsOf_lt_hrsOf] at ahead
      omega
    subst atRound
    obtain ⟨committed, bodyOk, rfl⟩ := Runs.map_eq_ok entered
    obtain ⟨locked, hash, header, rfl, lockedInv, samePosition⟩ := precommitBody_spec inv bodyOk
    -- the lock changes neither height, round nor step
    have sameHeight' : locked.height = cs.height := by
      simp only [hrs, hrsOf, toLex_inj, Prod.mk.injEq] at samePosition
      exact samePosition.1
    have sameRound : locked.round = cs.round := by
      simp only [hrs, hrsOf, toLex_inj, Prod.mk.injEq] at samePosition
      exact samePosition.2.1
    have lockedAhead :
        locked.hrs < hrsOf locked.height locked.round
          (RoundStepType.ofVoteType .precommitType) := by
      rw [samePosition, sameHeight', sameRound]
      exact ahead
    have signed := @Invariant.signAddVote env locked lockedInv now .precommitType hash header lockedAhead
    rw [sameRound] at signed
    refine ⟨⟨signed.invariant, ?_⟩, ?_⟩
    · rw [← samePosition]
      exact signed.hrs_le
    · exact (@signAddVote_height env _ _ _ _ _).trans sameHeight'

/-- enterPrecommitWait schedules its timeout in the node's round. -/
theorem enterPrecommitWait_advances
    {cs next : ConsensusState}
    {height round : Nat}
    (inv : Invariant env cs)
    (entered : enterPrecommitWait cs height round = .ok next) :
    Advances env cs next ∧ next.height = cs.height := by
  unfold enterPrecommitWait at entered
  split_ifs at entered with ignored noMajority
  · cases entered
    exact ⟨Advances.refl inv, rfl⟩
  · cases entered
    simp only [ne_eq, not_or, not_not, not_and] at ignored
    obtain ⟨rfl, rfl, -⟩ := ignored
    have waiting := @Invariant.scheduleTimeout env cs inv cs.height cs.round .precommitWait
        (Or.inr ⟨rfl, le_refl cs.round⟩)
    exact ⟨⟨{ waiting with }, le_refl _⟩, rfl⟩

/--
enterPropose moves to the propose step of its round, after scheduling the
propose timeout and sending a proposal if it is the node's turn, and
prevotes at once if the proposal is complete.
-/
theorem enterPropose_advances
    {cs next : ConsensusState}
    {now : Time}
    {height round : Nat}
    (inv : Invariant env cs)
    (entered : enterPropose env cs now height round = .ok next) :
    Advances env cs next ∧ next.height = cs.height := by
  unfold enterPropose at entered
  split_ifs at entered with ignored
  · cases entered
    exact ⟨Advances.refl inv, rfl⟩
  · obtain ⟨rfl, ahead⟩ := ahead_of_guard ignored
    obtain ⟨proposed, proposedOk, prevoted⟩ := Runs.bind_eq_ok entered
    obtain ⟨outbox, rfl⟩ := proposeBody_eq proposedOk
    -- the deferred step update, with the timeout scheduled and the proposal sent
    let moved := ({ cs.scheduleTimeout cs.height round .propose with outbox := outbox }
      : ConsensusState).updateRoundStep round .propose
    have scheduled : Invariant env ((cs.updateRoundStep round .propose).scheduleTimeout
        cs.height round .propose) :=
      (inv.updateRoundStep (le_of_lt ahead)).scheduleTimeout (Or.inr ⟨rfl, le_refl round⟩)
    have movedInv : Invariant env moved := { scheduled with }
    have movedAdvances : Advances env cs moved := ⟨movedInv, le_of_lt ahead⟩
    dsimp only at prevoted
    split_ifs at prevoted
    · obtain ⟨prevoteAdvances, prevoteHeight⟩ :=
        enterPrevote_advances movedInv (fun _ => le_refl _) prevoted
      exact ⟨movedAdvances.trans prevoteAdvances, prevoteHeight⟩
    · cases prevoted
      exact ⟨movedAdvances, rfl⟩

/-- The end of enterNewRound, at the node's height and round, waits or proposes. -/
theorem proposeOrWaitForTxs_advances
    {cs next : ConsensusState}
    {now : Time}
    {height round : Nat}
    (inv : Invariant env cs)
    (atHeight : cs.height = height)
    (atRound : cs.round = round)
    (entered : proposeOrWaitForTxs env cs now height round = .ok next) :
    Advances env cs next ∧ next.height = cs.height := by
  unfold proposeOrWaitForTxs at entered
  by_cases waiting : (env.config.waitForTxs && round == 1) = true
  · rw [if_pos waiting] at entered
    cases entered
    subst atHeight atRound
    by_cases interval : 0 < env.config.createEmptyBlocksInterval
    · rw [if_pos interval]
      exact ⟨⟨inv.scheduleTimeout (Or.inr ⟨rfl, le_refl _⟩), le_refl _⟩, rfl⟩
    · rw [if_neg interval]
      exact ⟨Advances.refl inv, rfl⟩
  · rw [if_neg waiting] at entered
    exact enterPropose_advances inv entered

/--
enterNewRound moves to a later round of the node's height, or to round 1
from the new-height step; the node is at that round or later afterwards.
-/
theorem enterNewRound_advances
    {cs next : ConsensusState}
    {now : Time}
    {height round : Nat}
    (inv : Invariant env cs)
    (entered : enterNewRound env cs now height round = .ok next) :
    Advances env cs next ∧ next.height = cs.height ∧ (cs.height = height → round ≤ next.round) := by
  unfold enterNewRound at entered
  by_cases ignored :
      cs.height ≠ height ∨ round < cs.round ∨ (cs.round = round ∧ cs.step ≠ .newHeight)
  · rw [if_pos ignored] at entered
    cases entered
    refine ⟨Advances.refl inv, rfl, fun sameHeight => ?_⟩
    rcases ignored with otherHeight | behind | ⟨atRound, -⟩
    · exact absurd sameHeight otherHeight
    · exact le_of_lt behind
    · exact le_of_eq atRound.symm
  · rw [if_neg ignored] at entered
    simp only [ne_eq, not_or, not_not, not_lt, not_and] at ignored
    obtain ⟨rfl, notBehind, fromNewHeight⟩ := ignored
    -- round 1 is entered from the new-height step, a later round from anywhere
    have ahead : cs.hrs ≤ hrsOf cs.height round .newRound := by
      simp only [hrs, hrsOf_le_hrsOf, lt_self_iff_false, true_and, false_or]
      by_cases sameRound : cs.round = round
      · rw [fromNewHeight sameRound]
        simp [RoundStepType.toNat, sameRound]
      · omega
    obtain ⟨votes, votesOk, proposed⟩ := Runs.bind_eq_ok entered
    -- SetRound keeps the votes of the height, whether or not the proposal was reset
    have kept : cs.votes.Keeps votes := by
      have setRoundKeeps := HeightVoteSet.setRound_keeps votesOk
      split_ifs at setRoundKeeps <;> exact setRoundKeeps
    have started := (inv.updateRoundStep ahead).keeps kept
    -- whatever the new round's state, waiting or proposing from it advances the node
    have finish : ∀ begun : ConsensusState,
        proposeOrWaitForTxs env begun now cs.height round = .ok next →
        Invariant env begun → begun.height = cs.height → begun.round = round →
        cs.hrs ≤ begun.hrs →
        Advances env cs next ∧ next.height = cs.height ∧ (cs.height = cs.height → round ≤ next.round) := by
      intro begun begunEntered begunInv begunHeight begunRound begunAhead
      obtain ⟨advanced, sameHeight⟩ :=
        proposeOrWaitForTxs_advances begunInv begunHeight begunRound begunEntered
      refine ⟨⟨advanced.invariant, le_trans begunAhead advanced.hrs_le⟩,
        sameHeight.trans begunHeight, fun _ => ?_⟩
      rw [← begunRound]
      exact advanced.round_le sameHeight
    dsimp only at proposed
    split_ifs at proposed <;> exact finish _ proposed { started with } rfl rfl ahead

end ConsensusState

end Kardia
