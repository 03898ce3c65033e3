import Kardia.ConsensusInvariant

namespace Kardia

/-!
# Safety of one consensus node

The rest of the state machine keeps the invariant of
Kardia.ConsensusInvariant: the commit path from enterCommit to the next
height, the handling of votes and of proposal blocks, and the three inputs.
From that, by induction over the inputs, every state a node reaches from
NewConsensusState satisfies the invariant, and each input moves the node
forward in the order of CompareHRS.

The two safety properties of one node follow.  It never signs twice for one
height, round and vote type, and each vote it signs carries the height, round
and type it was signed at.  Its locked block and its valid block always have
+2/3 prevotes in their rounds, rounds it has reached.
-/

namespace ConsensusState

variable {env : Environment}

/-! ## The next height -/

/-- Resetting the round state for a later height moves the node forward. -/
theorem resetToState_advances
    {cs next : ConsensusState}
    {state : LatestBlockState}
    {lastCommit : Option VoteSet}
    (inv : Invariant env cs)
    (higher : cs.height < state.nextHeight)
    (reset : cs.resetToState state lastCommit = .ok next) :
    Advances env cs next := by
  unfold resetToState at reset
  obtain ⟨votes, -, rfl⟩ := Runs.map_eq_ok reset
  have ahead : cs.hrs < hrsOf state.nextHeight 1 .newHeight := by
    simp only [hrs, hrsOf_lt_hrsOf]
    omega
  refine ⟨
    { height_eq := rfl
      round_pos := le_refl 1
      signLog_sorted := inv.signLog_sorted
      signLog_le := fun record member =>
        le_of_lt (lt_of_le_of_lt (inv.signLog_le record member) ahead)
      signLog_votes := inv.signLog_votes
      timeouts_reached := fun timeout member => ?_
      locked := fun _ locked => by cases locked
      valid := fun _ valid => by cases valid },
    le_of_lt ahead⟩
  -- every timeout was for a height up to the node's, below the new one
  have before := inv.timeouts_reached timeout member
  unfold reached at before ⊢
  dsimp only
  omega

/--
updateToState returns the node unchanged for a state that is not further
than the node's, and otherwise resets it for the state.
-/
theorem updateToState_eq
    {cs next : ConsensusState}
    {state : LatestBlockState}
    (updated : cs.updateToState state = .ok next) :
    next = cs ∨
      cs.state.lastBlockHeight < state.lastBlockHeight ∧
        ∃ lastCommit, cs.resetToState state lastCommit = .ok next := by
  unfold updateToState at updated
  by_cases commitHeight : 0 < cs.commitRound ∧ 0 < cs.height ∧ cs.height ≠ state.lastBlockHeight
  · rw [if_pos commitHeight] at updated
    cases updated
  rw [if_neg commitHeight] at updated
  by_cases inconsistent :
      0 < cs.state.lastBlockHeight ∧ cs.state.lastBlockHeight + 1 ≠ cs.height
  · rw [if_pos inconsistent] at updated
    cases updated
  rw [if_neg inconsistent] at updated
  by_cases initial : 0 < cs.state.lastBlockHeight ∧ cs.height = cs.state.initialHeight
  · rw [if_pos initial] at updated
    cases updated
  rw [if_neg initial] at updated
  by_cases ignored : state.lastBlockHeight ≤ cs.state.lastBlockHeight
  · rw [if_pos ignored] at updated
    cases updated
    exact Or.inl rfl
  rw [if_neg ignored] at updated
  obtain ⟨lastCommit, -, reset⟩ := Runs.bind_eq_ok updated
  exact Or.inr ⟨not_le.mp ignored, lastCommit, reset⟩

/--
updateToState ignores a state that is not further than the node's and
otherwise moves the node to the state's next height, which must be higher.
-/
theorem updateToState_advances
    {cs next : ConsensusState}
    {state : LatestBlockState}
    (inv : Invariant env cs)
    (forward : state.lastBlockHeight ≤ cs.state.lastBlockHeight ∨ cs.height < state.nextHeight)
    (updated : cs.updateToState state = .ok next) :
    Advances env cs next := by
  rcases updateToState_eq updated with rfl | ⟨further, lastCommit, reset⟩
  · exact Advances.refl inv
  · exact resetToState_advances inv (forward.resolve_left (not_le.mpr further)) reset

/--
Saving and applying a block that validates against the node's state, then
moving to the next height and scheduling its first round.
-/
theorem commitBlock_advances
    {cs next : ConsensusState}
    {block : Block}
    {precommits : VoteSet}
    (inv : Invariant env cs)
    (accepted : validateProposal env cs block = .ok none)
    (committed : commitBlock env cs block precommits = .ok next) :
    Advances env cs next := by
  unfold commitBlock at committed
  obtain ⟨saved, savedOk, applied⟩ := Runs.bind_eq_ok committed
  -- saving records the block and the store height, nothing the invariant reads
  have savedFrame : Invariant env saved ∧ saved.hrs = cs.hrs ∧ saved.state = cs.state := by
    split at savedOk
    · obtain ⟨_, -, rfl⟩ := Runs.map_eq_ok savedOk
      exact ⟨{ inv with }, rfl, rfl⟩
    · cases savedOk
      exact ⟨{ inv with }, rfl, rfl⟩
  obtain ⟨savedInv, savedPosition, savedState⟩ := savedFrame
  split at applied
  · cases applied
  · cases applied
  · rename_i stateCopy blockHeight appliedOk
    obtain ⟨updated, updatedOk, rfl⟩ := Runs.map_eq_ok applied
    have acceptedSaved :
        validateBlock env.scheme env.blockExec.hashing env.blockExec.checkEvidence saved.state
          block = .ok none := by
      rw [savedState]
      exact accepted
    -- the applied state is the node's own, or one whose next height is above the node's
    have forward :
        stateCopy.lastBlockHeight ≤ saved.state.lastBlockHeight ∨
          saved.height < stateCopy.nextHeight := by
      rcases LatestBlockState.nextHeight_of_applyBlock acceptedSaved appliedOk with same | higher
      · left
        rw [same]
      · right
        rw [higher, ← savedInv.height_eq]
        exact Nat.lt_succ_self _
    have updatedAdvances := updateToState_advances savedInv forward updatedOk
    have scheduled : Invariant env (updated.scheduleTimeout updated.height 1 .newHeight) :=
      updatedAdvances.invariant.scheduleTimeout
        (Or.inr ⟨rfl, updatedAdvances.invariant.round_pos⟩)
    refine ⟨scheduled, ?_⟩
    calc cs.hrs = saved.hrs := savedPosition.symm
      _ ≤ updated.hrs := updatedAdvances.hrs_le
      _ = (updated.scheduleTimeout updated.height 1 .newHeight).hrs := rfl

/--
finalizeCommit either ignores the call or commits the proposal block after
it validates against the node's state.
-/
theorem finalizeCommit_eq
    {cs next : ConsensusState}
    {height : Nat}
    (finalized : finalizeCommit env cs height = .ok next) :
    next = cs ∨
      ∃ block precommits,
        validateProposal env cs block = .ok none ∧ commitBlock env cs block precommits = .ok next := by
  unfold finalizeCommit at finalized
  split at finalized
  · cases finalized
    exact Or.inl rfl
  right
  -- every check before the commit either passes or panics
  split at finalized
  · cases finalized
  split at finalized
  · cases finalized
  split at finalized
  · cases finalized
  split at finalized
  · cases finalized
  split at finalized
  · cases finalized
  split at finalized
  · cases finalized
  · cases finalized
  · rename_i accepted
    exact ⟨_, _, accepted, finalized⟩

theorem finalizeCommit_advances
    {cs next : ConsensusState}
    {height : Nat}
    (inv : Invariant env cs)
    (finalized : finalizeCommit env cs height = .ok next) :
    Advances env cs next := by
  rcases finalizeCommit_eq finalized with rfl | ⟨block, precommits, accepted, committed⟩
  · exact Advances.refl inv
  · exact commitBlock_advances inv accepted committed

theorem tryFinalizeCommit_advances
    {cs next : ConsensusState}
    {height : Nat}
    (inv : Invariant env cs)
    (tried : tryFinalizeCommit env cs height = .ok next) :
    Advances env cs next := by
  unfold tryFinalizeCommit at tried
  by_cases otherHeight : cs.height ≠ height
  · rw [if_pos otherHeight] at tried
    cases tried
  rw [if_neg otherHeight] at tried
  cases majority : VoteSet.majorityOf (cs.votes.precommits cs.commitRound) with
  | mk blockID ok =>
  rw [majority] at tried
  dsimp only at tried
  -- without a +2/3 precommit for a block we have, nothing happens
  by_cases noCommit : (!ok || blockID.isZero) = true
  · rw [if_pos noCommit] at tried
    cases tried
    exact Advances.refl inv
  rw [if_neg noCommit] at tried
  by_cases missing : (!hashesTo env cs.proposalBlock blockID.hash) = true
  · rw [if_pos missing] at tried
    cases tried
    exact Advances.refl inv
  rw [if_neg missing] at tried
  exact finalizeCommit_advances inv tried

/--
enterCommit moves to the commit step of the node's round, after taking the
locked block or fetching the committed one, and tries to finalize.
-/
theorem enterCommit_advances
    {cs next : ConsensusState}
    {height commitRound : Nat}
    (inv : Invariant env cs)
    (entered : enterCommit env cs height commitRound = .ok next) :
    Advances env cs next := by
  unfold enterCommit at entered
  by_cases ignored : cs.height ≠ height ∨ .commit ≤ cs.step
  · rw [if_pos ignored] at entered
    cases entered
    exact Advances.refl inv
  rw [if_neg ignored] at entered
  simp only [ne_eq, not_or, not_not, RoundStepType.le_iff_toNat_le, not_le] at ignored
  obtain ⟨rfl, beforeCommit⟩ := ignored
  cases majority : VoteSet.majorityOf (cs.votes.precommits commitRound) with
  | mk blockID ok =>
  rw [majority] at entered
  dsimp only at entered
  cases ok with
  | false =>
      rw [if_pos (show (!false) = true from rfl)] at entered
      cases entered
  | true =>
  rw [if_neg (show ¬(!true) = true from Bool.false_ne_true)] at entered
  -- whichever proposal block the node keeps, it commits from the same position
  have finish : ∀ fetched : ConsensusState,
      tryFinalizeCommit env
          { fetched.updateRoundStep fetched.round .commit with commitRound := commitRound }
          cs.height = .ok next →
        Invariant env fetched →
        fetched.height = cs.height → fetched.round = cs.round → fetched.step = cs.step →
        Advances env cs next := by
    intro fetched finalized fetchedInv sameHeight sameRound sameStep
    have commitStep : RoundStepType.commit.toNat = 8 := rfl
    have ahead : fetched.hrs ≤ hrsOf fetched.height fetched.round .commit := by
      have before : cs.step.toNat < 8 := beforeCommit
      simp only [hrs, hrsOf_le_hrsOf, sameStep, lt_self_iff_false, true_and, false_or]
      omega
    have committing : Advances env cs
        { fetched.updateRoundStep fetched.round .commit with commitRound := commitRound } := by
      refine ⟨{ fetchedInv.updateRoundStep ahead with }, ?_⟩
      show cs.hrs ≤ hrsOf fetched.height fetched.round .commit
      rw [sameHeight, sameRound]
      have before : cs.step.toNat < 8 := beforeCommit
      simp only [hrs, hrsOf_le_hrsOf, lt_self_iff_false, true_and, false_or]
      omega
    exact committing.trans (tryFinalizeCommit_advances committing.invariant finalized)
  split_ifs at entered <;> exact finish _ entered { inv with } rfl rfl rfl

/-! ## Polkas -/

/-- The unlock on a polka clears the lock or leaves the node as it is. -/
theorem polkaUnlock_eq
    (cs : ConsensusState)
    (voteRound : Nat)
    (blockID : BlockID) :
    polkaUnlock env cs voteRound blockID = cs.unlock ∨ polkaUnlock env cs voteRound blockID = cs := by
  unfold polkaUnlock
  split_ifs
  · exact Or.inl rfl
  · exact Or.inr rfl

/--
The valid-block update on a polka of the node's round takes the proposal
block only when it is the polka's block, so the valid block keeps a polka.
-/
theorem polkaValidBlock_advances
    {cs : ConsensusState}
    {voteRound : Nat}
    {blockID : BlockID}
    (inv : Invariant env cs)
    (majority : VoteSet.majorityOf (cs.votes.prevotes voteRound) = (blockID, true)) :
    Advances env cs (polkaValidBlock env cs voteRound blockID) ∧
      (polkaValidBlock env cs voteRound blockID).height = cs.height := by
  unfold polkaValidBlock
  split
  · rename_i polkaHere
    obtain ⟨-, -, rfl⟩ := polkaHere
    dsimp only
    by_cases hashes : hashesTo env cs.proposalBlock blockID.hash = true
    · rw [if_pos hashes]
      have validInv := inv.setValid cs.proposalBlock cs.proposalBlockParts
        fun block proposed => ⟨blockID, majority, proposed ▸ hashes⟩
      split
      · exact ⟨⟨{ validInv with }, le_refl _⟩, rfl⟩
      · exact ⟨⟨validInv, le_refl _⟩, rfl⟩
    · rw [if_neg hashes]
      split
      · exact ⟨⟨{ inv with }, le_refl _⟩, rfl⟩
      · exact ⟨⟨{ inv with }, le_refl _⟩, rfl⟩
  · exact ⟨Advances.refl inv, rfl⟩

theorem polkaUpdates_advances
    {cs : ConsensusState}
    {voteRound : Nat}
    {blockID : BlockID}
    (inv : Invariant env cs)
    (majority : VoteSet.majorityOf (cs.votes.prevotes voteRound) = (blockID, true)) :
    Advances env cs (polkaUpdates env cs voteRound blockID) ∧
      (polkaUpdates env cs voteRound blockID).height = cs.height := by
  unfold polkaUpdates
  rcases polkaUnlock_eq cs voteRound blockID with unlocked | kept
  · rw [unlocked]
    obtain ⟨advances, sameHeight⟩ := polkaValidBlock_advances inv.unlock majority
    exact ⟨⟨advances.invariant, advances.hrs_le⟩, sameHeight⟩
  · rw [kept]
    exact polkaValidBlock_advances inv majority

/-! ## Votes -/

/-- What an added prevote of the node's height leads to moves the node forward. -/
theorem addedPrevote_advances
    {cs next : ConsensusState}
    {now : Time}
    {height voteRound : Nat}
    (inv : Invariant env cs)
    (atHeight : cs.height = height)
    (added : addedPrevote env cs now height voteRound = .ok next) :
    Advances env cs next := by
  unfold addedPrevote at added
  dsimp only at added
  cases majority : VoteSet.majorityOf (cs.votes.prevotes voteRound) with
  | mk blockID ok =>
  rw [majority] at added
  dsimp only at added
  -- the polka updates come first and keep the node where it is
  have updatedAdvances :
      Advances env cs (if ok = true then polkaUpdates env cs voteRound blockID else cs) ∧
        (if ok = true then polkaUpdates env cs voteRound blockID else cs).height = cs.height := by
    split
    · rename_i polka
      exact polkaUpdates_advances inv (polka ▸ majority)
    · exact ⟨Advances.refl inv, rfl⟩
  generalize (if ok = true then polkaUpdates env cs voteRound blockID else cs) = updated
    at added updatedAdvances
  obtain ⟨toUpdated, sameHeight⟩ := updatedAdvances
  have updatedHeight : updated.height = height := sameHeight.trans atHeight
  have updatedInv := toUpdated.invariant
  split_ifs at added with skip inRound precommitReady waiting
  · exact toUpdated.trans (enterNewRound_advances updatedInv added).1
  · have reachedRound : updated.height = height → voteRound ≤ updated.round :=
      fun _ => le_of_eq inRound.1.symm
    exact toUpdated.trans (enterPrecommit_advances updatedInv reachedRound added).1
  · exact toUpdated.trans (enterPrevoteWait_advances updatedInv added).1
  · cases added
    exact toUpdated
  · split at added
    · split_ifs at added
      · exact toUpdated.trans (enterPrevote_advances updatedInv (fun _ => le_refl _) added).1
      · cases added
        exact toUpdated
    · cases added
      exact toUpdated

/-- What an added precommit of the node's height leads to moves the node forward. -/
theorem addedPrecommit_advances
    {cs next : ConsensusState}
    {now : Time}
    {height voteRound : Nat}
    (inv : Invariant env cs)
    (atHeight : cs.height = height)
    (added : addedPrecommit env cs now height voteRound = .ok next) :
    Advances env cs next := by
  unfold addedPrecommit at added
  dsimp only at added
  cases majority : VoteSet.majorityOf (cs.votes.precommits voteRound) with
  | mk blockID ok =>
  rw [majority] at added
  dsimp only at added
  cases ok with
  | true =>
      rw [if_pos rfl] at added
      obtain ⟨started, startedOk, precommitted⟩ := Runs.bind_eq_ok added
      obtain ⟨toStarted, startedHeight, startedRound⟩ := enterNewRound_advances inv startedOk
      obtain ⟨precommittedState, precommittedOk, rest⟩ := Runs.bind_eq_ok precommitted
      -- the new round is the precommit's round, so enterPrecommit is not behind the node
      have reachedRound : started.height = height → voteRound ≤ started.round :=
        fun _ => startedRound atHeight
      have toPrecommitted := toStarted.trans
        (enterPrecommit_advances toStarted.invariant reachedRound precommittedOk).1
      by_cases forBlock : (!blockID.hash.isZero) = true
      · rw [if_pos forBlock] at rest
        obtain ⟨committed, committedOk, skipped⟩ := Runs.bind_eq_ok rest
        have toCommitted := toPrecommitted.trans
          (enterCommit_advances toPrecommitted.invariant committedOk)
        split_ifs at skipped
        · exact toCommitted.trans (enterNewRound_advances toCommitted.invariant skipped).1
        · cases skipped
          exact toCommitted
      · rw [if_neg forBlock] at rest
        exact toPrecommitted.trans (enterPrecommitWait_advances toPrecommitted.invariant rest).1
  | false =>
      rw [if_neg Bool.false_ne_true] at added
      split_ifs at added
      · obtain ⟨started, startedOk, waited⟩ := Runs.bind_eq_ok added
        have toStarted := (enterNewRound_advances inv startedOk).1
        exact toStarted.trans (enterPrecommitWait_advances toStarted.invariant waited).1
      · cases added
        exact Advances.refl inv

/--
addVote moves the node forward: a vote goes to the last commit or to the
height vote set, which keeps every majority, and what it adds drives the
round steps.
-/
theorem addVote_advances
    {cs next : ConsensusState}
    {now : Time}
    {vote : Vote}
    {peerID : PeerID}
    {added : Bool}
    {voteError : Option VoteError}
    (inv : Invariant env cs)
    (addedOk : addVote env cs now vote peerID = .ok (next, added, voteError)) :
    Advances env cs next := by
  unfold addVote at addedOk
  by_cases lastHeight : vote.height + 1 = cs.height ∧ vote.type = .precommitType
  · rw [if_pos lastHeight] at addedOk
    by_cases committing : cs.step ≠ .newHeight
    · rw [if_pos committing] at addedOk
      cases addedOk
      exact Advances.refl inv
    rw [if_neg committing] at addedOk
    split at addedOk
    · cases addedOk
    · obtain ⟨⟨lastCommit, addedLast, lastError⟩, -, rest⟩ := Runs.bind_eq_ok addedOk
      dsimp only at rest
      -- the last commit is nothing the invariant reads
      have toRecorded : Advances env cs { cs with lastCommit := some lastCommit } :=
        ⟨{ inv with }, le_refl _⟩
      split_ifs at rest
      · cases rest
        exact toRecorded
      · obtain ⟨started, startedOk, result⟩ := Runs.map_eq_ok rest
        cases result
        exact toRecorded.trans (enterNewRound_advances toRecorded.invariant startedOk).1
      · cases rest
        exact toRecorded
  rw [if_neg lastHeight] at addedOk
  by_cases otherHeight : vote.height ≠ cs.height
  · rw [if_pos otherHeight] at addedOk
    cases addedOk
    exact Advances.refl inv
  rw [if_neg otherHeight] at addedOk
  obtain ⟨⟨votes, addedVote, addError⟩, votesOk, rest⟩ := Runs.bind_eq_ok addedOk
  dsimp only at rest
  have toRecorded : Advances env cs { cs with votes := votes } :=
    ⟨inv.keeps (HeightVoteSet.addVote_keeps votesOk), le_refl _⟩
  split_ifs at rest
  · cases rest
    exact toRecorded
  · split at rest
    · obtain ⟨prevoted, prevotedOk, result⟩ := Runs.map_eq_ok rest
      cases result
      exact toRecorded.trans (addedPrevote_advances toRecorded.invariant rfl prevotedOk)
    · obtain ⟨precommitted, precommittedOk, result⟩ := Runs.map_eq_ok rest
      cases result
      exact toRecorded.trans (addedPrecommit_advances toRecorded.invariant rfl precommittedOk)
    · cases rest

/-- tryAddVote moves the node as addVote does; evidence it adds goes to the pool. -/
theorem tryAddVote_advances
    {cs next : ConsensusState}
    {now : Time}
    {vote : Vote}
    {peerID : PeerID}
    {added : Bool}
    {tryError : Option TryAddVoteError}
    (inv : Invariant env cs)
    (tried : tryAddVote env cs now vote peerID = .ok (next, added, tryError)) :
    Advances env cs next := by
  unfold tryAddVote at tried
  obtain ⟨⟨voted, addedVote, voteError⟩, votedOk, rest⟩ := Runs.bind_eq_ok tried
  have toVoted := addVote_advances inv votedOk
  dsimp only at rest
  split at rest
  · cases rest
    exact toVoted
  · split at rest
    · cases rest
    · split_ifs at rest
      · cases rest
        exact toVoted
      · obtain ⟨evidence, -, stored⟩ := Runs.bind_eq_ok rest
        split at stored
        · cases stored
        · cases stored
          exact ⟨{ toVoted.invariant with }, toVoted.hrs_le⟩
  · cases rest
    exact toVoted
  · cases rest
    exact toVoted

/-! ## Proposals and block parts -/

/-- setProposal records a proposal and its expected parts, nothing the invariant reads. -/
theorem setProposal_advances
    {cs next : ConsensusState}
    {proposal : Proposal}
    {proposalError : Option String}
    (inv : Invariant env cs)
    (set : setProposal env cs proposal = .ok (next, proposalError)) :
    Advances env cs next := by
  unfold setProposal at set
  split_ifs at set
  · cases set
    exact Advances.refl inv
  · cases set
    exact Advances.refl inv
  · cases set
    exact Advances.refl inv
  obtain ⟨proposer, -, checked⟩ := Runs.bind_eq_ok set
  split at checked
  · cases checked
  · dsimp only at checked
    split_ifs at checked
    · cases checked
      exact Advances.refl inv
    · cases checked
      exact ⟨{ inv with }, le_refl _⟩
    · cases checked
      exact ⟨{ inv with }, le_refl _⟩

theorem proposalCompleteStep_advances
    {cs next : ConsensusState}
    {now : Time}
    {height : Nat}
    {hasTwoThirds : Bool}
    (inv : Invariant env cs)
    (stepped : proposalCompleteStep env cs now height hasTwoThirds = .ok next) :
    Advances env cs next := by
  unfold proposalCompleteStep at stepped
  -- both steps are entered in the node's own round
  split_ifs at stepped
  · obtain ⟨prevoted, prevotedOk, rest⟩ := Runs.bind_eq_ok stepped
    have toPrevoted := (enterPrevote_advances inv (fun _ => le_refl _) prevotedOk).1
    exact toPrevoted.trans
      (enterPrecommit_advances toPrevoted.invariant (fun _ => le_refl _) rest).1
  · obtain ⟨prevoted, prevotedOk, rest⟩ := Runs.bind_eq_ok stepped
    cases rest
    exact (enterPrevote_advances inv (fun _ => le_refl _) prevotedOk).1
  · exact tryFinalizeCommit_advances inv stepped
  · cases stepped
    exact Advances.refl inv

/--
A complete proposal block becomes the valid block only with a polka for it
in the node's round; the step it leads to moves the node forward.
-/
theorem completeProposalBlock_advances
    {cs next : ConsensusState}
    {now : Time}
    {height : Nat}
    {block : Block}
    (inv : Invariant env cs)
    (completed : completeProposalBlock env cs now height block = .ok next) :
    Advances env cs next := by
  unfold completeProposalBlock at completed
  dsimp only at completed
  cases majority : VoteSet.majorityOf (cs.votes.prevotes cs.round) with
  | mk blockID hasTwoThirds =>
  rw [majority] at completed
  dsimp only at completed
  have stored : Invariant env { cs with proposalBlock := some block } := { inv with }
  split_ifs at completed with polka
  · have validInv := stored.setValid (some block) cs.proposalBlockParts
      fun proposed same => ⟨blockID, polka.1 ▸ majority, same ▸ polka.2.2.2⟩
    exact (⟨validInv, le_refl _⟩ : Advances env cs _).trans
      (proposalCompleteStep_advances validInv completed)
  · exact (⟨stored, le_refl _⟩ : Advances env cs _).trans
      (proposalCompleteStep_advances stored completed)

/-- addProposalBlockPart moves the node forward. -/
theorem addProposalBlockPart_advances
    {cs next : ConsensusState}
    {now : Time}
    {height : Nat}
    {part : Part}
    {added : Bool}
    {partError : Option String}
    (inv : Invariant env cs)
    (addedOk : addProposalBlockPart env cs now height part = .ok (next, added, partError)) :
    Advances env cs next := by
  unfold addProposalBlockPart at addedOk
  split_ifs at addedOk
  · cases addedOk
    exact Advances.refl inv
  split at addedOk
  · cases addedOk
    exact Advances.refl inv
  · rename_i partSet _
    dsimp only at addedOk
    -- the part set is nothing the invariant reads
    have toStored : Advances env cs
        { cs with proposalBlockParts := some (partSet.addPart env.verifyPart part).1 } :=
      ⟨{ inv with }, le_refl _⟩
    split at addedOk
    · cases addedOk
      exact toStored
    · split_ifs at addedOk
      · split at addedOk
        · cases addedOk
          exact toStored
        · split at addedOk
          · cases addedOk
            exact toStored
          · obtain ⟨completed, completedOk, result⟩ := Runs.map_eq_ok addedOk
            cases result
            exact toStored.trans (completeProposalBlock_advances toStored.invariant completedOk)
      · cases addedOk
        exact toStored

/-! ## Inputs -/

theorem handleMsg_advances
    {cs next : ConsensusState}
    {now : Time}
    {msg : ConsensusMessage}
    {peerID : PeerID}
    (inv : Invariant env cs)
    (handled : handleMsg env cs now msg peerID = .ok next) :
    Advances env cs next := by
  unfold handleMsg at handled
  cases msg with
  | proposal proposal =>
      obtain ⟨⟨set, proposalError⟩, setOk, rfl⟩ := Runs.map_eq_ok handled
      exact setProposal_advances inv setOk
  | blockPart height round part =>
      obtain ⟨⟨added, addedPart, partError⟩, addedOk, rfl⟩ := Runs.map_eq_ok handled
      exact addProposalBlockPart_advances inv addedOk
  | vote vote =>
      obtain ⟨⟨tried, addedVote, tryError⟩, triedOk, rfl⟩ := Runs.map_eq_ok handled
      exact tryAddVote_advances inv triedOk

/--
A timeout scheduled for a round the node has reached moves it forward: the
step it enters is not behind the node.
-/
theorem handleTimeout_advances
    {cs next : ConsensusState}
    {now : Time}
    {timeout : TimeoutInfo}
    (inv : Invariant env cs)
    (scheduled : cs.reached timeout.height timeout.round)
    (handled : handleTimeout env cs now timeout = .ok next) :
    Advances env cs next := by
  unfold handleTimeout at handled
  split_ifs at handled with ignored
  · cases handled
    exact Advances.refl inv
  have reachedRound : cs.height = timeout.height → timeout.round ≤ cs.round := by
    unfold reached at scheduled
    omega
  split at handled
  · exact (enterNewRound_advances inv handled).1
  · exact (enterPropose_advances inv handled).1
  · exact (enterPrevote_advances inv reachedRound handled).1
  · exact (enterPrecommit_advances inv reachedRound handled).1
  · obtain ⟨precommitted, precommittedOk, started⟩ := Runs.bind_eq_ok handled
    have toPrecommitted := (enterPrecommit_advances inv reachedRound precommittedOk).1
    exact toPrecommitted.trans (enterNewRound_advances toPrecommitted.invariant started).1
  · cases handled

theorem setPeerMaj23_advances
    {cs : ConsensusState}
    {height round : Nat}
    {signedMsgType : SignedMsgType}
    {peerID : PeerID}
    {blockID : BlockID}
    (inv : Invariant env cs) :
    Advances env cs (cs.setPeerMaj23 height round signedMsgType peerID blockID) := by
  unfold setPeerMaj23
  split_ifs
  · exact ⟨inv.keeps (HeightVoteSet.setPeerMaj23_keeps _ _ _ _ _), le_refl _⟩
  · exact Advances.refl inv

/-- Every input the node handles moves it forward and keeps the invariant. -/
theorem receive_advances
    {cs next : ConsensusState}
    {input : ConsensusInput}
    (inv : Invariant env cs)
    (received : receive env cs input = .ok next) :
    Advances env cs next := by
  cases input with
  | message now msg peerID =>
      exact handleMsg_advances inv received
  | timeout now timeout =>
      dsimp only [receive] at received
      split_ifs at received with pending
      · exact handleTimeout_advances inv (inv.timeouts_reached timeout pending) received
      · cases received
        exact Advances.refl inv
  | peerMaj23 height round signedMsgType peerID blockID =>
      cases received
      exact setPeerMaj23_advances inv

/-! ## Runs -/

/-- A node starts at round 1 of its state's next height, with nothing signed or locked. -/
theorem newConsensusState_invariant
    {state : LatestBlockState}
    {seenCommit : Option Commit}
    {evpool : Pool}
    {blockStoreHeight : Nat}
    {start : ConsensusState}
    (started : newConsensusState env state seenCommit evpool blockStoreHeight = .ok start) :
    Invariant env start := by
  unfold newConsensusState at started
  obtain ⟨lastCommit, -, reset⟩ := Runs.bind_eq_ok started
  obtain ⟨fresh, freshOk, rfl⟩ := Runs.map_eq_ok reset
  unfold resetToState at freshOk
  obtain ⟨votes, -, rfl⟩ := Runs.map_eq_ok freshOk
  refine
    { height_eq := rfl
      round_pos := le_refl 1
      signLog_sorted := List.Pairwise.nil
      signLog_le := fun _ member => by cases member
      signLog_votes := fun _ member => by cases member
      timeouts_reached := fun timeout member => ?_
      locked := fun _ locked => by cases locked
      valid := fun _ valid => by cases valid }
  -- the one timeout is round 1 of the new height
  simp only [scheduleTimeout, List.nil_append, List.mem_singleton] at member
  rw [member]
  exact Or.inr ⟨rfl, le_refl 1⟩

/-- Every state a node reaches from NewConsensusState satisfies the invariant. -/
theorem reachable_invariant
    {state : LatestBlockState}
    {seenCommit : Option Commit}
    {evpool : Pool}
    {blockStoreHeight : Nat}
    {start final : ConsensusState}
    {inputs : List ConsensusInput}
    (started : newConsensusState env state seenCommit evpool blockStoreHeight = .ok start)
    (finished : Runs.run (receive env) start inputs = .ok final) :
    Invariant env final :=
  Runs.invariant_of_run (Invariant env)
    (fun _ _ _ inv received => (receive_advances inv received).invariant)
    (newConsensusState_invariant started) finished

/-- Two calls of signAddVote in a sorted log differ in height, round or vote type. -/
theorem Invariant.signLog_keys_nodup
    {cs : ConsensusState}
    (inv : Invariant env cs) :
    (cs.signLog.map fun record => (record.height, record.round, record.type)).Nodup := by
  -- records with one key have one position, which the strict order excludes
  have keyed : ∀ first second : SignRecord, first.hrs < second.hrs →
      (first.height, first.round, first.type) ≠ (second.height, second.round, second.type) := by
    intro first second ahead same
    simp only [Prod.mk.injEq] at same
    obtain ⟨sameHeight, sameRound, sameType⟩ := same
    have samePosition : first.hrs = second.hrs := by
      unfold SignRecord.hrs
      rw [sameHeight, sameRound, sameType]
    exact lt_irrefl _ (samePosition ▸ ahead)
  have sorted := List.pairwise_map.mp inv.signLog_sorted
  exact List.pairwise_map.mpr (sorted.imp fun ahead => keyed _ _ ahead)

/-! ## A node of the genesis state -/

namespace SoloNode

/-- An application that executes nothing and changes no validator. -/
def application : Application :=
  ⟨fun _ => .ok ([], Hash.zero), fun _ _ => [], fun valSet _ => .ok valSet, fun valSet _ => valSet⟩

/--
The only validator of the genesis state, running a node that never builds a
block of its own and decodes no block parts.
-/
def environment : Environment where
  scheme := KeyCollision.scheme
  privValidator := some ⟨⟨1⟩, KeyCollision.signedBy ⟨1⟩⟩
  config := ⟨true, 0, false⟩
  blockExec := ⟨GenesisBlock.hashing, fun _ => none, application, false⟩
  createProposalBlock := fun _ _ _ _ => none
  decodeBlock := fun _ => .error "no block"
  verifyPart := fun _ _ => false

/-- An empty evidence pool at the genesis state. -/
def pool : Pool :=
  ⟨GenesisBlock.state, [], []⟩

/-- The first round: its new-height timeout, then its propose timeout, which makes the node prevote nil. -/
def inputs : List ConsensusInput :=
  [.timeout ⟨0⟩ ⟨1, 1, .newHeight⟩, .timeout ⟨0⟩ ⟨1, 1, .propose⟩]

end SoloNode

/-! ## Safety of one node -/

/--
Over every run from NewConsensusState, each input moves the node forward in
the order of CompareHRS; the node calls signAddVote at most once for each
height, round and vote type, and every vote it signs carries the height,
round and type of the call.
-/
theorem node_never_equivocates
    {state : LatestBlockState}
    {seenCommit : Option Commit}
    {evpool : Pool}
    {blockStoreHeight : Nat}
    {start final : ConsensusState}
    {inputs : List ConsensusInput}
    (started : newConsensusState env state seenCommit evpool blockStoreHeight = .ok start)
    (finished : Runs.run (receive env) start inputs = .ok final) :
    (∀ input next, receive env final input = .ok next →
        compareHRS final.height final.round final.step next.height next.round next.step ≤ 0) ∧
      (final.signLog.map fun record => (record.height, record.round, record.type)).Nodup ∧
      ∀ record ∈ final.signLog, ∀ vote, record.vote = some vote →
        vote.height = record.height ∧ vote.round = record.round ∧ vote.type = record.type := by
  have inv := reachable_invariant started finished
  refine ⟨fun input next received => ?_, inv.signLog_keys_nodup, inv.signLog_votes⟩
  exact compareHRS_le_zero_iff.mpr (receive_advances inv received).hrs_le

theorem node_never_equivocates_solo :
    ∃ start final,
      newConsensusState SoloNode.environment GenesisBlock.state none SoloNode.pool 0 = .ok start ∧
        Runs.run (receive SoloNode.environment) start SoloNode.inputs = .ok final ∧
        (final.signLog.map fun record => (record.height, record.round, record.type)) =
          [(1, 1, .prevoteType)] ∧
        ((∀ input next, receive SoloNode.environment final input = .ok next →
            compareHRS final.height final.round final.step next.height next.round next.step ≤ 0) ∧
          (final.signLog.map fun record => (record.height, record.round, record.type)).Nodup ∧
          ∀ record ∈ final.signLog, ∀ vote, record.vote = some vote →
            vote.height = record.height ∧ vote.round = record.round ∧ vote.type = record.type) := by
  refine ⟨_, _, rfl, rfl, rfl, ?_⟩
  exact @node_never_equivocates SoloNode.environment GenesisBlock.state none SoloNode.pool 0 _ _
    SoloNode.inputs rfl rfl

end ConsensusState

end Kardia
