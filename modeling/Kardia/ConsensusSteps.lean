import Kardia.ConsensusState

namespace Kardia

/-!
# What the steps of the consensus state machine do

The order in which a node moves through heights, rounds and steps, which is
the order of CompareHRS, and for the functions of the state machine that
change the state without entering another step, the state they return.  The
invariants of the node (Kardia.ConsensusInvariant) are derived from these
lemmas and never unfold the functions again.
-/

namespace RoundStepType

@[simp] theorem le_iff_toNat_le {first second : RoundStepType} :
    first ≤ second ↔ first.toNat ≤ second.toNat :=
  Iff.rfl

@[simp] theorem lt_iff_toNat_lt {first second : RoundStepType} :
    first < second ↔ first.toNat < second.toNat :=
  Iff.rfl

theorem toNat_injective {first second : RoundStepType} (same : first.toNat = second.toNat) :
    first = second := by
  cases first <;> cases second <;> simp_all [toNat]

/--
The step a node enters right after it signs a vote of a type: enterPrevote
signs prevotes and enterPrecommit precommits.
-/
def ofVoteType : SignedMsgType → RoundStepType
  | .precommitType => .precommit
  | _ => .prevote

end RoundStepType

/-! ## The order of heights, rounds and steps -/

/-- A position (height, round, step), ordered lexicographically. -/
def hrsOf (height round : Nat) (step : RoundStepType) : ℕ ×ₗ ℕ ×ₗ ℕ :=
  toLex (height, toLex (round, step.toNat))

@[simp] theorem hrsOf_le_hrsOf
    {height round height' round' : Nat}
    {step step' : RoundStepType} :
    hrsOf height round step ≤ hrsOf height' round' step' ↔
      height < height' ∨
        height = height' ∧ (round < round' ∨ round = round' ∧ step.toNat ≤ step'.toNat) := by
  simp [hrsOf, Prod.Lex.toLex_le_toLex]

@[simp] theorem hrsOf_lt_hrsOf
    {height round height' round' : Nat}
    {step step' : RoundStepType} :
    hrsOf height round step < hrsOf height' round' step' ↔
      height < height' ∨
        height = height' ∧ (round < round' ∨ round = round' ∧ step.toNat < step'.toNat) := by
  simp [hrsOf, Prod.Lex.toLex_lt_toLex]

/-- CompareHRS answers -1 or 0 exactly when the first position is not after the second. -/
theorem compareHRS_le_zero_iff
    {h1 r1 h2 r2 : Nat}
    {s1 s2 : RoundStepType} :
    compareHRS h1 r1 s1 h2 r2 s2 ≤ 0 ↔ hrsOf h1 r1 s1 ≤ hrsOf h2 r2 s2 := by
  rw [hrsOf_le_hrsOf]
  unfold compareHRS
  simp only [RoundStepType.lt_iff_toNat_lt, gt_iff_lt]
  -- each branch of the comparison chain settles the lexicographic order
  split_ifs <;> omega

/-- The position of a signed vote: the step its signing leads to. -/
def SignRecord.hrs (record : SignRecord) : ℕ ×ₗ ℕ ×ₗ ℕ :=
  hrsOf record.height record.round (RoundStepType.ofVoteType record.type)

namespace ConsensusState

variable {env : Environment}

/-- The position of a node. -/
def hrs (cs : ConsensusState) : ℕ ×ₗ ℕ ×ₗ ℕ :=
  hrsOf cs.height cs.round cs.step

/-- The node has reached a round of a height: a later height, or that height and round or a later one. -/
def reached (cs : ConsensusState) (height round : Nat) : Prop :=
  height < cs.height ∨ height = cs.height ∧ round ≤ cs.round

/-- A node that moves forward stays past every round it reached. -/
theorem reached_of_hrs_le
    {cs next : ConsensusState}
    {height round : Nat}
    (reachedBefore : cs.reached height round)
    (advanced : cs.hrs ≤ next.hrs) :
    next.reached height round := by
  unfold reached at *
  simp only [hrs, hrsOf_le_hrsOf] at advanced
  omega

/-- At one height, a node that moves forward does not go back a round. -/
theorem round_le_of_hrs_le
    {cs next : ConsensusState}
    (advanced : cs.hrs ≤ next.hrs)
    (sameHeight : next.height = cs.height) :
    cs.round ≤ next.round := by
  simp only [hrs, hrsOf_le_hrsOf] at advanced
  omega

@[simp] theorem updateRoundStep_hrs (cs : ConsensusState) (round : Nat) (step : RoundStepType) :
    (cs.updateRoundStep round step).hrs = hrsOf cs.height round step :=
  rfl

/-! ## Signing -/

/--
signAddVote appends one record to the sign log, at the node's height and
round and with the vote type, holding the vote it signed at that height,
round and type if any; besides the log it changes only the outbox.
-/
theorem signAddVote_eq
    (cs : ConsensusState)
    (now : Time)
    (signedMsgType : SignedMsgType)
    (hash : Hash)
    (header : PartSetHeader) :
    ∃ vote outbox,
      signAddVote env cs now signedMsgType hash header =
          { cs with
            signLog := cs.signLog ++ [⟨cs.height, cs.round, signedMsgType, vote⟩]
            outbox := outbox } ∧
        ∀ signed, vote = some signed →
          signed.height = cs.height ∧ signed.round = cs.round ∧ signed.type = signedMsgType := by
  unfold signAddVote
  split
  · exact ⟨none, cs.outbox, rfl, by simp⟩
  · split_ifs
    · exact ⟨none, cs.outbox, rfl, by simp⟩
    · refine ⟨some _, _, rfl, ?_⟩
      rintro signed ⟨⟩
      exact ⟨rfl, rfl, rfl⟩

@[simp] theorem signAddVote_height
    (cs : ConsensusState)
    (now : Time)
    (signedMsgType : SignedMsgType)
    (hash : Hash)
    (header : PartSetHeader) :
    (signAddVote env cs now signedMsgType hash header).height = cs.height := by
  obtain ⟨vote, outbox, signed, -⟩ := @signAddVote_eq env cs now signedMsgType hash header
  rw [signed]

/-- doPrevote signs a prevote, for the locked block, the proposal block or nil. -/
theorem doPrevote_eq
    {cs next : ConsensusState}
    {now : Time}
    (prevoted : doPrevote env cs now = .ok next) :
    ∃ hash header, next = signAddVote env cs now .prevoteType hash header := by
  unfold doPrevote signNilVote at prevoted
  split at prevoted
  · cases prevoted
    exact ⟨_, _, rfl⟩
  · split at prevoted
    · cases prevoted
      exact ⟨_, _, rfl⟩
    · split at prevoted
      · cases prevoted
      · cases prevoted
        exact ⟨_, _, rfl⟩
      · cases prevoted
        exact ⟨_, _, rfl⟩

/-! ## Proposing -/

/-- Sending block parts on the internal queue changes only the outbox. -/
theorem foldl_sendInternalMessage_eq
    (parts : List Part)
    (cs : ConsensusState) :
    ∃ outbox,
      parts.foldl (fun cs part => cs.sendInternalMessage (.blockPart cs.height cs.round part)) cs =
        { cs with outbox := outbox } := by
  induction parts generalizing cs with
  | nil =>
      exact ⟨cs.outbox, rfl⟩
  | cons part rest inductionHypothesis =>
      obtain ⟨outbox, sent⟩ := inductionHypothesis
        (cs.sendInternalMessage (.blockPart cs.height cs.round part))
      exact ⟨outbox, sent⟩

/-- decideProposal only sends the proposal and its parts. -/
theorem decideProposal_eq
    {cs next : ConsensusState}
    {now : Time}
    {height round : Nat}
    {privValidator : PrivValidator}
    (decided : decideProposal env cs now height round privValidator = .ok next) :
    ∃ outbox, next = { cs with outbox := outbox } := by
  unfold decideProposal at decided
  obtain ⟨chosen, -, sent⟩ := Runs.map_eq_ok decided
  subst sent
  cases chosen with
  | none =>
      exact ⟨cs.outbox, rfl⟩
  | some chosen =>
      obtain ⟨outbox, sent⟩ := foldl_sendInternalMessage_eq _ _
      exact ⟨outbox, sent⟩

/-- The proposer's part of enterPropose only sends messages. -/
theorem proposeBody_eq
    {cs next : ConsensusState}
    {now : Time}
    {height round : Nat}
    (proposed : proposeBody env cs now height round = .ok next) :
    ∃ outbox, next = { cs with outbox := outbox } := by
  unfold proposeBody at proposed
  split at proposed
  · cases proposed
    exact ⟨cs.outbox, rfl⟩
  · split_ifs at proposed
    · cases proposed
      exact ⟨cs.outbox, rfl⟩
    · obtain ⟨proposer, -, decided⟩ := Runs.bind_eq_ok proposed
      split_ifs at decided
      · exact decideProposal_eq decided
      · cases decided
        exact ⟨cs.outbox, rfl⟩

end ConsensusState

/-! ## Majorities -/

/-- TwoThirdsMajority of a possibly nil vote set is (B, true) exactly when B is its majority. -/
theorem VoteSet.majorityOf_eq_true_iff
    {voteSet : Option VoteSet}
    {blockID : BlockID} :
    VoteSet.majorityOf voteSet = (blockID, true) ↔ voteSet.bind VoteSet.maj23 = some blockID := by
  cases voteSet with
  | none =>
      simp [majorityOf]
  | some voteSet =>
      cases found : voteSet.maj23 <;> simp [majorityOf, twoThirdsMajority, found]

/-- A majority that TwoThirdsMajority reports is kept by every operation that keeps vote sets. -/
theorem HeightVoteSet.Keeps.majorityOf
    {old new : HeightVoteSet}
    {round : Nat}
    {signedMsgType : SignedMsgType}
    {blockID : BlockID}
    (kept : old.Keeps new)
    (found : VoteSet.majorityOf (old.getVoteSet round signedMsgType) = (blockID, true)) :
    VoteSet.majorityOf (new.getVoteSet round signedMsgType) = (blockID, true) :=
  VoteSet.majorityOf_eq_true_iff.mpr (kept.majority (VoteSet.majorityOf_eq_true_iff.mp found))

/-! ## Moving to the next height -/

/--
The block a node finalizes passed validateBlock against its state, so the
state ApplyBlock returns for it is the node's own state (when interrupted)
or one whose next height is one above the node's.
-/
theorem LatestBlockState.nextHeight_of_applyBlock
    {scheme : SignatureScheme}
    {blockExec : BlockExecutor}
    {state updated : LatestBlockState}
    {blockID : BlockID}
    {block : Block}
    {height : Nat}
    (accepted :
      validateBlock scheme blockExec.hashing blockExec.checkEvidence state block = .ok none)
    (applied : blockExec.applyBlock scheme state blockID block = .ok (updated, height, none)) :
    updated = state ∨ updated.nextHeight = state.nextHeight + 1 := by
  rcases BlockExecutor.applyBlock_eq_ok applied with unchanged | ⟨lastHeight, -⟩
  · exact Or.inl unchanged
  · right
    obtain ⟨nextHeight, initialBlock, -⟩ := validateBlock_eq_ok_none accepted
    unfold LatestBlockState.nextHeight
    by_cases first : state.lastBlockHeight = 0
    · have atInitial := initialBlock first
      simp only [lastHeight, first]
      split_ifs <;> omega
    · simp only [lastHeight]
      split_ifs <;> omega

end Kardia
