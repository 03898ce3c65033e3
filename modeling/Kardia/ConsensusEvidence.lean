import Kardia.ConsensusSafety

namespace Kardia

/-!
# Evidence that consensus makes

tryAddVote makes DuplicateVoteEvidence of the conflicting votes of another
validator and puts it into the pool as pending, without verifying it.  Above
the initial height it stamps the evidence with the median time of the
node's last commit, the precommits of the height before the node's, while
Pool.verify wants the time of the block stored at the votes' height.  The
two agree only by chance: for a conflicting precommit of the last height the
median is this node's view of the time of the next block, and the
precommits of a block are signed after its time.

This module derives the time Pool.verify requires of such evidence, and
runs a node of height 3 that makes evidence of a double-signed precommit
of height 2.  Pool.verify rejects that evidence at the node itself, and
CheckEvidence rejects it at a node that does not have it pending.
-/

namespace ConsensusState

/-- Above the initial height, tryAddVote's evidence has the median time of the node's last commit. -/
theorem conflictEvidence_eq_some
    {cs : ConsensusState}
    {voteA voteB : Vote}
    {evidence : DuplicateVoteEvidence}
    (made : conflictEvidence cs voteA voteB = .ok (some evidence))
    (aboveInitial : voteA.height ≠ cs.state.initialHeight) :
    ∃ lastCommit commit,
      cs.lastCommit = some lastCommit ∧ lastCommit.makeCommit = .ok commit ∧
        DuplicateVoteEvidence.newDuplicateVoteEvidence voteA voteB
            (medianTime commit cs.lastValidators) cs.validators = some evidence := by
  unfold conflictEvidence at made
  dsimp only at made
  rw [if_neg aboveInitial] at made
  obtain ⟨timestamp, stamped, built⟩ := Runs.map_eq_ok made
  split at stamped
  · cases stamped
  · rename_i lastCommit hasLast
    obtain ⟨commit, madeCommit, rfl⟩ := Runs.map_eq_ok stamped
    exact ⟨lastCommit, commit, hasLast, madeCommit, built⟩

/--
Pool.verify accepts evidence that tryAddVote made above the initial height
only if the median time of the node's last commit is the time of the block
stored at the evidence's height.
-/
theorem conflictEvidence_verified_only_at_median
    {cs : ConsensusState}
    {voteA voteB : Vote}
    {evidence : DuplicateVoteEvidence}
    {scheme : SignatureScheme}
    {stores : EvidenceStores}
    {pool : Pool}
    (made : conflictEvidence cs voteA voteB = .ok (some evidence))
    (aboveInitial : voteA.height ≠ cs.state.initialHeight)
    (verified : pool.verify scheme stores evidence = .ok ()) :
    ∃ lastCommit commit header,
      cs.lastCommit = some lastCommit ∧ lastCommit.makeCommit = .ok commit ∧
        stores.loadBlockMeta evidence.height = some header ∧
        medianTime commit cs.lastValidators = header.time := by
  obtain ⟨lastCommit, commit, hasLast, madeCommit, built⟩ :=
    conflictEvidence_eq_some made aboveInitial
  obtain ⟨header, -, stored, sameTime, -⟩ := Pool.verify_eq_ok_iff.mp verified
  refine ⟨lastCommit, commit, header, hasLast, madeCommit, stored, ?_⟩
  rw [← sameTime, timestamp_of_newDuplicateVoteEvidence built]

/-! ## A node that makes evidence no one accepts -/

namespace StaleEvidence

/-- One validator, address 1, of power one. -/
def validators : ValidatorSet :=
  ⟨[⟨⟨1⟩, 1, 0⟩], none, 1⟩

/-- A node whose key, address 2, is not a validator's. -/
def environment : Environment where
  scheme := KeyCollision.scheme
  privValidator := some ⟨⟨2⟩, KeyCollision.signedBy ⟨2⟩⟩
  config := ⟨true, 0, false⟩
  blockExec := ⟨GenesisBlock.hashing, fun _ => none, SoloNode.application, false⟩
  createProposalBlock := fun _ _ _ _ => none
  decodeBlock := fun _ => .error "no block"
  verifyPart := fun _ _ => false

/-- Block 2. -/
def committed : BlockID :=
  ⟨⟨7⟩, ⟨1, ⟨9⟩⟩⟩

/-- Another block of height 2. -/
def other : BlockID :=
  ⟨⟨8⟩, ⟨1, ⟨9⟩⟩⟩

/-- The validator's precommit of height 2, round 1, at time 20, signed with its key. -/
def signedPrecommit (blockID : BlockID) : Vote :=
  let unsigned : Vote :=
    { validatorAddress := ⟨1⟩
      validatorIndex := 0
      height := 2
      round := 1
      timestamp := ⟨20⟩
      type := .precommitType
      blockID := blockID
      signature := [] }
  { unsigned with
    signature := KeyCollision.signedBy ⟨1⟩ (voteSignBytes KeyCollision.scheme "kardia" unsigned) }

/-- The seen commit of block 2: the validator's precommit. -/
def seenCommit : Commit :=
  ⟨committed, [⟨.commit, ⟨1⟩, ⟨20⟩, (signedPrecommit committed).signature⟩], 2, 1⟩

/-- The state after block 2, whose time is 10. -/
def state : LatestBlockState where
  chainID := "kardia"
  initialHeight := 1
  lastBlockHeight := 2
  lastBlockID := committed
  lastBlockTime := ⟨10⟩
  nextValidators := validators
  validators := validators
  lastValidators := validators
  lastHeightValidatorsChanged := 0
  appHash := Hash.zero
  consensusParams := GenesisBlock.state.consensusParams

/-- The node's evidence pool at that state, empty. -/
def pool : Pool :=
  ⟨state, [], []⟩

/-- The stores of the chain: block 2 at time 10 and the one validator set. -/
def stores : EvidenceStores where
  loadBlockMeta height :=
    if height = 2 then some { GenesisBlock.block.header with height := 2, time := ⟨10⟩ } else none
  loadValidators _ := .ok validators

end StaleEvidence

open StaleEvidence in
/--
A node at height 3 receives a second precommit of height 2, correctly signed
by the validator that committed block 2, for another block.  tryAddVote puts
the evidence into the pool with the time 20 of the node's last commit;
block 2 has the time 10.  Pool.verify rejects the evidence at the node
itself, and CheckEvidence rejects it at a node that does not have it pending.
-/
theorem consensus_evidence_rejected :
    ∃ node next evidence,
      newConsensusState environment StaleEvidence.state (some seenCommit) pool 2 = .ok node ∧
        receive environment node (.message ⟨30⟩ (.vote (signedPrecommit other)) "peer") =
          .ok next ∧
        conflictEvidence node (signedPrecommit committed) (signedPrecommit other) =
          .ok (some evidence) ∧
        Pool.key environment.blockExec.hashing evidence ∈ next.evpool.pending ∧
        next.evpool.verify environment.scheme stores evidence =
          .error "evidence has a different time to the block it is associated with" ∧
        (Pool.checkEvidence environment.scheme environment.blockExec.hashing stores pool
            [evidence]).2 =
          some "evidence has a different time to the block it is associated with" := by
  refine ⟨_, _, _, rfl, rfl, rfl, ?_, ?_, ?_⟩
  · decide
  -- the median time goes through List.mergeSort, which only the kernel unfolds
  · decide +kernel
  · decide +kernel

end ConsensusState

end Kardia
