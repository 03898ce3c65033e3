import Kardia.ConsensusSafety

namespace Kardia

/-!
# Agreement between nodes

A node finalizes its proposal block when its precommits of the commit round
have a +2/3 majority for the block's hash (finalizeCommit_finalized).  Who
signed those precommits, and as what, is checked only through the vote's
signature over its sign bytes, and the sign bytes carry no vote type
(Kardia.Canonical).  The prevote of a validator, relabelled as a precommit,
is therefore counted as that validator's precommit.

With that, two correct nodes finalize different blocks at one height.  Three
validators X, Y and W have the powers 1, 2 and 1; only W, with a quarter of
the power, is faulty.  In round 1 X and Y prevote W's block B.  X sees Y's
prevote and precommits B; Y sees W's nil prevote instead of X's prevote,
times out and precommits nil.  X receives Y's prevote relabelled as a
precommit and commits B with 3 of 4.  Y, never locked, prevotes and
precommits W's block B' of round 2 together with W and commits B'.
-/

namespace ConsensusState

variable {env : Environment}

/-! ## What a commit rests on -/

/-- updateToState keeps the blocks the node has finalized. -/
theorem updateToState_finalized
    {cs next : ConsensusState}
    {state : LatestBlockState}
    (updated : cs.updateToState state = .ok next) :
    next.finalized = cs.finalized := by
  rcases updateToState_eq updated with rfl | ⟨-, lastCommit, reset⟩
  · rfl
  · unfold resetToState at reset
    obtain ⟨votes, -, rfl⟩ := Runs.map_eq_ok reset
    rfl

/-- commitBlock appends the block to the blocks the node has finalized. -/
theorem commitBlock_finalized
    {cs next : ConsensusState}
    {block : Block}
    {precommits : VoteSet}
    (committed : commitBlock env cs block precommits = .ok next) :
    next.finalized = cs.finalized ++ [block] := by
  unfold commitBlock at committed
  obtain ⟨saved, savedOk, applied⟩ := Runs.bind_eq_ok committed
  have savedFinalized : saved.finalized = cs.finalized ++ [block] := by
    split at savedOk
    · obtain ⟨_, -, rfl⟩ := Runs.map_eq_ok savedOk
      rfl
    · cases savedOk
      rfl
  split at applied
  · cases applied
  · cases applied
  · obtain ⟨updated, updatedOk, rfl⟩ := Runs.map_eq_ok applied
    calc (updated.scheduleTimeout updated.height 1 .newHeight).finalized
        = updated.finalized := rfl
      _ = saved.finalized := updateToState_finalized updatedOk
      _ = cs.finalized ++ [block] := savedFinalized

/--
finalizeCommit finalizes a block only as the node's proposal block, when the
node's precommits of the commit round have a +2/3 majority for its hash.
-/
theorem finalizeCommit_finalized
    {cs next : ConsensusState}
    {height : Nat}
    (finalized : finalizeCommit env cs height = .ok next) :
    next = cs ∨
      ∃ block precommits blockID,
        cs.proposalBlock = some block ∧
          cs.votes.precommits cs.commitRound = some precommits ∧
          precommits.maj23 = some blockID ∧
          hashesTo env (some block) blockID.hash = true ∧
          next.finalized = cs.finalized ++ [block] := by
  unfold finalizeCommit at finalized
  split at finalized
  · cases finalized
    exact Or.inl rfl
  right
  -- every check before the commit either passes or fails the call
  split at finalized
  · cases finalized
  rename_i precommits hasPrecommits
  split at finalized
  · cases finalized
  rename_i blockID hasMajority
  split at finalized
  · cases finalized
  split at finalized
  · cases finalized
  rename_i block hasBlock
  split at finalized
  · cases finalized
  rename_i hashes
  split at finalized
  · cases finalized
  · cases finalized
  · refine ⟨block, precommits, blockID, hasBlock, hasPrecommits, hasMajority, ?_,
      commitBlock_finalized finalized⟩
    simpa using hashes

/-! ## Two nodes that finalize different blocks -/

namespace ForgedPrecommit

/-- X, the first correct validator. -/
def validatorX : Validator :=
  ⟨⟨1⟩, 1, 0⟩

/-- Y, the second correct validator, with half of the power. -/
def validatorY : Validator :=
  ⟨⟨2⟩, 2, 0⟩

/-- W, the faulty validator, which proposes in every round. -/
def validatorW : Validator :=
  ⟨⟨3⟩, 1, 0⟩

/-- The validator set of the chain, of total power 4, with W as the proposer. -/
def validators : ValidatorSet :=
  ⟨[validatorX, validatorY, validatorW], some validatorW, 4⟩

/-- Hash functions that tell blocks apart by their gas limit and give zero otherwise. -/
def hashing : Hashing :=
  { GenesisBlock.hashing with headerHash := fun header => ⟨header.gasLimit + 7⟩ }

/-- The genesis state with the three validators. -/
def genesis : LatestBlockState :=
  { GenesisBlock.state with
    nextValidators := validators
    validators := validators
    lastValidators := validators }

/-- W's block of round 1: a valid first block with the empty last commit. -/
def blockB : Block :=
  { GenesisBlock.block with
    header := { GenesisBlock.block.header with numTxs := 0, proposerAddress := ⟨3⟩ }
    lastCommit := some (Commit.newCommit 0 0 BlockID.zero []) }

/-- W's block of round 2, another valid first block. -/
def blockB' : Block :=
  { blockB with header := { blockB.header with gasLimit := 1 } }

/--
The node of the validator with an address: blocks arrive in one part, whose
byte names the block.
-/
def node (address : Nat) : Environment where
  scheme := KeyCollision.scheme
  privValidator := some ⟨⟨address⟩, KeyCollision.signedBy ⟨address⟩⟩
  config := ⟨true, 0, false⟩
  blockExec := ⟨hashing, fun _ => none, SoloNode.application, false⟩
  createProposalBlock := fun _ _ _ _ => none
  decodeBlock := fun bytes => if bytes = [2] then .ok blockB' else .ok blockB
  verifyPart := fun _ _ => true

/-- An empty evidence pool at genesis. -/
def pool : Pool :=
  ⟨genesis, [], []⟩

/-- The one part of a block. -/
def part (byte : UInt8) : Part :=
  ⟨0, [byte], default⟩

/-- The identifier of a block of one part. -/
def blockID (block : Block) : BlockID :=
  ⟨hashing.headerHash block.header, ⟨1, ⟨5⟩⟩⟩

/-- W's proposal of a block in a round, signed with W's key. -/
def proposal (round : Nat) (block : Block) : Proposal :=
  let unsigned : Proposal := ⟨1, round, 0, ⟨0⟩, blockID block, []⟩
  { unsigned with
    signature := KeyCollision.signedBy ⟨3⟩ (proposalSignBytes KeyCollision.scheme "kardia" unsigned) }

/-- The vote of the validator at an index, at height 1, signed with its key. -/
def vote (index round : Nat) (type : SignedMsgType) (blockID : BlockID) (time : Int) : Vote :=
  let unsigned : Vote :=
    { validatorAddress := ⟨index + 1⟩
      validatorIndex := index
      height := 1
      round := round
      timestamp := ⟨time⟩
      type := type
      blockID := blockID
      signature := [] }
  { unsigned with
    signature :=
      KeyCollision.signedBy ⟨index + 1⟩ (voteSignBytes KeyCollision.scheme "kardia" unsigned) }

/-- Y's prevote for B in round 1. -/
def prevoteY : Vote :=
  vote 1 1 .prevoteType (blockID blockB) 1000

/-- Y's prevote for B relabelled as a precommit, with Y's signature kept. -/
def relabelled : Vote :=
  { prevoteY with type := .precommitType }

/-- W's proposal and the one part of its block for a round. -/
def proposed (round : Nat) (block : Block) (byte : UInt8) : List ConsensusInput :=
  [.message ⟨0⟩ (.proposal (proposal round block)) "w",
    .message ⟨0⟩ (.blockPart 1 round (part byte)) "w"]

end ForgedPrecommit

end ConsensusState

end Kardia
