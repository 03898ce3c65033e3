import Kardia.EvidencePool
import Kardia.HeightVoteSet
import Kardia.PartSet

namespace Kardia

/-!
# The consensus state machine

The model of consensus/state.go: one node's ConsensusState, the round step
functions enterNewRound to finalizeCommit, the handling of proposals, block
parts and votes, and the handling of timeouts.

A node is driven by three kinds of input: a message from a peer or from its
own internal queue (handleMsg), a timeout from its ticker (handleTimeout) and
a peer's +2/3 claim that the reactor passes to the height vote set.  Every
input is handled to the end before the next, as receiveRoutine does under the
state's lock.

Side effects are recorded in the state: every call of signAddVote in the sign
log, every message put on the internal queue in the outbox, every timeout
scheduled, and every block finalized.  The ticker is over-approximated: any
timeout ever scheduled may fire, any number of times.  A panic, and the kill
after a failed ApplyBlock, stop the node: they are the error of Except.

The third-party parts of a node are the parameters of an environment: the
signature scheme and the node's key, the block executor, the block store's
CreateProposalBlock, the decoding of a block from its parts and the Merkle
proof check of a part.  The current time is part of every input.
-/

/-- cstypes.RoundStepType. -/
inductive RoundStepType where
  | newHeight
  | newRound
  | propose
  | prevote
  | prevoteWait
  | precommit
  | precommitWait
  | commit
  deriving DecidableEq, Repr

namespace RoundStepType

/-- The value of the step, from 1 to 8. -/
def toNat : RoundStepType → Nat
  | .newHeight => 1
  | .newRound => 2
  | .propose => 3
  | .prevote => 4
  | .prevoteWait => 5
  | .precommit => 6
  | .precommitWait => 7
  | .commit => 8

instance : LE RoundStepType :=
  ⟨fun first second => first.toNat ≤ second.toNat⟩

instance : LT RoundStepType :=
  ⟨fun first second => first.toNat < second.toNat⟩

instance (first second : RoundStepType) : Decidable (first ≤ second) :=
  inferInstanceAs (Decidable (first.toNat ≤ second.toNat))

instance (first second : RoundStepType) : Decidable (first < second) :=
  inferInstanceAs (Decidable (first.toNat < second.toNat))

end RoundStepType

/-- CompareHRS: the order of heights, then rounds, then steps, as -1, 0 or 1. -/
def compareHRS (h1 r1 : Nat) (s1 : RoundStepType) (h2 r2 : Nat) (s2 : RoundStepType) : Int :=
  if h1 < h2 then
    -1
  else if h1 > h2 then
    1
  else if r1 < r2 then
    -1
  else if r1 > r2 then
    1
  else if s1 < s2 then
    -1
  else if s1 > s2 then
    1
  else
    0

/-! ## Messages -/

/-- The messages handleMsg accepts. -/
inductive ConsensusMessage where
  | proposal (proposal : Proposal)
  | blockPart (height round : Nat) (part : Part)
  | vote (vote : Vote)
  deriving DecidableEq, Repr

/-- A timeout of the ticker, timeoutInfo without its duration. -/
structure TimeoutInfo where
  height : Nat
  round : Nat
  step : RoundStepType
  deriving DecidableEq, Repr

/--
One call of signAddVote: the height, round and type it was called at, and
the vote it signed, if the node is a validator.
-/
structure SignRecord where
  height : Nat
  round : Nat
  type : SignedMsgType
  vote : Option Vote
  deriving DecidableEq, Repr

/-- A validator's key: its address and the signature it makes over sign bytes. -/
structure PrivValidator where
  address : Address
  sign : List UInt8 → Signature

/-- The consensus settings the state machine reads. -/
structure ConsensusConfig where
  isCreateEmptyBlocks : Bool
  createEmptyBlocksInterval : Nat
  isSkipTimeoutCommit : Bool

/-- ConsensusConfig.WaitForTxs. -/
def ConsensusConfig.waitForTxs (config : ConsensusConfig) : Bool :=
  !config.isCreateEmptyBlocks || 0 < config.createEmptyBlocksInterval

/-- The parts of a node outside this model. -/
structure Environment where
  scheme : SignatureScheme
  privValidator : Option PrivValidator
  config : ConsensusConfig
  blockExec : BlockExecutor
  createProposalBlock : Nat → LatestBlockState → Address → Commit → Option (Block × PartSet)
  decodeBlock : List UInt8 → Except String Block
  verifyPart : Hash → Part → Bool

/-- ConsensusState with its RoundState, flattened, and the recorded effects. -/
structure ConsensusState where
  height : Nat
  round : Nat
  step : RoundStepType
  validators : ValidatorSet
  proposal : Option Proposal
  proposalBlock : Option Block
  proposalBlockParts : Option PartSet
  lockedRound : Nat
  lockedBlock : Option Block
  lockedBlockParts : Option PartSet
  validRound : Nat
  validBlock : Option Block
  validBlockParts : Option PartSet
  votes : HeightVoteSet
  commitRound : Nat
  lastCommit : Option VoteSet
  lastValidators : ValidatorSet
  triggeredTimeoutPrecommit : Bool
  state : LatestBlockState
  evpool : Pool
  blockStoreHeight : Nat
  signLog : List SignRecord
  outbox : List ConsensusMessage
  timeouts : List TimeoutInfo
  finalized : List Block

/-- The height the next block has after a state: its initial height after none. -/
def LatestBlockState.nextHeight (state : LatestBlockState) : Nat :=
  if state.lastBlockHeight + 1 = 1 then state.initialHeight else state.lastBlockHeight + 1

/-- The errors tryAddVote returns. -/
inductive TryAddVoteError where
  | conflictingVotes (voteA voteB : Vote)
  | addingVote
  deriving DecidableEq, Repr

/-! ## Proposer selection -/

/-- Validator.CompareProposerPriority: the higher priority, then the lower address. -/
def Validator.compareProposerPriority (current : Option Validator) (other : Validator) :
    Except String Validator :=
  match current with
  | none => .ok other
  | some current =>
      if current.proposerPriority > other.proposerPriority then
        .ok current
      else if current.proposerPriority < other.proposerPriority then
        .ok other
      else if current.address.val < other.address.val then
        .ok current
      else if current.address.val > other.address.val then
        .ok other
      else
        .error "Cannot compare identical validators"

/-- ValidatorSet.findProposer. -/
def ValidatorSet.findProposer (validators : List Validator) : Except String (Option Validator) :=
  validators.foldlM
    (fun proposer val =>
      match proposer with
      | some current =>
          if val.address = current.address then
            .ok proposer
          else
            (Validator.compareProposerPriority proposer val).map some
      | none => (Validator.compareProposerPriority proposer val).map some)
    none

/-- ValidatorSet.GetProposer: nil for an empty set, else the cached or found proposer. -/
def ValidatorSet.getProposer (valSet : ValidatorSet) : Except String (Option Validator) :=
  if valSet.validators.isEmpty then
    .ok none
  else
    match valSet.proposer with
    | some proposer => .ok (some proposer)
    | none => ValidatorSet.findProposer valSet.validators

namespace ConsensusState

variable (env : Environment)

/-! ## Helpers -/

/-- updateRoundStep. -/
def updateRoundStep (cs : ConsensusState) (round : Nat) (step : RoundStepType) :
    ConsensusState :=
  { cs with round := round, step := step }

/-- scheduleTimeout: the ticker may fire it from now on. -/
def scheduleTimeout (cs : ConsensusState) (height round : Nat) (step : RoundStepType) :
    ConsensusState :=
  { cs with timeouts := cs.timeouts ++ [⟨height, round, step⟩] }

/-- sendInternalMessage. -/
def sendInternalMessage (cs : ConsensusState) (msg : ConsensusMessage) : ConsensusState :=
  { cs with outbox := cs.outbox ++ [msg] }

/-- The hash of a block, Block.Hash. -/
def blockHash (block : Block) : Hash :=
  block.hash env.blockExec.hashing

/-- Block.HashesTo for a possibly nil block. -/
def hashesTo (block : Option Block) (hash : Hash) : Bool :=
  Block.hashesTo env.blockExec.hashing block hash

/-- BlockExecutor.ValidateBlock against the node's state. -/
def validateProposal (cs : ConsensusState) (block : Block) :
    Except String (Option ValidateBlockError) :=
  validateBlock env.scheme env.blockExec.hashing env.blockExec.checkEvidence cs.state block

/--
isProposalComplete: a proposal and its block, and the POL prevotes if the
proposal names a POL round.
-/
def isProposalComplete (cs : ConsensusState) : Bool :=
  match cs.proposal, cs.proposalBlock with
  | some proposal, some _ =>
      proposal.polRound < 1 ||
        (cs.votes.prevotes proposal.polRound).any VoteSet.hasTwoThirdsMajority
  | _, _ => false

/--
voteTime: now, but after the locked or proposed block's time by the time
iota, which the code adds as nanoseconds.
-/
def voteTime (cs : ConsensusState) (now : Time) : Time :=
  let timeIota := cs.state.consensusParams.block.timeIotaMs
  let minVoteTime :=
    match cs.lockedBlock, cs.proposalBlock with
    | some locked, _ => ⟨locked.header.time.nanos + timeIota⟩
    | none, some proposed => ⟨proposed.header.time.nanos + timeIota⟩
    | none, none => now
  if now.after minVoteTime then now else minVoteTime

/--
signVote: the vote of this node at its height and round.  signAddVote calls
it only for a node in the validator set, whose index GetByAddress finds.
-/
def signVote
    (privValidator : PrivValidator)
    (cs : ConsensusState)
    (now : Time)
    (signedMsgType : SignedMsgType)
    (hash : Hash)
    (header : PartSetHeader) :
    Vote :=
  let unsigned : Vote :=
    { validatorAddress := privValidator.address
      validatorIndex := (cs.validators.getByAddress privValidator.address).1.toNat
      height := cs.height
      round := cs.round
      timestamp := cs.voteTime now
      type := signedMsgType
      blockID := ⟨hash, header⟩
      signature := [] }
  { unsigned with
    signature := privValidator.sign (voteSignBytes env.scheme cs.state.chainID unsigned) }

/--
signAddVote: a node with a key in the validator set signs the vote and puts
it on its internal queue.  Every call is recorded in the sign log.
-/
def signAddVote
    (cs : ConsensusState)
    (now : Time)
    (signedMsgType : SignedMsgType)
    (hash : Hash)
    (header : PartSetHeader) :
    ConsensusState :=
  let logged (vote : Option Vote) : ConsensusState :=
    { cs with signLog := cs.signLog ++ [⟨cs.height, cs.round, signedMsgType, vote⟩] }
  match env.privValidator with
  | none => logged none
  | some privValidator =>
      if !cs.validators.hasAddress privValidator.address then
        logged none
      else
        let vote := signVote env privValidator cs now signedMsgType hash header
        (logged (some vote)).sendInternalMessage (.vote vote)

/-- The nil vote: the zero hash and the zero part-set header. -/
def signNilVote (cs : ConsensusState) (now : Time) (signedMsgType : SignedMsgType) :
    ConsensusState :=
  signAddVote env cs now signedMsgType Hash.zero ⟨0, Hash.zero⟩

/-- Clear the lock, as the three unlock paths do. -/
def unlock (cs : ConsensusState) : ConsensusState :=
  { cs with lockedRound := 0, lockedBlock := none, lockedBlockParts := none }

/-! ## Entering round steps -/

/--
doPrevote: the locked block if locked, else the proposal block if it
validates, else nil.
-/
def doPrevote (cs : ConsensusState) (now : Time) : Except String ConsensusState :=
  match cs.lockedBlock with
  | some locked =>
      .ok (signAddVote env cs now .prevoteType (blockHash env locked)
        (PartSet.header cs.lockedBlockParts))
  | none =>
      match cs.proposalBlock with
      | none => .ok (signNilVote env cs now .prevoteType)
      | some proposed =>
          match validateProposal env cs proposed with
          | .error panic => .error panic
          | .ok (some _) => .ok (signNilVote env cs now .prevoteType)
          | .ok none =>
              .ok (signAddVote env cs now .prevoteType (blockHash env proposed)
                (PartSet.header cs.proposalBlockParts))

/-- enterPrevote. -/
def enterPrevote (cs : ConsensusState) (now : Time) (height round : Nat) :
    Except String ConsensusState :=
  if cs.height ≠ height ∨ round < cs.round ∨ (cs.round = round ∧ .prevote ≤ cs.step) then
    .ok cs
  else
    (doPrevote env cs now).map fun cs => cs.updateRoundStep round .prevote

/-- enterPrevoteWait, which panics without +2/3 prevotes for anything. -/
def enterPrevoteWait (cs : ConsensusState) (height round : Nat) :
    Except String ConsensusState :=
  if cs.height ≠ height ∨ round < cs.round ∨ (cs.round = round ∧ .prevoteWait ≤ cs.step) then
    .ok cs
  else if !VoteSet.anyOf (cs.votes.prevotes round) then
    .error "enterPrevoteWait, but Prevotes does not have any +2/3 votes"
  else
    .ok ((cs.scheduleTimeout height round .prevoteWait).updateRoundStep round .prevoteWait)

/--
The body of enterPrecommit: precommit nil without a polka; with a polka for
nil unlock and precommit nil; with a polka for the locked block relock; for
the proposal block lock it; for an unknown block unlock, fetch it and
precommit nil.
-/
def precommitBody (cs : ConsensusState) (now : Time) (round : Nat) :
    Except String ConsensusState :=
  let (blockID, ok) := VoteSet.majorityOf (cs.votes.prevotes round)
  if !ok then
    .ok (signNilVote env cs now .precommitType)
  else if cs.votes.polInfo.1 < round then
    .error "This POLRound should be the round"
  else if blockID.isZero then
    let cs := if cs.lockedBlock.isSome then cs.unlock else cs
    .ok (signNilVote env cs now .precommitType)
  else if hashesTo env cs.lockedBlock blockID.hash then
    .ok (signAddVote env { cs with lockedRound := round } now .precommitType blockID.hash
      blockID.partsHeader)
  else if hashesTo env cs.proposalBlock blockID.hash then
    let cs :=
      { cs with
        lockedRound := round
        lockedBlock := cs.proposalBlock
        lockedBlockParts := cs.proposalBlockParts }
    .ok (signAddVote env cs now .precommitType blockID.hash blockID.partsHeader)
  else
    let cs := cs.unlock
    let cs :=
      if !PartSet.hasHeader cs.proposalBlockParts blockID.partsHeader then
        { cs with
          proposalBlock := none
          proposalBlockParts := some (PartSet.newPartSetFromHeader blockID.partsHeader) }
      else
        cs
    .ok (signNilVote env cs now .precommitType)

/-- enterPrecommit. -/
def enterPrecommit (cs : ConsensusState) (now : Time) (height round : Nat) :
    Except String ConsensusState :=
  if cs.height ≠ height ∨ round < cs.round ∨ (cs.round = round ∧ .precommit ≤ cs.step) then
    .ok cs
  else
    (precommitBody env cs now round).map fun cs => cs.updateRoundStep round .precommit

/-- enterPrecommitWait, which panics without +2/3 precommits for anything. -/
def enterPrecommitWait (cs : ConsensusState) (height round : Nat) :
    Except String ConsensusState :=
  if cs.height ≠ height ∨ round ≠ cs.round ∨ (cs.round = round ∧ cs.triggeredTimeoutPrecommit) then
    .ok cs
  else if !VoteSet.anyOf (cs.votes.precommits round) then
    .error "enterPrecommitWait, but Precommits does not have any +2/3 votes"
  else
    .ok { cs.scheduleTimeout height round .precommitWait with triggeredTimeoutPrecommit := true }

/-- isProposer: whether this node's address is the proposer's. -/
def isProposer (cs : ConsensusState) (privValidator : PrivValidator) : Except String Bool :=
  (ValidatorSet.getProposer cs.validators).bind fun proposer =>
    match proposer with
    | none => .error nilDereference
    | some proposer => .ok (proposer.address == privValidator.address)

/--
createProposalBlock: the empty commit at the initial height, else the
commit of the last precommits if they have a majority, and the block the
block store builds on it.
-/
def createProposalBlock (cs : ConsensusState) (privValidator : PrivValidator) :
    Except String (Option (Block × PartSet)) :=
  let commit : Except String (Option Commit) :=
    if cs.height = cs.state.initialHeight then
      .ok (some (Commit.newCommit 0 0 BlockID.zero []))
    else
      match cs.lastCommit with
      | some lastCommit =>
          if lastCommit.hasTwoThirdsMajority then lastCommit.makeCommit.map some else .ok none
      | none => .ok none
  commit.map fun commit =>
    commit.bind fun commit =>
      env.createProposalBlock cs.height cs.state privValidator.address commit

/--
decideProposal: the valid block or a new one, signed as a proposal with the
valid round and sent with its parts on the internal queue.
-/
def decideProposal
    (cs : ConsensusState)
    (now : Time)
    (height round : Nat)
    (privValidator : PrivValidator) :
    Except String ConsensusState :=
  let chosen : Except String (Option (Block × Option PartSet)) :=
    match cs.validBlock with
    | some block => .ok (some (block, cs.validBlockParts))
    | none =>
        (createProposalBlock env cs privValidator).map
          (Option.map fun (block, parts) => (block, some parts))
  chosen.map fun
    | none => cs
    | some (block, blockParts) =>
        let unsigned : Proposal :=
          { height := height
            round := round
            polRound := cs.validRound
            timestamp := now
            polBlockID := ⟨blockHash env block, PartSet.header blockParts⟩
            signature := [] }
        let proposal :=
          { unsigned with
            signature :=
              privValidator.sign (proposalSignBytes env.scheme cs.state.chainID unsigned) }
        let parts := (blockParts.map fun partSet => partSet.parts.filterMap id).getD []
        parts.foldl (fun cs part => cs.sendInternalMessage (.blockPart cs.height cs.round part))
          (cs.sendInternalMessage (.proposal proposal))

/-- The body of enterPropose after the propose timeout: propose if it is our turn. -/
def proposeBody (cs : ConsensusState) (now : Time) (height round : Nat) :
    Except String ConsensusState :=
  match env.privValidator with
  | none => .ok cs
  | some privValidator =>
      if !cs.validators.hasAddress privValidator.address then
        .ok cs
      else
        (isProposer cs privValidator).bind fun proposer =>
          if proposer then decideProposal env cs now height round privValidator else .ok cs

/--
enterPropose: schedule the propose timeout, propose if it is our turn, and
go on to prevote at once if the proposal is already complete.
-/
def enterPropose (cs : ConsensusState) (now : Time) (height round : Nat) :
    Except String ConsensusState :=
  if cs.height ≠ height ∨ round < cs.round ∨ (cs.round = round ∧ .propose ≤ cs.step) then
    .ok cs
  else
    (proposeBody env (cs.scheduleTimeout height round .propose) now height round).bind
      fun cs =>
        -- the deferred end of enterPropose
        let cs := cs.updateRoundStep round .propose
        if cs.isProposalComplete then enterPrevote env cs now height cs.round else .ok cs

/--
The end of enterNewRound: in round 1 a node that waits for transactions
only schedules the create-empty-blocks timeout, if there is one; otherwise
it enters the propose step.
-/
def proposeOrWaitForTxs (cs : ConsensusState) (now : Time) (height round : Nat) :
    Except String ConsensusState :=
  if env.config.waitForTxs && round == 1 then
    .ok (if 0 < env.config.createEmptyBlocksInterval then
      cs.scheduleTimeout height round .newRound else cs)
  else
    enterPropose env cs now height round

/--
enterNewRound: move to the round, rotate the proposer by the rounds
skipped, track the next round's votes, and propose unless waiting for
transactions in round 1.
-/
def enterNewRound (cs : ConsensusState) (now : Time) (height round : Nat) :
    Except String ConsensusState :=
  if cs.height ≠ height ∨ round < cs.round ∨ (cs.round = round ∧ cs.step ≠ .newHeight) then
    .ok cs
  else
    let validators :=
      if cs.round < round then
        env.blockExec.application.incrementProposerPriority cs.validators (round - cs.round)
      else
        cs.validators
    let cs := { cs.updateRoundStep round .newRound with validators := validators }
    let cs :=
      if round = 1 then cs else { cs with proposal := none, proposalBlock := none, proposalBlockParts := none }
    (cs.votes.setRound (round + 1)).bind fun votes =>
      proposeOrWaitForTxs env { cs with votes := votes, triggeredTimeoutPrecommit := false } now
        height round

/-! ## Moving to the next height -/

/--
The part of updateToState that resets the round state for the state's next
height.  NewHeightVoteSet panics for height zero.
-/
def resetToState (cs : ConsensusState) (state : LatestBlockState) (lastCommit : Option VoteSet) :
    Except String ConsensusState :=
  let height := state.nextHeight
  (HeightVoteSet.newHeightVoteSet state.chainID height state.validators).map fun votes =>
    { cs with
      height := height
      round := 1
      step := .newHeight
      validators := state.validators
      proposal := none
      proposalBlock := none
      proposalBlockParts := none
      lockedRound := 0
      lockedBlock := none
      lockedBlockParts := none
      validRound := 0
      validBlock := none
      validBlockParts := none
      votes := votes
      commitRound := 0
      lastCommit := lastCommit
      lastValidators := state.lastValidators
      triggeredTimeoutPrecommit := false
      state := state }

/--
updateToState: a state no further than the node's is ignored; otherwise the
precommits of the commit round become the last commit and the round state is
reset for the next height.
-/
def updateToState (cs : ConsensusState) (state : LatestBlockState) :
    Except String ConsensusState :=
  if 0 < cs.commitRound ∧ 0 < cs.height ∧ cs.height ≠ state.lastBlockHeight then
    .error "updateToState() expected state height of cs.Height"
  else if 0 < cs.state.lastBlockHeight ∧ cs.state.lastBlockHeight + 1 ≠ cs.height then
    .error "Inconsistent cs.state.LastBlockHeight+1 vs cs.Height"
  else if 0 < cs.state.lastBlockHeight ∧ cs.height = cs.state.initialHeight then
    .error "Inconsistent cs.state.LastBlockHeight, expected 1 for initial height"
  else if state.lastBlockHeight ≤ cs.state.lastBlockHeight then
    .ok cs
  else
    let lastCommit : Except String (Option VoteSet) :=
      if state.lastBlockHeight = 0 then
        .ok none
      else if 0 < cs.commitRound then
        match cs.votes.precommits cs.commitRound with
        | some precommits =>
            if precommits.hasTwoThirdsMajority then
              .ok (some precommits)
            else
              .error "Wanted to form a Commit, but Precommits didn't have 2/3+"
        | none => .error "Wanted to form a Commit, but Precommits didn't have 2/3+"
      else
        match cs.lastCommit with
        | none => .error "LastCommit cannot be empty after initial block"
        | some lastCommit => .ok (some lastCommit)
    lastCommit.bind (resetToState cs state)

/--
The part of finalizeCommit after the block has been validated: save it,
apply it, move to the next height and schedule round 1.
-/
def commitBlock (cs : ConsensusState) (block : Block) (precommits : VoteSet) :
    Except String ConsensusState :=
  let cs := { cs with finalized := cs.finalized ++ [block] }
  let saved : Except String ConsensusState :=
    if cs.blockStoreHeight < block.header.height then
      precommits.makeCommit.map fun _ => { cs with blockStoreHeight := block.header.height }
    else
      .ok cs
  saved.bind fun cs =>
    match env.blockExec.applyBlock env.scheme cs.state
        ⟨blockHash env block, PartSet.header cs.proposalBlockParts⟩ block with
    | .error panic => .error panic
    | .ok (_, _, some reason) => .error ("Error on ApplyBlock: " ++ reason)
    | .ok (stateCopy, _, none) =>
        (cs.updateToState stateCopy).map fun cs => cs.scheduleTimeout cs.height 1 .newHeight

/-- finalizeCommit: the committed block must be the proposal block and valid. -/
def finalizeCommit (cs : ConsensusState) (height : Nat) : Except String ConsensusState :=
  if cs.height ≠ height ∨ cs.step ≠ .commit then
    .ok cs
  else
    match cs.votes.precommits cs.commitRound with
    | none => .error "Cannot finalizeCommit, commit does not have two thirds majority"
    | some precommits =>
        match precommits.maj23 with
        | none => .error "Cannot finalizeCommit, commit does not have two thirds majority"
        | some blockID =>
            if !PartSet.hasHeader cs.proposalBlockParts blockID.partsHeader then
              .error "Expected ProposalBlockParts header to be commit header"
            else
              match cs.proposalBlock with
              | none => .error "Cannot finalizeCommit, ProposalBlock does not hash to commit hash"
              | some block =>
                  if !hashesTo env (some block) blockID.hash then
                    .error "Cannot finalizeCommit, ProposalBlock does not hash to commit hash"
                  else
                    match validateProposal env cs block with
                    | .error panic => .error panic
                    | .ok (some _) => .error "+2/3 committed an invalid block"
                    | .ok none => commitBlock env cs block precommits

/-- tryFinalizeCommit: finalize once the block of a +2/3 precommit is known. -/
def tryFinalizeCommit (cs : ConsensusState) (height : Nat) : Except String ConsensusState :=
  if cs.height ≠ height then
    .error "tryFinalizeCommit() cs.Height vs height"
  else
    let (blockID, ok) := VoteSet.majorityOf (cs.votes.precommits cs.commitRound)
    if !ok || blockID.isZero then
      .ok cs
    else if !hashesTo env cs.proposalBlock blockID.hash then
      .ok cs
    else
      finalizeCommit env cs height

/--
enterCommit: take the locked block as the proposal if it is the committed
one, else fetch the committed block, and try to finalize.
-/
def enterCommit (cs : ConsensusState) (height commitRound : Nat) :
    Except String ConsensusState :=
  if cs.height ≠ height ∨ .commit ≤ cs.step then
    .ok cs
  else
    let (blockID, ok) := VoteSet.majorityOf (cs.votes.precommits commitRound)
    if !ok then
      .error "RunActionCommit() expects +2/3 precommits"
    else
      let cs :=
        if hashesTo env cs.lockedBlock blockID.hash then
          { cs with proposalBlock := cs.lockedBlock, proposalBlockParts := cs.lockedBlockParts }
        else
          cs
      let cs :=
        if !hashesTo env cs.proposalBlock blockID.hash &&
            !PartSet.hasHeader cs.proposalBlockParts blockID.partsHeader then
          { cs with
            proposalBlock := none
            proposalBlockParts := some (PartSet.newPartSetFromHeader blockID.partsHeader) }
        else
          cs
      -- the deferred end of enterCommit
      let cs := { cs.updateRoundStep cs.round .commit with commitRound := commitRound }
      tryFinalizeCommit env cs height

/-! ## Votes -/

/--
The unlock on a polka: a node locked before the polka's round, in a round
not ahead of its own, unlocks if the polka is for another block.
-/
def polkaUnlock (cs : ConsensusState) (voteRound : Nat) (blockID : BlockID) : ConsensusState :=
  if cs.lockedBlock.isSome ∧ cs.lockedRound < voteRound ∧ voteRound ≤ cs.round ∧
      !hashesTo env cs.lockedBlock blockID.hash then
    cs.unlock
  else
    cs

/--
The valid-block update on a polka for a block in the node's round: the
proposal block becomes the valid block if it is the polka's block, else it is
dropped, and the parts of the polka's block are expected.
-/
def polkaValidBlock (cs : ConsensusState) (voteRound : Nat) (blockID : BlockID) :
    ConsensusState :=
  if !blockID.hash.isZero ∧ cs.validRound < voteRound ∧ voteRound = cs.round then
    let cs :=
      if hashesTo env cs.proposalBlock blockID.hash then
        { cs with
          validRound := voteRound
          validBlock := cs.proposalBlock
          validBlockParts := cs.proposalBlockParts }
      else
        { cs with proposalBlock := none }
    if !PartSet.hasHeader cs.proposalBlockParts blockID.partsHeader then
      { cs with proposalBlockParts := some (PartSet.newPartSetFromHeader blockID.partsHeader) }
    else
      cs
  else
    cs

/-- The updates a prevote majority makes, in the order addVote makes them. -/
def polkaUpdates (cs : ConsensusState) (voteRound : Nat) (blockID : BlockID) :
    ConsensusState :=
  polkaValidBlock env (polkaUnlock env cs voteRound blockID) voteRound blockID

/--
What an added prevote leads to: skip to a round ahead with +2/3 prevotes
for anything, precommit or wait in our round, or prevote a proposal whose
POL round is complete.
-/
def addedPrevote (cs : ConsensusState) (now : Time) (height voteRound : Nat) :
    Except String ConsensusState :=
  let prevotes := cs.votes.prevotes voteRound
  let (blockID, ok) := VoteSet.majorityOf prevotes
  let cs := if ok then polkaUpdates env cs voteRound blockID else cs
  if cs.round < voteRound ∧ VoteSet.anyOf prevotes then
    enterNewRound env cs now height voteRound
  else if cs.round = voteRound ∧ .prevote ≤ cs.step then
    if ok ∧ (cs.isProposalComplete ∨ blockID.hash.isZero) then
      enterPrecommit env cs now height voteRound
    else if VoteSet.anyOf prevotes then
      enterPrevoteWait cs height voteRound
    else
      .ok cs
  else
    match cs.proposal with
    | some proposal =>
        if 1 ≤ proposal.polRound ∧ proposal.polRound = voteRound ∧ cs.isProposalComplete then
          enterPrevote env cs now height cs.round
        else
          .ok cs
    | none => .ok cs

/--
What an added precommit leads to: on a majority move to its round,
precommit, and commit it or wait; on +2/3 for anything in a round not behind
ours move to it and wait.
-/
def addedPrecommit (cs : ConsensusState) (now : Time) (height voteRound : Nat) :
    Except String ConsensusState :=
  let precommits := cs.votes.precommits voteRound
  let (blockID, ok) := VoteSet.majorityOf precommits
  if ok then
    (enterNewRound env cs now height voteRound).bind fun cs =>
      (enterPrecommit env cs now height voteRound).bind fun cs =>
        if !blockID.hash.isZero then
          (enterCommit env cs height voteRound).bind fun cs =>
            if env.config.isSkipTimeoutCommit && precommits.any VoteSet.hasAll then
              enterNewRound env cs now cs.height 1
            else
              .ok cs
        else
          enterPrecommitWait cs height voteRound
  else if cs.round ≤ voteRound ∧ VoteSet.anyOf precommits then
    (enterNewRound env cs now height voteRound).bind fun cs =>
      enterPrecommitWait cs height voteRound
  else
    .ok cs

/--
addVote: a precommit of the previous height goes to the last commit while
waiting for the new height; a vote of our height goes to the height vote
set, and what it adds drives the round steps.
-/
def addVote (cs : ConsensusState) (now : Time) (vote : Vote) (peerID : PeerID) :
    Except String (ConsensusState × Bool × Option VoteError) :=
  if vote.height + 1 = cs.height ∧ vote.type = .precommitType then
    if cs.step ≠ .newHeight then
      .ok (cs, false, none)
    else
      match cs.lastCommit with
      | none => .error "AddVote() on nil VoteSet"
      | some lastCommit =>
          (lastCommit.addVote env.scheme vote).bind fun (lastCommit, added, voteError) =>
            let cs := { cs with lastCommit := some lastCommit }
            if !added then
              .ok (cs, false, voteError)
            else if env.config.isSkipTimeoutCommit && lastCommit.hasAll then
              (enterNewRound env cs now cs.height 1).map fun cs => (cs, false, none)
            else
              .ok (cs, false, none)
  else if vote.height ≠ cs.height then
    .ok (cs, false, none)
  else
    let height := cs.height
    (cs.votes.addVote env.scheme vote peerID).bind fun (votes, added, voteError) =>
      let cs := { cs with votes := votes }
      if !added then
        .ok (cs, false, voteError)
      else
        match vote.type with
        | .prevoteType =>
            (addedPrevote env cs now height vote.round).map fun cs => (cs, added, voteError)
        | .precommitType =>
            (addedPrecommit env cs now height vote.round).map fun cs => (cs, added, voteError)
        | _ => .error "Unexpected vote type"

/--
The evidence tryAddVote makes of two conflicting votes: stamped with the
genesis time at the initial height, else with the median time of this node's
last commit, and with the powers of its current validators.
-/
def conflictEvidence (cs : ConsensusState) (voteA voteB : Vote) :
    Except String (Option DuplicateVoteEvidence) :=
  let timestamp : Except String Time :=
    if voteA.height = cs.state.initialHeight then
      .ok cs.state.lastBlockTime
    else
      match cs.lastCommit with
      | none => .error nilDereference
      | some lastCommit => lastCommit.makeCommit.map fun commit => medianTime commit cs.lastValidators
  timestamp.map fun timestamp =>
    DuplicateVoteEvidence.newDuplicateVoteEvidence voteA voteB timestamp cs.validators

/--
tryAddVote: conflicting votes of another validator become evidence in the
pool, without verification.
-/
def tryAddVote (cs : ConsensusState) (now : Time) (vote : Vote) (peerID : PeerID) :
    Except String (ConsensusState × Bool × Option TryAddVoteError) :=
  (addVote env cs now vote peerID).bind fun (cs, added, voteError) =>
    match voteError with
    | none => .ok (cs, added, none)
    | some (.conflictingVotes voteA voteB) =>
        match env.privValidator with
        | none => .error nilDereference
        | some privValidator =>
            if vote.validatorAddress = privValidator.address then
              .ok (cs, added, some (.conflictingVotes voteA voteB))
            else
              (conflictEvidence cs voteA voteB).bind fun evidence =>
                match evidence with
                | none => .error nilDereference
                | some evidence =>
                    .ok ({ cs with
                          evpool :=
                            cs.evpool.addEvidenceFromConsensus env.blockExec.hashing evidence },
                        added, some (.conflictingVotes voteA voteB))
    | some .nonDeterministicSignature => .ok (cs, added, none)
    | some _ => .ok (cs, added, some .addingVote)

/-! ## Proposals and block parts -/

/--
setProposal: the first proposal of our height and round that the proposer
signed.  A bad signature is reported with the POL-round error, as in the code.
-/
def setProposal (cs : ConsensusState) (proposal : Proposal) :
    Except String (ConsensusState × Option String) :=
  if cs.proposal.isSome then
    .ok (cs, none)
  else if proposal.height ≠ cs.height ∨ proposal.round ≠ cs.round then
    .ok (cs, none)
  else if proposal.polRound < 1 ∧ (0 < proposal.polRound ∨ proposal.round < proposal.polRound) then
    .ok (cs, some "error invalid proposal POL round")
  else
    (ValidatorSet.getProposer cs.validators).bind fun proposer =>
      match proposer with
      | none => .error nilDereference
      | some proposer =>
          if !env.scheme.verifySignature proposer.address
              (proposalSignBytes env.scheme cs.state.chainID proposal) proposal.signature then
            .ok (cs, some "error invalid proposal POL round")
          else
            let cs := { cs with proposal := some proposal }
            let cs :=
              if cs.proposalBlockParts.isNone then
                { cs with
                  proposalBlockParts :=
                    some (PartSet.newPartSetFromHeader proposal.polBlockID.partsHeader) }
              else
                cs
            .ok (cs, none)

/--
The step a complete proposal block leads to: prevote before the prevote
step (and precommit at once on a polka), or finalize in the commit step.
-/
def proposalCompleteStep (cs : ConsensusState) (now : Time) (height : Nat) (hasTwoThirds : Bool) :
    Except String ConsensusState :=
  if cs.step ≤ .propose ∧ cs.isProposalComplete then
    (enterPrevote env cs now height cs.round).bind fun cs =>
      if hasTwoThirds then enterPrecommit env cs now height cs.round else .ok cs
  else if cs.step = .commit then
    tryFinalizeCommit env cs height
  else
    .ok cs

/--
A complete proposal block: take it as the valid block on a polka for it in
our round, then go on with the step it leads to.
-/
def completeProposalBlock (cs : ConsensusState) (now : Time) (height : Nat) (block : Block) :
    Except String ConsensusState :=
  let cs := { cs with proposalBlock := some block }
  let (blockID, hasTwoThirds) := VoteSet.majorityOf (cs.votes.prevotes cs.round)
  let cs :=
    if hasTwoThirds ∧ !blockID.isZero ∧ cs.validRound < cs.round ∧
        hashesTo env cs.proposalBlock blockID.hash then
      { cs with
        validRound := cs.round
        validBlock := cs.proposalBlock
        validBlockParts := cs.proposalBlockParts }
    else
      cs
  proposalCompleteStep env cs now height hasTwoThirds

/--
addProposalBlockPart: add a part of our height to the expected part set;
once complete, decode the block, check it as BlockFromProto does, and go on.
-/
def addProposalBlockPart (cs : ConsensusState) (now : Time) (height : Nat) (part : Part) :
    Except String (ConsensusState × Bool × Option String) :=
  if cs.height ≠ height then
    .ok (cs, false, none)
  else
    match cs.proposalBlockParts with
    | none => .ok (cs, false, none)
    | some parts =>
        let (parts, added, partError) := parts.addPart env.verifyPart part
        let cs := { cs with proposalBlockParts := some parts }
        match partError with
        | some partError => .ok (cs, added, some partError)
        | none =>
            if added && parts.isComplete then
              match env.decodeBlock parts.bytes with
              | .error decodeError => .ok (cs, added, some decodeError)
              | .ok block =>
                  match block.validateBasic env.blockExec.hashing with
                  | .error invalid => .ok (cs, added, some invalid)
                  | .ok () =>
                      (completeProposalBlock env cs now height block).map fun cs =>
                        (cs, added, none)
            else
              .ok (cs, added, none)

/-! ## Inputs -/

/-- handleMsg: a proposal, a block part or a vote. -/
def handleMsg (cs : ConsensusState) (now : Time) (msg : ConsensusMessage) (peerID : PeerID) :
    Except String ConsensusState :=
  match msg with
  | .proposal proposal => (setProposal env cs proposal).map Prod.fst
  | .blockPart height _ part => (addProposalBlockPart env cs now height part).map Prod.fst
  | .vote vote => (tryAddVote env cs now vote peerID).map Prod.fst

/-- handleTimeout: a timeout for our height, not behind our round and step. -/
def handleTimeout (cs : ConsensusState) (now : Time) (timeout : TimeoutInfo) :
    Except String ConsensusState :=
  if timeout.height ≠ cs.height ∨ timeout.round < cs.round ∨
      (timeout.round = cs.round ∧ timeout.step < cs.step) then
    .ok cs
  else
    match timeout.step with
    | .newHeight => enterNewRound env cs now timeout.height 1
    | .newRound => enterPropose env cs now timeout.height 1
    | .propose => enterPrevote env cs now timeout.height timeout.round
    | .prevoteWait => enterPrecommit env cs now timeout.height timeout.round
    | .precommitWait =>
        (enterPrecommit env cs now timeout.height timeout.round).bind fun cs =>
          enterNewRound env cs now timeout.height (timeout.round + 1)
    | _ => .error "Invalid timeout step"

/-- The reactor's VoteSetMaj23 handling: a peer's claim for our height. -/
def setPeerMaj23
    (cs : ConsensusState)
    (height round : Nat)
    (signedMsgType : SignedMsgType)
    (peerID : PeerID)
    (blockID : BlockID) :
    ConsensusState :=
  if cs.height = height then
    { cs with votes := (cs.votes.setPeerMaj23 round signedMsgType peerID blockID).1 }
  else
    cs

end ConsensusState

/-- An input of the node. -/
inductive ConsensusInput where
  | message (now : Time) (msg : ConsensusMessage) (peerID : PeerID)
  | timeout (now : Time) (timeout : TimeoutInfo)
  | peerMaj23 (height round : Nat) (signedMsgType : SignedMsgType) (peerID : PeerID)
      (blockID : BlockID)

namespace ConsensusState

variable (env : Environment)

/--
One input handled to the end, one turn of receiveRoutine.  A timeout that was never scheduled does not
fire; one that was may fire at any time.
-/
def receive (cs : ConsensusState) : ConsensusInput → Except String ConsensusState
  | .message now msg peerID => handleMsg env cs now msg peerID
  | .timeout now timeout =>
      if timeout ∈ cs.timeouts then handleTimeout env cs now timeout else .ok cs
  | .peerMaj23 height round signedMsgType peerID blockID =>
      .ok (cs.setPeerMaj23 height round signedMsgType peerID blockID)

/--
reconstructLastCommit: the precommits of the seen commit of the last block,
which must have a majority.
-/
def reconstructLastCommit (state : LatestBlockState) (seenCommit : Option Commit) :
    Except String VoteSet :=
  match seenCommit with
  | none => .error nilDereference
  | some seenCommit =>
      (commitToVoteSet env.scheme state.chainID seenCommit state.lastValidators).bind
        fun lastPrecommits =>
          if lastPrecommits.hasTwoThirdsMajority then
            .ok lastPrecommits
          else
            .error "Failed to reconstruct LastCommit: Does not have +2/3 maj"

/--
NewConsensusState followed by OnStart: the last commit reconstructed from
the seen commit, the round state of the state's next height, and round 1
scheduled.
-/
def newConsensusState
    (state : LatestBlockState)
    (seenCommit : Option Commit)
    (evpool : Pool)
    (blockStoreHeight : Nat) :
    Except String ConsensusState :=
  let lastCommit : Except String (Option VoteSet) :=
    if 0 < state.lastBlockHeight then
      (reconstructLastCommit env state seenCommit).map some
    else
      .ok none
  let blank : ConsensusState :=
    { height := 0
      round := 0
      step := .newHeight
      validators := state.validators
      proposal := none
      proposalBlock := none
      proposalBlockParts := none
      lockedRound := 0
      lockedBlock := none
      lockedBlockParts := none
      validRound := 0
      validBlock := none
      validBlockParts := none
      votes := ⟨state.chainID, 0, state.validators, 0, fun _ => none, fun _ => []⟩
      commitRound := 0
      lastCommit := none
      lastValidators := state.lastValidators
      triggeredTimeoutPrecommit := false
      state := state
      evpool := evpool
      blockStoreHeight := blockStoreHeight
      signLog := []
      outbox := []
      timeouts := []
      finalized := [] }
  lastCommit.bind fun lastCommit =>
    (resetToState blank state lastCommit).map fun cs => cs.scheduleTimeout cs.height 1 .newHeight

end ConsensusState

end Kardia
