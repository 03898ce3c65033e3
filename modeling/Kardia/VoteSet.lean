import Kardia.BitArray
import Kardia.Canonical
import Kardia.SlotArray

namespace Kardia

/-!
# Vote sets

The model of types/vote_set.go.  A vote set collects the votes of one height,
round and vote type.  It keeps two stores: the canonical slot array votes,
one slot per validator with the running power sum, and votesByBlock, one
blockVotes tally per block key, created for the first vote a validator casts
for that key or when a peer claims a +2/3 majority for it.  The first key
whose tally crosses the quorum becomes maj23, and its votes are then copied
over the canonical slots.

Go maps are functions here and Go slices are lists; an index past the end of
a slice is a panic, the error of Except.  Block keys are BlockID.Key, which
omits the part count, while MakeCommit compares whole identifiers.
-/

/-- A peer identifier, p2p.ID. -/
abbrev PeerID := String

/-- The errors AddVote returns. -/
inductive VoteError where
  | invalidValidatorIndex
  | invalidValidatorAddress
  | unexpectedStep
  | nonDeterministicSignature
  | invalidSignature
  | conflictingVotes (voteA voteB : Vote)
  | nilVoteType
  | gotVoteFromUnwantedRound
  deriving DecidableEq, Repr

/-- The error AddVote wraps around a failed Vote.Verify. -/
def VoteError.ofVerifyError : VerifyError → VoteError
  | .invalidValidatorAddress => .invalidValidatorAddress
  | .invalidSignature => .invalidSignature

/-- Read a slot of a slice, panicking past its end. -/
def lookupSlot (slots : List (Option Vote)) (index : Nat) :
    Except String (Option Vote) :=
  match slots[index]? with
  | none => .error indexOutOfRange
  | some slot => .ok slot

/-- The votes cast for one block key, blockVotes. -/
structure BlockVotes where
  peerMaj23 : Bool
  bitArray : Option BitArray
  votes : List (Option Vote)
  sum : Int
  deriving DecidableEq, Repr

namespace BlockVotes

/-- newBlockVotes. -/
def newBlockVotes (peerMaj23 : Bool) (numValidators : Nat) : BlockVotes where
  peerMaj23 := peerMaj23
  bitArray := BitArray.newBitArray numValidators
  votes := List.replicate numValidators none
  sum := 0

/-- blockVotes.addVerifiedVote: record a validator's first vote for the key. -/
def addVerifiedVote
    (blockVotes : BlockVotes)
    (vote : Vote)
    (votingPower : Int) :
    Except String BlockVotes := do
  let existing ← lookupSlot blockVotes.votes vote.validatorIndex
  match existing with
  | some _ =>
      pure blockVotes
  | none =>
      let bitArray ←
        BitArray.setIndexOpt blockVotes.bitArray vote.validatorIndex true
      pure { blockVotes with
        bitArray := bitArray
        votes := blockVotes.votes.set vote.validatorIndex (some vote)
        sum := blockVotes.sum + votingPower }

/-- blockVotes.getByIndex on a possibly missing entry. -/
def getByIndex (blockVotes : Option BlockVotes) (index : Nat) :
    Except String (Option Vote) :=
  match blockVotes with
  | none => .ok none
  | some present => lookupSlot present.votes index

end BlockVotes

/-- A vote set for one height, round and vote type. -/
structure VoteSet where
  chainID : String
  height : Nat
  round : Nat
  signedMsgType : SignedMsgType
  valSet : ValidatorSet
  votesBitArray : Option BitArray
  votes : List (Option Vote)
  sum : Int
  maj23 : Option BlockID
  votesByBlock : BlockKey → Option BlockVotes
  peerMaj23s : PeerID → Option BlockID

namespace VoteSet

/-- NewVoteSet, which panics for height zero. -/
def newVoteSet
    (chainID : String)
    (height round : Nat)
    (signedMsgType : SignedMsgType)
    (valSet : ValidatorSet) :
    Except String VoteSet :=
  if height = 0 then
    .error "Cannot make VoteSet for height == 0, doesn't make sense."
  else
    .ok
      { chainID := chainID
        height := height
        round := round
        signedMsgType := signedMsgType
        valSet := valSet
        votesBitArray := BitArray.newBitArray valSet.size
        votes := List.replicate valSet.size none
        sum := 0
        maj23 := none
        votesByBlock := fun _ => none
        peerMaj23s := fun _ => none }

/-- The quorum of the vote set, TotalVotingPower()*2/3 + 1 in int64. -/
def quorum (voteSet : VoteSet) : Int :=
  (voteSet.valSet.getTotalVotingPower * 2).tdiv 3 + 1

/-- getVote: the known vote of a validator for a block key, if any. -/
def getVote (voteSet : VoteSet) (valIndex : Nat) (blockKey : BlockKey) :
    Except String (Option Vote) := do
  let canonical ← lookupSlot voteSet.votes valIndex
  match canonical with
  | some existing =>
      if existing.blockID.key = blockKey then
        pure (some existing)
      else
        BlockVotes.getByIndex (voteSet.votesByBlock blockKey) valIndex
  | none =>
      BlockVotes.getByIndex (voteSet.votesByBlock blockKey) valIndex

/--
The first block of addVerifiedVote: record the vote in the canonical slots.
A validator's first vote fills its slot and adds its power; a later vote for
another key is the conflicting vote, and replaces the slot only when it is
for the maj23 key.
-/
def recordVote
    (voteSet : VoteSet)
    (vote : Vote)
    (blockKey : BlockKey)
    (votingPower : Int) :
    Except String (VoteSet × Option Vote) := do
  let valIndex := vote.validatorIndex
  let existing ← lookupSlot voteSet.votes valIndex
  match existing with
  | some existing =>
      if existing.blockID = vote.blockID then
        .error "addVerifiedVote does not expect duplicate votes"
      else if voteSet.maj23.map BlockID.key = some blockKey then
        let bitArray ← BitArray.setIndexOpt voteSet.votesBitArray valIndex true
        pure ({ voteSet with
          votes := voteSet.votes.set valIndex (some vote)
          votesBitArray := bitArray }, some existing)
      else
        pure (voteSet, some existing)
  | none =>
      let bitArray ← BitArray.setIndexOpt voteSet.votesBitArray valIndex true
      pure ({ voteSet with
        votes := voteSet.votes.set valIndex (some vote)
        votesBitArray := bitArray
        sum := voteSet.sum + votingPower }, none)

/--
The second block of addVerifiedVote: the tally the vote goes into, or none
when the vote conflicts and no peer claims its key has a majority (the key
is then not tracked, or tracked without a peer claim).
-/
def trackedBlockVotes
    (voteSet : VoteSet)
    (blockKey : BlockKey)
    (conflicting : Option Vote) :
    Option BlockVotes :=
  match voteSet.votesByBlock blockKey with
  | some blockVotes =>
      if conflicting.isSome && !blockVotes.peerMaj23 then
        none
      else
        some blockVotes
  | none =>
      if conflicting.isSome then
        none
      else
        some (BlockVotes.newBlockVotes false voteSet.valSet.size)

/--
The last block of addVerifiedVote: add the vote to its tally, and on the
first crossing of the quorum set maj23 and copy the tally over the slots.
-/
def tallyVote
    (voteSet : VoteSet)
    (vote : Vote)
    (blockKey : BlockKey)
    (votingPower : Int)
    (blockVotes : BlockVotes) :
    Except String VoteSet := do
  let origSum := blockVotes.sum
  let added ← blockVotes.addVerifiedVote vote votingPower
  let withTally := { voteSet with
    votesByBlock := Function.update voteSet.votesByBlock blockKey (some added) }
  if origSum < voteSet.quorum ∧ voteSet.quorum ≤ added.sum ∧
      voteSet.maj23 = none then
    pure { withTally with
      maj23 := some vote.blockID
      votes := SlotArray.overlay withTally.votes added.votes }
  else
    pure withTally

/-- addVerifiedVote: returns whether the vote was added and the conflict. -/
def addVerifiedVote
    (voteSet : VoteSet)
    (vote : Vote)
    (blockKey : BlockKey)
    (votingPower : Int) :
    Except String (VoteSet × Bool × Option Vote) := do
  let (recorded, conflicting) ← voteSet.recordVote vote blockKey votingPower
  match trackedBlockVotes recorded blockKey conflicting with
  | none =>
      pure (recorded, false, conflicting)
  | some blockVotes =>
      let tallied ← recorded.tallyVote vote blockKey votingPower blockVotes
      pure (tallied, true, conflicting)

/--
addVote: the checks before the signature, the signature, and the update.
Returns whether the vote was added and the error of the Go code.  The
validator index is unsigned, so its "index < 0" check never fires.
-/
def addVote
    (scheme : SignatureScheme)
    (voteSet : VoteSet)
    (vote : Vote) :
    Except String (VoteSet × Bool × Option VoteError) :=
  let valIndex := vote.validatorIndex
  let valAddr := vote.validatorAddress
  let blockKey := vote.blockID.key
  if valAddr = Address.empty then
    .ok (voteSet, false, some .invalidValidatorAddress)
  else if vote.height ≠ voteSet.height ∨ vote.round ≠ voteSet.round ∨
      vote.type ≠ voteSet.signedMsgType then
    .ok (voteSet, false, some .unexpectedStep)
  else
    match voteSet.valSet.getByIndex valIndex with
    | none => .ok (voteSet, false, some .invalidValidatorIndex)
    | some (lookupAddr, val) =>
        if valAddr ≠ lookupAddr then
          .ok (voteSet, false, some .invalidValidatorAddress)
        else do
          let known ← voteSet.getVote valIndex blockKey
          match known with
          | some existing =>
              if existing.signature = vote.signature then
                pure (voteSet, false, none)
              else
                pure (voteSet, false, some .nonDeterministicSignature)
          | none =>
              match vote.verify scheme voteSet.chainID val.address with
              | .error verifyError =>
                  pure (voteSet, false, some (VoteError.ofVerifyError verifyError))
              | .ok () =>
                  let (updated, added, conflicting) ←
                    voteSet.addVerifiedVote vote blockKey val.votingPower
                  match conflicting with
                  | some conflictingVote =>
                      pure (updated, added,
                        some (.conflictingVotes conflictingVote vote))
                  | none =>
                      if added then
                        pure (updated, true, none)
                      else
                        .error "Expected to add non-conflicting vote"

/--
SetPeerMaj23: remember a peer's claim and make sure its key is tracked.
Returns the error message of a conflicting second claim.
-/
def setPeerMaj23
    (voteSet : VoteSet)
    (peerID : PeerID)
    (blockID : BlockID) :
    VoteSet × Option String :=
  let blockKey := blockID.key
  match voteSet.peerMaj23s peerID with
  | some existing =>
      if existing = blockID then
        (voteSet, none)
      else
        (voteSet, some "SetPeerMaj23: Received conflicting blockID from peer")
  | none =>
      let claimed := { voteSet with
        peerMaj23s := Function.update voteSet.peerMaj23s peerID (some blockID) }
      match claimed.votesByBlock blockKey with
      | some blockVotes =>
          if blockVotes.peerMaj23 then
            (claimed, none)
          else
            ({ claimed with
              votesByBlock := Function.update claimed.votesByBlock blockKey
                (some { blockVotes with peerMaj23 := true }) }, none)
      | none =>
          ({ claimed with
            votesByBlock := Function.update claimed.votesByBlock blockKey
              (some (BlockVotes.newBlockVotes true claimed.valSet.size)) }, none)

/-- TwoThirdsMajority. -/
def twoThirdsMajority (voteSet : VoteSet) : BlockID × Bool :=
  match voteSet.maj23 with
  | some maj23 => (maj23, true)
  | none => (BlockID.zero, false)

/-- HasTwoThirdsMajority. -/
def hasTwoThirdsMajority (voteSet : VoteSet) : Bool :=
  voteSet.maj23.isSome

/-- HasTwoThirdsAny: more than two thirds of the power voted for anything. -/
def hasTwoThirdsAny (voteSet : VoteSet) : Bool :=
  decide ((voteSet.valSet.getTotalVotingPower * 2).tdiv 3 < voteSet.sum)

/-- HasAll. -/
def hasAll (voteSet : VoteSet) : Bool :=
  voteSet.sum == voteSet.valSet.getTotalVotingPower

/-- IsCommit: a precommit set with a majority. -/
def isCommit (voteSet : VoteSet) : Bool :=
  voteSet.signedMsgType == .precommitType && voteSet.maj23.isSome

/-- BitArrayByBlockID. -/
def bitArrayByBlockID (voteSet : VoteSet) (blockID : BlockID) : Option BitArray :=
  (voteSet.votesByBlock blockID.key).bind BlockVotes.bitArray

/-- Size: the number of validators. -/
def size (voteSet : VoteSet) : Nat :=
  voteSet.valSet.size

end VoteSet

/--
Vote.CommitSig: absent for no vote, a commit or nil flag for a complete or
zero identifier, and a panic for any other identifier.
-/
def Vote.commitSig : Option Vote → Except String CommitSig
  | none => .ok CommitSig.absentSig
  | some vote =>
      if vote.blockID.isComplete then
        .ok ⟨.commit, vote.validatorAddress, vote.timestamp, vote.signature⟩
      else if vote.blockID.isZero then
        .ok ⟨.nil, vote.validatorAddress, vote.timestamp, vote.signature⟩
      else
        .error "Invalid vote - expected BlockID to be either empty or complete"

namespace VoteSet

/--
The commit signature MakeCommit keeps for one slot: a vote for a block
other than maj23 is excluded as absent.
-/
def commitSigFor (maj23 : BlockID) (slot : Option Vote) : Except String CommitSig := do
  let commitSig ← Vote.commitSig slot
  if commitSig.forBlock && slot.map Vote.blockID != some maj23 then
    pure CommitSig.absentSig
  else
    pure commitSig

/-- MakeCommit, which panics without a precommit majority. -/
def makeCommit (voteSet : VoteSet) : Except String Commit :=
  if voteSet.signedMsgType ≠ .precommitType then
    .error "Cannot MakeCommit() unless VoteSet.Type is VoteTypePrecommit"
  else
    match voteSet.maj23 with
    | none => .error "Cannot MakeCommit() unless a blockhash has +2/3"
    | some maj23 => do
        let commitSigs ← voteSet.votes.mapM (commitSigFor maj23)
        pure (Commit.newCommit voteSet.height voteSet.round maj23 commitSigs)

end VoteSet

end Kardia
