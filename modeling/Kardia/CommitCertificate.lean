import Kardia.VoteSetInvariant

namespace Kardia

/-!
# Commit certificates

The model of the commit checks in types/commit.go and types/validator_set.go:
Commit.ValidateBasic, ValidatorSet.VerifyCommit, which tallies the power of
the signatures for the block and compares it with two thirds of the total,
and CommitToVoteSet, which replays a commit's signatures into a fresh
precommit vote set.

A vote set's tallies are keyed by BlockID.Key, the hash and the parts hash,
while MakeCommit and VerifyCommit compare whole block identifiers.  Votes for
two identifiers that differ only in the part count land in one tally, and
the quorum that tally reaches is not a quorum for either identifier.
-/

namespace CommitSig

/--
CommitSig.ValidateBasic.  The flag type holds only the three known flags, so
the unknown-flag error cannot arise.
-/
def validateBasic (commitSig : CommitSig) : Except String Unit :=
  match commitSig.blockIDFlag with
  | .absent =>
      if commitSig.validatorAddress ≠ Address.empty then
        .error "validator address is present"
      else if !commitSig.timestamp.isZero then
        .error "time is present"
      else if commitSig.signature.length ≠ 0 then
        .error "signature is present"
      else
        .ok ()
  | .commit | .nil =>
      if commitSig.signature.length = 0 then
        .error "signature is missing"
      else
        .ok ()

end CommitSig

namespace Commit

/-- The loop of Commit.ValidateBasic over the signatures from an index on. -/
def validateSigsFrom : Nat → List CommitSig → Except String Unit
  | _, [] => .ok ()
  | index, commitSig :: rest =>
      match commitSig.validateBasic with
      | .error reason => .error ("wrong CommitSig #" ++ toString index ++ ": " ++ reason)
      | .ok () => validateSigsFrom (index + 1) rest

/-- Commit.ValidateBasic: a commit above height zero is for a block and signed. -/
def validateBasic (commit : Commit) : Except String Unit :=
  if 1 ≤ commit.height then
    if commit.blockID.isZero then
      .error "Commit cannot be for nil block"
    else if commit.signatures.isEmpty then
      .error "no signatures in commit"
    else
      validateSigsFrom 0 commit.signatures
  else
    .ok ()

end Commit

/-- The errors ValidatorSet.VerifyCommit returns. -/
inductive VerifyCommitError where
  | nilCommit
  | invalidCommit (reason : String)
  | invalidCommitSignatures (expected actual : Nat)
  | invalidCommitHeight (expected actual : Nat)
  | wrongBlockID (want got : BlockID)
  | wrongSignature (index : Nat) (signature : Signature)
  | notEnoughVotingPowerSigned (got needed : Int)
  deriving DecidableEq, Repr

namespace ValidatorSet

/--
The loop of VerifyCommit from a signature index on: an absent signature is
skipped, any other must verify for the validator at its index, and the power
of those for the block is added.  Indexing a validator past the end panics;
VerifyCommit compares the sizes before the loop.
-/
def tallyCommitFrom
    (scheme : SignatureScheme)
    (valSet : ValidatorSet)
    (chainID : String)
    (blockID : BlockID)
    (commit : Commit) :
    Nat → List CommitSig → Int → Except String (Except VerifyCommitError Int)
  | _, [], tallied => .ok (.ok tallied)
  | idx, commitSig :: rest, tallied =>
      if commitSig.absent then
        tallyCommitFrom scheme valSet chainID blockID commit (idx + 1) rest tallied
      else
        match valSet.validators[idx]? with
        | none => .error indexOutOfRange
        | some val =>
            let signBytes := voteSignBytes scheme chainID (commit.getVote idx commitSig)
            if !scheme.verifySignature val.address signBytes commitSig.signature then
              .ok (.error (.wrongSignature idx commitSig.signature))
            else
              tallyCommitFrom scheme valSet chainID blockID commit (idx + 1) rest
                (if blockID = commitSig.blockID commit.blockID then
                  tallied + val.votingPower
                else
                  tallied)

/--
ValidatorSet.VerifyCommit on a non-nil validator set: none for a commit of
more than two thirds of the power for the block, else the error.
-/
def verifyCommit
    (scheme : SignatureScheme)
    (valSet : ValidatorSet)
    (chainID : String)
    (blockID : BlockID)
    (height : Nat)
    (commit : Option Commit) :
    Except String (Option VerifyCommitError) :=
  match commit with
  | none => .ok (some .nilCommit)
  | some commit =>
      match commit.validateBasic with
      | .error reason => .ok (some (.invalidCommit reason))
      | .ok () =>
          if valSet.size ≠ commit.signatures.length then
            .ok (some (.invalidCommitSignatures valSet.size commit.signatures.length))
          else if height ≠ commit.height then
            .ok (some (.invalidCommitHeight height commit.height))
          else if blockID ≠ commit.blockID then
            .ok (some (.wrongBlockID blockID commit.blockID))
          else do
            let votingPowerNeeded := (valSet.getTotalVotingPower * 2).tdiv 3
            let tally ← tallyCommitFrom scheme valSet chainID blockID commit 0
              commit.signatures 0
            match tally with
            | .error verifyError => pure (some verifyError)
            | .ok got =>
                if got ≤ votingPowerNeeded then
                  pure (some (.notEnoughVotingPowerSigned got votingPowerNeeded))
                else
                  pure none

end ValidatorSet

/--
The loop of CommitToVoteSet from a signature index on: every signature that
is not absent is added back as its precommit, and a vote that is not added,
or is added with an error, panics.
-/
def addCommitVotesFrom
    (scheme : SignatureScheme)
    (commit : Commit) :
    Nat → List CommitSig → VoteSet → Except String VoteSet
  | _, [], voteSet => .ok voteSet
  | idx, commitSig :: rest, voteSet =>
      if commitSig.absent then
        addCommitVotesFrom scheme commit (idx + 1) rest voteSet
      else do
        let (updated, added, voteError) ← voteSet.addVote scheme (commit.getVote idx commitSig)
        if !added || voteError.isSome then
          .error "Failed to reconstruct LastCommit"
        else
          addCommitVotesFrom scheme commit (idx + 1) rest updated

/-- CommitToVoteSet: the precommit vote set a commit stands for. -/
def commitToVoteSet
    (scheme : SignatureScheme)
    (chainID : String)
    (commit : Commit)
    (vals : ValidatorSet) :
    Except String VoteSet := do
  let voteSet ← VoteSet.newVoteSet chainID commit.height commit.round .precommitType vals
  addCommitVotesFrom scheme commit 0 commit.signatures voteSet

/-! ## Two identifiers with one key -/

namespace KeyCollision

/-- The signature an address's key makes: the address byte before the bytes. -/
def signedBy (address : Address) (bytes : List UInt8) : Signature :=
  address.val.toUInt8 :: bytes

/-- A field-by-field encoding of the canonical votes of this example. -/
def encodeCanonical : CanonicalMessage → List UInt8
  | .vote canonical =>
      [0, canonical.height.toUInt8, canonical.round.toUInt8] ++
        (match canonical.blockID with
        | none => [0]
        | some blockID =>
            [1, blockID.hash.val.toUInt8, blockID.partSetHeader.total.toUInt8,
              blockID.partSetHeader.hash.val.toUInt8]) ++
        [canonical.timestamp.nanos.toNat.toUInt8]
  | .proposal _ => [1]

/-- An ideal, deterministic scheme: a signature verifies only as signedBy. -/
def scheme : SignatureScheme :=
  ⟨encodeCanonical, fun address bytes signature => signature == signedBy address bytes⟩

/-- The precommit of a validator at height 1, round 0, signed by its key. -/
def signedPrecommit (index : Nat) (blockID : BlockID) : Vote :=
  let unsigned : Vote :=
    { validatorAddress := ⟨index + 1⟩
      validatorIndex := index
      height := 1
      round := 0
      timestamp := ⟨0⟩
      type := .precommitType
      blockID := blockID
      signature := [] }
  { unsigned with
    signature := signedBy unsigned.validatorAddress (voteSignBytes scheme "kardia" unsigned) }

/-- Four validators of power one. -/
def validators : ValidatorSet :=
  ⟨[⟨⟨1⟩, 1, 0⟩, ⟨⟨2⟩, 1, 0⟩, ⟨⟨3⟩, 1, 0⟩, ⟨⟨4⟩, 1, 0⟩], none, 4⟩

/-- A block of one part. -/
def onePart : BlockID :=
  ⟨⟨7⟩, ⟨1, ⟨9⟩⟩⟩

/-- The same hashes with a part count of two, so the same BlockID.Key. -/
def twoParts : BlockID :=
  ⟨⟨7⟩, ⟨2, ⟨9⟩⟩⟩

end KeyCollision

open KeyCollision in
/--
Two precommits for onePart and one for twoParts fill one tally, which
crosses the quorum of three on the third vote and makes twoParts the
majority.  MakeCommit then keeps only the vote equal to twoParts:
VerifyCommit finds power 1 against the 2 it must exceed, and the vote set
CommitToVoteSet rebuilds from the commit has no majority.
-/
theorem makeCommit_not_verified_of_split_partsTotal :
    ((VoteSet.newVoteSet "kardia" 1 0 .precommitType validators).bind fun fresh =>
      (Runs.run (VoteSet.call scheme) fresh
        [.addVote (signedPrecommit 0 onePart), .addVote (signedPrecommit 1 onePart),
          .addVote (signedPrecommit 2 twoParts)]).bind fun final =>
      final.makeCommit.bind fun commit =>
        (validators.verifyCommit scheme "kardia" twoParts 1 (some commit)).bind
          fun verdict =>
            (commitToVoteSet scheme "kardia" commit validators).map fun rebuilt =>
              (final.twoThirdsMajority, verdict, rebuilt.twoThirdsMajority)) =
      .ok ((twoParts, true), some (.notEnoughVotingPowerSigned 1 2),
        (BlockID.zero, false)) := by
  rfl

end Kardia
