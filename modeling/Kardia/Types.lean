import Mathlib

namespace Kardia

/-!
# Consensus data types

The value types of `types/` that the consensus engine, the vote sets and the
evidence checks exchange: hashes, block identifiers, votes, validators,
commits and proposals.

Fixed-size byte arrays (`common.Hash`, `common.Address`) are modelled by the
number their bytes spell, so that "all bytes zero" is the number zero.
`time.Time` is modelled by nanoseconds since the zero time.  Every Go
`uint32`/`uint64` height, round and index is a `Nat`: no arithmetic on them in
the modelled code wraps.
-/

/-- A 32-byte hash, read as the number its bytes spell. -/
structure Hash where
  val : Nat
  deriving DecidableEq, Repr

namespace Hash

/-- The all-zero hash, common.NewZeroHash. -/
def zero : Hash :=
  ⟨0⟩

/-- common.Hash.IsZero: every byte is zero. -/
def isZero (hash : Hash) : Bool :=
  hash.val == 0

@[simp] theorem isZero_iff (hash : Hash) :
    hash.isZero = true ↔ hash = zero := by
  cases hash
  simp [isZero, zero]

end Hash

/-- A 20-byte account address, read as the number its bytes spell. -/
structure Address where
  val : Nat
  deriving DecidableEq, Repr

/-- The empty address common.Address of the zero bytes. -/
def Address.empty : Address :=
  ⟨0⟩

/-- A wall-clock instant, in nanoseconds since Go's zero time. -/
structure Time where
  nanos : Int
  deriving DecidableEq, Repr

namespace Time

/-- time.Time.IsZero. -/
def isZero (time : Time) : Bool :=
  time.nanos == 0

/-- time.Time.After. -/
def after (time other : Time) : Bool :=
  other.nanos < time.nanos

end Time

/-- A signature as raw bytes. -/
abbrev Signature := List UInt8

/--
kproto.SignedMsgType.  Every message decoded from the wire is checked by
IsVoteTypeValid (votes, HasVote, VoteSetMaj23, VoteSetBits) before its type
is used, so every other wire code behaves as the unknown type.
-/
inductive SignedMsgType where
  | unknownType
  | prevoteType
  | precommitType
  | proposalType
  deriving DecidableEq, Repr

/-- IsVoteTypeValid: only prevotes and precommits are votes. -/
def isVoteTypeValid : SignedMsgType → Bool
  | .prevoteType => true
  | .precommitType => true
  | _ => false

/-- The header of a part set: the number of parts and their Merkle root. -/
structure PartSetHeader where
  total : Nat
  hash : Hash
  deriving DecidableEq, Repr

/-- PartSetHeader.IsZero. -/
def PartSetHeader.isZero (header : PartSetHeader) : Bool :=
  header.total == 0 && header.hash.isZero

/-- A block identifier: the header hash and the part-set header. -/
structure BlockID where
  hash : Hash
  partsHeader : PartSetHeader
  deriving DecidableEq, Repr

/--
The map key of a block identifier.  BlockID.Key concatenates the hex strings
of the block hash and of the part-set hash, both of fixed length, so the key
is exactly this pair: the part count is not part of it.
-/
structure BlockKey where
  hash : Hash
  partsHash : Hash
  deriving DecidableEq, Repr

namespace BlockKey

/--
strings.Compare on two keys is below zero: fixed-length hex strings compare
as the numbers they spell, block hash first.
-/
def lt (first second : BlockKey) : Bool :=
  first.hash.val < second.hash.val ||
    (first.hash.val == second.hash.val &&
      first.partsHash.val < second.partsHash.val)

end BlockKey

namespace BlockID

/-- NewZeroBlockID. -/
def zero : BlockID :=
  ⟨Hash.zero, ⟨0, Hash.zero⟩⟩

/-- BlockID.IsZero: a vote for nil. -/
def isZero (blockID : BlockID) : Bool :=
  blockID.hash.isZero && blockID.partsHeader.isZero

/-- BlockID.IsComplete: the identifier of a non-nil block. -/
def isComplete (blockID : BlockID) : Bool :=
  !blockID.hash.isZero && !blockID.partsHeader.isZero

/-- BlockID.Key. -/
def key (blockID : BlockID) : BlockKey :=
  ⟨blockID.hash, blockID.partsHeader.hash⟩

/-- Equal identifiers have equal keys; the converse fails on the part count. -/
theorem key_eq_of_eq
    {first second : BlockID}
    (same : first = second) :
    first.key = second.key := by
  rw [same]

end BlockID

/-- A prevote or precommit, types.Vote. -/
structure Vote where
  validatorAddress : Address
  validatorIndex : Nat
  height : Nat
  round : Nat
  timestamp : Time
  type : SignedMsgType
  blockID : BlockID
  signature : Signature
  deriving DecidableEq, Repr

/-- A validator with its voting power and proposer priority. -/
structure Validator where
  address : Address
  votingPower : Int
  proposerPriority : Int
  deriving DecidableEq, Repr

/-- A validator set, ordered by address, with its cached total power. -/
structure ValidatorSet where
  validators : List Validator
  proposer : Option Validator
  totalVotingPower : Int
  deriving DecidableEq, Repr

namespace ValidatorSet

/-- ValidatorSet.Size. -/
def size (valSet : ValidatorSet) : Nat :=
  valSet.validators.length

/-- The sum of the voting powers, updateTotalVotingPower. -/
def sumVotingPower (validators : List Validator) : Int :=
  (validators.map Validator.votingPower).sum

/--
ValidatorSet.TotalVotingPower: the cached total, recomputed when it is zero.
The recomputation is idempotent, so the cache write is not modelled.
-/
def getTotalVotingPower (valSet : ValidatorSet) : Int :=
  if valSet.totalVotingPower = 0 then
    sumVotingPower valSet.validators
  else
    valSet.totalVotingPower

/--
ValidatorSet.GetByIndex: the address and validator at an index, or none
past the end.
-/
def getByIndex (valSet : ValidatorSet) (index : Nat) :
    Option (Address × Validator) :=
  (valSet.validators[index]?).map fun val => (val.address, val)

/-- ValidatorSet.GetByAddress: the first index holding the address, or -1. -/
def getByAddress (valSet : ValidatorSet) (address : Address) :
    Int × Option Validator :=
  match valSet.validators.findIdx? (fun val => val.address == address) with
  | some index => (index, valSet.validators[index]?)
  | none => (-1, none)

/-- ValidatorSet.HasAddress. -/
def hasAddress (valSet : ValidatorSet) (address : Address) : Bool :=
  valSet.validators.any fun val => val.address == address

/-- The voting power at an index, zero past the end. -/
def powerAt (valSet : ValidatorSet) (index : Nat) : Int :=
  ((valSet.validators[index]?).map Validator.votingPower).getD 0

@[simp] theorem getByIndex_eq_some
    {valSet : ValidatorSet}
    {index : Nat}
    {address : Address}
    {val : Validator} :
    valSet.getByIndex index = some (address, val) ↔
      valSet.validators[index]? = some val ∧ address = val.address := by
  unfold getByIndex
  cases valSet.validators[index]? with
  | none =>
      simp
  | some found =>
      simp only [Option.map_some, Option.some.injEq, Prod.mk.injEq]
      constructor
      · rintro ⟨rfl, rfl⟩
        exact ⟨rfl, rfl⟩
      · rintro ⟨rfl, rfl⟩
        exact ⟨rfl, rfl⟩

/-- A validator found by index carries the power that powerAt reads. -/
theorem powerAt_of_getByIndex
    {valSet : ValidatorSet}
    {index : Nat}
    {address : Address}
    {val : Validator}
    (found : valSet.getByIndex index = some (address, val)) :
    valSet.powerAt index = val.votingPower := by
  obtain ⟨atIndex, -⟩ := getByIndex_eq_some.mp found
  simp [powerAt, atIndex]

/-- With no negative power in the set, no index has a negative power. -/
theorem powerAt_nonneg
    {valSet : ValidatorSet}
    (powersNonneg : ∀ val ∈ valSet.validators, 0 ≤ val.votingPower)
    (index : Nat) :
    0 ≤ valSet.powerAt index := by
  unfold powerAt
  cases atIndex : valSet.validators[index]? with
  | none =>
      simp
  | some val =>
      exact powersNonneg val (List.mem_of_getElem? atIndex)

/-- An index is found exactly when it is below the size. -/
theorem getByIndex_isSome_iff
    (valSet : ValidatorSet)
    (index : Nat) :
    (valSet.getByIndex index).isSome ↔ index < valSet.size := by
  simp [getByIndex, size]

end ValidatorSet

/-- BlockIDFlag of a commit signature. -/
inductive BlockIDFlag where
  | absent
  | commit
  | nil
  deriving DecidableEq, Repr

/-- One validator's entry in a commit, types.CommitSig. -/
structure CommitSig where
  blockIDFlag : BlockIDFlag
  validatorAddress : Address
  timestamp : Time
  signature : Signature
  deriving DecidableEq, Repr

namespace CommitSig

/-- NewCommitSigAbsent. -/
def absentSig : CommitSig :=
  ⟨.absent, Address.empty, ⟨0⟩, []⟩

/-- CommitSig.ForBlock. -/
def forBlock (commitSig : CommitSig) : Bool :=
  commitSig.blockIDFlag == .commit

/-- CommitSig.Absent. -/
def absent (commitSig : CommitSig) : Bool :=
  commitSig.blockIDFlag == .absent

/-- CommitSig.BlockID: the commit's block for a commit flag, else zero. -/
def blockID (commitSig : CommitSig) (commitBlockID : BlockID) : BlockID :=
  match commitSig.blockIDFlag with
  | .absent => BlockID.zero
  | .commit => commitBlockID
  | .nil => BlockID.zero

end CommitSig

/-- A commit: the block and one signature slot per validator. -/
structure Commit where
  blockID : BlockID
  signatures : List CommitSig
  height : Nat
  round : Nat
  deriving DecidableEq, Repr

namespace Commit

/-- NewCommit. -/
def newCommit
    (height round : Nat)
    (blockID : BlockID)
    (commitSigs : List CommitSig) :
    Commit where
  blockID := blockID
  signatures := commitSigs
  height := height
  round := round

/-- Commit.Size. -/
def size (commit : Commit) : Nat :=
  commit.signatures.length

/--
Commit.GetVote: the precommit a signature slot stands for.  The Go code
indexes the slice and panics past its end; callers stay below Size.
-/
def getVote (commit : Commit) (valIdx : Nat) (commitSig : CommitSig) : Vote where
  validatorAddress := commitSig.validatorAddress
  validatorIndex := valIdx
  height := commit.height
  round := commit.round
  timestamp := commitSig.timestamp
  type := .precommitType
  blockID := commitSig.blockID commit.blockID
  signature := commitSig.signature

end Commit

/-- A block proposal, types.Proposal. -/
structure Proposal where
  height : Nat
  round : Nat
  polRound : Nat
  timestamp : Time
  polBlockID : BlockID
  signature : Signature
  deriving DecidableEq, Repr

end Kardia
