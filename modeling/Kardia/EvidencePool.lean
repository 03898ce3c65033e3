import Kardia.Block

namespace Kardia

/-!
# The evidence pool

The model of types/evidence/pool.go and verify.go: the pending and committed
evidence of a node, Pool.verify, which checks evidence against the block and
the validator set stored for its height, CheckEvidence, which runs it over
the evidence of a proposed block, and the two ways evidence enters the pool.

Evidence is keyed by its height and hash, as in the pool's database.  The
stores Pool.verify reads are functions of the height.

Accepted evidence does not show that its validator signed two votes of one
type: a prevote relabelled as a precommit passes every check next to the same
validator's precommit of that round for another block.
-/

/-- The key of a piece of evidence in the pool's database: height and hash. -/
structure EvidenceKey where
  height : Nat
  hash : Hash
  deriving DecidableEq, Repr

/-- The stores Pool.verify reads: block headers and validator sets by height. -/
structure EvidenceStores where
  loadBlockMeta : Nat → Option Header
  loadValidators : Nat → Except String ValidatorSet

/-- The evidence pool: its copy of the state and its pending and committed keys. -/
structure Pool where
  state : LatestBlockState
  pending : List EvidenceKey
  committed : List EvidenceKey
  deriving DecidableEq, Repr

namespace Pool

/-- keyPending and keyCommitted without their prefixes. -/
def key (hashing : Hashing) (evidence : DuplicateVoteEvidence) : EvidenceKey :=
  ⟨evidence.height, hashing.evidenceHash evidence⟩

/-- Pool.isPending. -/
def isPending (pool : Pool) (hashing : Hashing) (evidence : DuplicateVoteEvidence) : Bool :=
  pool.pending.contains (key hashing evidence)

/-- Pool.isCommitted. -/
def isCommitted (pool : Pool) (hashing : Hashing) (evidence : DuplicateVoteEvidence) : Bool :=
  pool.committed.contains (key hashing evidence)

/--
Pool.verify: the block of the evidence's height is stored and has the
evidence's time, the evidence is not expired by both age limits, and it
verifies against the validator set stored for its height.  time.Sub
saturates; the model subtracts exactly.
-/
def verify
    (scheme : SignatureScheme)
    (stores : EvidenceStores)
    (pool : Pool)
    (evidence : DuplicateVoteEvidence) :
    Except String Unit :=
  let state := pool.state
  let evidenceParams := state.consensusParams.evidence
  let ageNumBlocks : Int := (state.lastBlockHeight : Int) - evidence.height
  match stores.loadBlockMeta evidence.height with
  | none => .error "don't have header at height"
  | some header =>
      let evTime := header.time
      if evidence.timestamp ≠ evTime then
        .error "evidence has a different time to the block it is associated with"
      else
        let ageDuration := state.lastBlockTime.nanos - evTime.nanos
        if ageDuration > evidenceParams.maxAgeDuration ∧
            ageNumBlocks > evidenceParams.maxAgeNumBlocks then
          .error "evidence is too old"
        else
          match stores.loadValidators evidence.height with
          | .error reason => .error reason
          | .ok valSet => verifyDuplicateVote scheme evidence state.chainID valSet

/--
Pool.AddEvidenceFromConsensus: evidence from this node's own consensus
becomes pending without verification.
-/
def addEvidenceFromConsensus
    (pool : Pool)
    (hashing : Hashing)
    (evidence : DuplicateVoteEvidence) :
    Pool :=
  if pool.isPending hashing evidence then
    pool
  else
    { pool with pending := pool.pending ++ [key hashing evidence] }

/--
The loop of CheckEvidence from a position on: evidence that is not pending
must not be committed and must verify, and then becomes pending; no hash may
repeat an earlier one.
-/
def checkEvidenceFrom
    (scheme : SignatureScheme)
    (hashing : Hashing)
    (stores : EvidenceStores)
    (pool : Pool)
    (seen : List Hash) :
    List DuplicateVoteEvidence → Pool × Option String
  | [] => (pool, none)
  | evidence :: rest =>
      let checked : Except String Pool :=
        if pool.isPending hashing evidence then
          .ok pool
        else if pool.isCommitted hashing evidence then
          .error "evidence was already committed"
        else
          match verify scheme stores pool evidence with
          | .error reason => .error reason
          | .ok () => .ok { pool with pending := pool.pending ++ [key hashing evidence] }
      match checked with
      | .error reason => (pool, some reason)
      | .ok pool =>
          let hash := hashing.evidenceHash evidence
          if seen.contains hash then
            (pool, some "duplicate evidence")
          else
            checkEvidenceFrom scheme hashing stores pool (seen ++ [hash]) rest

/-- Pool.CheckEvidence over the evidence of a block. -/
def checkEvidence
    (scheme : SignatureScheme)
    (hashing : Hashing)
    (stores : EvidenceStores)
    (pool : Pool)
    (evidence : List DuplicateVoteEvidence) :
    Pool × Option String :=
  checkEvidenceFrom scheme hashing stores pool [] evidence

end Pool

/-! ## What verification accepts -/

/--
Pool.verify accepts evidence exactly when the block of its height is stored
with its time, it is within one of the age limits, and it verifies against
the stored validator set.
-/
theorem Pool.verify_eq_ok_iff
    {scheme : SignatureScheme}
    {stores : EvidenceStores}
    {pool : Pool}
    {evidence : DuplicateVoteEvidence} :
    pool.verify scheme stores evidence = .ok () ↔
      ∃ header valSet,
        stores.loadBlockMeta evidence.height = some header ∧
        evidence.timestamp = header.time ∧
        ¬ (pool.state.lastBlockTime.nanos - header.time.nanos >
              pool.state.consensusParams.evidence.maxAgeDuration ∧
            (pool.state.lastBlockHeight : Int) - evidence.height >
              pool.state.consensusParams.evidence.maxAgeNumBlocks) ∧
        stores.loadValidators evidence.height = .ok valSet ∧
        verifyDuplicateVote scheme evidence pool.state.chainID valSet = .ok () := by
  constructor
  · intro accepted
    unfold verify at accepted
    dsimp only at accepted
    cases stored : stores.loadBlockMeta evidence.height with
    | none =>
        simp only [stored] at accepted
        cases accepted
    | some header =>
        simp only [stored] at accepted
        split_ifs at accepted with differentTime tooOld
        cases loaded : stores.loadValidators evidence.height with
        | error reason =>
            simp only [loaded] at accepted
            cases accepted
        | ok valSet =>
            simp only [loaded] at accepted
            exact ⟨header, valSet, rfl, not_not.mp differentTime, tooOld, rfl, accepted⟩
  · rintro ⟨header, valSet, stored, sameTime, fresh, loaded, verified⟩
    simp [verify, stored, sameTime, fresh, loaded, verified]

/-! ## Framing an honest validator -/

namespace Framing

/-- The block the validator prevotes. -/
def proposed : BlockID :=
  ⟨⟨7⟩, ⟨1, ⟨9⟩⟩⟩

/-- A vote of validator 1 at height 1, round 1, signed with its key. -/
def signedVote (type : SignedMsgType) (blockID : BlockID) : Vote :=
  let unsigned : Vote :=
    { validatorAddress := ⟨1⟩
      validatorIndex := 0
      height := 1
      round := 1
      timestamp := ⟨5⟩
      type := type
      blockID := blockID
      signature := [] }
  { unsigned with
    signature :=
      KeyCollision.signedBy unsigned.validatorAddress
        (voteSignBytes KeyCollision.scheme "kardia" unsigned) }

/-- The honest prevote for the proposed block. -/
def prevote : Vote :=
  signedVote .prevoteType proposed

/-- The honest precommit for nil of the same round. -/
def precommit : Vote :=
  signedVote .precommitType BlockID.zero

/-- The prevote relabelled as a precommit, with its own signature. -/
def relabelled : Vote :=
  { prevote with type := .precommitType }

/-- The state of a correct node at height 3, with the four validators. -/
def pool : Pool where
  state :=
    { GenesisBlock.state with
      lastBlockHeight := 2
      lastBlockTime := ⟨20⟩
      validators := KeyCollision.validators
      nextValidators := KeyCollision.validators
      lastValidators := KeyCollision.validators }
  pending := []
  committed := []

/-- The stores of that node: the block at height 1 has time 10. -/
def stores : EvidenceStores where
  loadBlockMeta height :=
    if height = 1 then some { GenesisBlock.block.header with time := ⟨10⟩ } else none
  loadValidators _ := .ok KeyCollision.validators

end Framing

open Framing in
/--
A validator that signed one prevote and one precommit in round 1 of height 1
is framed: the evidence NewDuplicateVoteEvidence builds from its relabelled
prevote and its precommit passes ValidateBasic and Pool.verify at a correct
node, and CheckEvidence accepts a block carrying it.
-/
theorem honest_validator_framed :
    ∃ evidence,
      DuplicateVoteEvidence.newDuplicateVoteEvidence relabelled precommit ⟨10⟩
          KeyCollision.validators = some evidence ∧
        prevote.type = .prevoteType ∧ precommit.type = .precommitType ∧
        evidence.validateBasic = .ok () ∧
        pool.verify KeyCollision.scheme stores evidence = .ok () ∧
        (pool.checkEvidence KeyCollision.scheme GenesisBlock.hashing stores [evidence]).2 =
          none := by
  refine ⟨_, rfl, ?_⟩
  decide

end Kardia
