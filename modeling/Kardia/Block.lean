import Kardia.CommitCertificate
import Kardia.Evidence

namespace Kardia

/-!
# Blocks and block validation

The model of types/block.go (the header, the block and Block.ValidateBasic)
and of kai/state/cstate: the latest block state, MedianTime, validateBlock
and ApplyBlock with updateState.

Hashing is third-party code (Keccak, the stack trie, the Merkle tree), so the
hash functions are the fields of a parameter.  So are the parts of ApplyBlock
that run the application and rebuild validator sets.  A Go panic is the error
of Except and a returned error is an Option inside it.

validateBlock ties most of the header to the body and the state, but not all
of it: NumTxs is read by no check, and a block at the initial height without a
last commit dereferences the missing commit.
-/

/-- A transaction, as the bytes of its encoding. -/
structure Transaction where
  encoding : List UInt8
  deriving DecidableEq, Repr

/-- A block header, types.Header. -/
structure Header where
  height : Nat
  time : Time
  numTxs : Nat
  gasLimit : Nat
  lastBlockID : BlockID
  proposerAddress : Address
  lastCommitHash : Hash
  txHash : Hash
  validatorsHash : Hash
  nextValidatorsHash : Hash
  consensusHash : Hash
  appHash : Hash
  evidenceHash : Hash
  deriving DecidableEq, Repr

/--
A block, types.Block.  Decoded blocks always have a header and an evidence
list; the last commit may be missing.
-/
structure Block where
  header : Header
  transactions : List Transaction
  lastCommit : Option Commit
  evidence : List DuplicateVoteEvidence
  deriving DecidableEq, Repr

/--
The hash functions of blocks: Header.Hash, DeriveSha over a stack trie,
the Merkle root of a non-nil commit's encoded signatures, the hash of an
evidence's encoding, merkle.SimpleHashFromByteSlices and ValidatorSet.Hash.
-/
structure Hashing where
  headerHash : Header → Hash
  deriveSha : List Transaction → Hash
  commitSigsHash : List CommitSig → Hash
  evidenceHash : DuplicateVoteEvidence → Hash
  merkleRoot : List Hash → Hash
  validatorSetHash : ValidatorSet → Hash

namespace Hashing

variable (hashing : Hashing)

/-- Commit.Hash: zero for a missing commit. -/
def commitHash : Option Commit → Hash
  | none => Hash.zero
  | some commit => hashing.commitSigsHash commit.signatures

/-- EvidenceList.Hash: zero for no evidence, else the root of the hashes. -/
def evidenceListHash (evidence : List DuplicateVoteEvidence) : Hash :=
  if evidence.isEmpty then
    Hash.zero
  else
    hashing.merkleRoot (evidence.map hashing.evidenceHash)

end Hashing

namespace Block

/-- Block.Hash: the hash of the header. -/
def hash (hashing : Hashing) (block : Block) : Hash :=
  hashing.headerHash block.header

/-- Block.HashesTo on a possibly nil block: never for a zero hash. -/
def hashesTo (hashing : Hashing) (block : Option Block) (hash : Hash) : Bool :=
  match block with
  | none => false
  | some block => !hash.isZero && block.hash hashing == hash

/-- The loop of Block.ValidateBasic over the evidence, from an index on. -/
def validateEvidenceFrom : Nat → List DuplicateVoteEvidence → Except String Unit
  | _, [] => .ok ()
  | index, evidence :: rest =>
      match evidence.validateBasic with
      | .error reason =>
          .error ("invalid evidence (#" ++ toString index ++ "): " ++ reason)
      | .ok () => validateEvidenceFrom (index + 1) rest

/--
Block.ValidateBasic with a hasher.  Header.ValidateBasic runs ValidateHash on
32-byte hashes only, which never fails.
-/
def validateBasic (hashing : Hashing) (block : Block) : Except String Unit :=
  let lastCommitValid : Except String Unit :=
    if 1 < block.header.height then
      match block.lastCommit with
      | none => .error "nil LastCommit"
      | some commit => commit.validateBasic
    else
      .ok ()
  let lastCommitHashValid : Except String Unit :=
    match block.lastCommit with
    | none =>
        Runs.failIf (!block.header.lastCommitHash.isZero)
          "wrong Block.Header.LastCommitHash.  lastCommit is nil, but expect zero hash"
    | some commit =>
        Runs.failIf (block.header.lastCommitHash ≠ hashing.commitHash (some commit))
          "wrong Block.Header.LastCommitHash"
  do
    lastCommitValid
    lastCommitHashValid
    Runs.failIf (hashing.deriveSha block.transactions ≠ block.header.txHash)
      "wrong Header.DataHash"
    validateEvidenceFrom 0 block.evidence
    Runs.failIf (hashing.evidenceListHash block.evidence ≠ block.header.evidenceHash)
      "wrong Header.EvidenceHash"

end Block

/-- BlockParams, the fields the modelled code reads. -/
structure BlockParams where
  maxBytes : Int
  timeIotaMs : Int
  deriving DecidableEq, Repr

/-- EvidenceParams, the fields the modelled code reads; durations in nanoseconds. -/
structure EvidenceParams where
  maxAgeNumBlocks : Int
  maxAgeDuration : Int
  deriving DecidableEq, Repr

/-- kproto.ConsensusParams. -/
structure ConsensusParams where
  block : BlockParams
  evidence : EvidenceParams
  deriving DecidableEq, Repr

/--
LatestBlockState.  The validator sets are values: the only empty state, the
zero value NewConsensusState starts from, is not a state of the model.
-/
structure LatestBlockState where
  chainID : String
  initialHeight : Nat
  lastBlockHeight : Nat
  lastBlockID : BlockID
  lastBlockTime : Time
  nextValidators : ValidatorSet
  validators : ValidatorSet
  lastValidators : ValidatorSet
  lastHeightValidatorsChanged : Nat
  appHash : Hash
  consensusParams : ConsensusParams
  deriving DecidableEq, Repr

/-! ## Median time -/

/-- ktime.WeightedTime. -/
structure WeightedTime where
  time : Time
  weight : Int
  deriving DecidableEq, Repr

/-- The loop of WeightedMedian over the sorted times, from a remaining weight. -/
def medianFrom : Int → List WeightedTime → Time
  | _, [] => ⟨0⟩
  | median, weightedTime :: rest =>
      if median ≤ weightedTime.weight then
        weightedTime.time
      else
        medianFrom (median - weightedTime.weight) rest

/--
WeightedMedian.  sort.Slice puts the nil entries last and the loop skips
them; the sort is not stable, but equal times give the same result in any
order, so a stable sort stands for it.
-/
def weightedMedian (weightedTimes : List (Option WeightedTime)) (totalVotingPower : Int) :
    Time :=
  medianFrom (totalVotingPower.tdiv 2)
    ((weightedTimes.filterMap id).mergeSort fun first second =>
      decide (first.time.nanos ≤ second.time.nanos))

/--
MedianTime: the median of the commit's timestamps weighted by the power of
each signer found in the validator set.
-/
def medianTime (commit : Commit) (validators : ValidatorSet) : Time :=
  let weightedTimes := commit.signatures.map fun commitSig =>
    if commitSig.absent then
      none
    else
      (validators.getByAddress commitSig.validatorAddress).2.map fun validator =>
        ⟨commitSig.timestamp, validator.votingPower⟩
  weightedMedian weightedTimes ((weightedTimes.filterMap id).map WeightedTime.weight).sum

/-- MaxEvidencePerBlock: the count and byte limits of a block's evidence. -/
def maxEvidencePerBlock (blockMaxBytes : Int) : Int × Int :=
  let maxBytes := blockMaxBytes.tdiv 10
  (maxBytes.tdiv 484, maxBytes)

/-! ## validateBlock -/

/-- The errors validateBlock returns. -/
inductive ValidateBlockError where
  | invalid (reason : String)
  | lastCommitSig
  | verifyCommit (error : VerifyCommitError)
  | evidenceOverflow (max got : Int)
  | invalidEvidence (reason : String)
  deriving DecidableEq, Repr

/-- The Go runtime's message for a nil pointer dereference. -/
def nilDereference : String :=
  "runtime error: invalid memory address or nil pointer dereference"

/-- The height, previous block, app hash and validator hashes of validateBlock. -/
def validateHeaderInfo
    (hashing : Hashing)
    (state : LatestBlockState)
    (block : Block) :
    Option ValidateBlockError :=
  let height := block.header.height
  if height ≠ state.lastBlockHeight + 1 then
    some (.invalid "wrong Block.Header.Height")
  else if state.lastBlockHeight = 0 ∧ height ≠ state.initialHeight then
    some (.invalid "wrong Block.Header.Height. Expected for initial block")
  else if 0 < state.lastBlockHeight ∧ height ≠ state.lastBlockHeight + 1 then
    some (.invalid "wrong Block.Header.Height")
  else if block.header.lastBlockID ≠ state.lastBlockID then
    some (.invalid "wrong Block.Header.LastBlockID")
  else if block.header.appHash ≠ state.appHash then
    some (.invalid "wrong Block.Header.AppHash")
  else if block.header.validatorsHash ≠ hashing.validatorSetHash state.validators then
    some (.invalid "wrong Block.Header.ValidatorsHash")
  else if block.header.nextValidatorsHash ≠ hashing.validatorSetHash state.nextValidators then
    some (.invalid "wrong Block.Header.NextValidatorHash")
  else
    none

/--
The last-commit check of validateBlock: no signatures at the initial height,
else a commit of the last validators for the last block.  The initial-height
branch reads the signatures of the commit, which panics on a missing one.
-/
def validateLastCommit
    (scheme : SignatureScheme)
    (state : LatestBlockState)
    (block : Block) :
    Except String (Option ValidateBlockError) :=
  if block.header.height = state.initialHeight then
    match block.lastCommit with
    | none => .error nilDereference
    | some lastCommit =>
        if lastCommit.signatures.length ≠ 0 then
          .ok (some .lastCommitSig)
        else
          .ok none
  else
    (state.lastValidators.verifyCommit scheme state.chainID state.lastBlockID
      (block.header.height - 1) block.lastCommit).map (Option.map .verifyCommit)

/--
The time check of validateBlock: later than the last block and the median of
the last commit above the initial height, the genesis time at it.
MedianTime reads the commit's signatures, a panic on a missing commit.
-/
def validateBlockTime
    (state : LatestBlockState)
    (block : Block) :
    Except String (Option ValidateBlockError) :=
  let height := block.header.height
  if state.initialHeight < height then
    if !block.header.time.after state.lastBlockTime then
      .ok (some (.invalid "block time not greater than last block time"))
    else
      match block.lastCommit with
      | none => .error nilDereference
      | some lastCommit =>
          if block.header.time ≠ medianTime lastCommit state.lastValidators then
            .ok (some (.invalid "invalid block time"))
          else
            .ok none
  else if height = state.initialHeight then
    if block.header.time ≠ state.lastBlockTime then
      .ok (some (.invalid "block time is not equal to genesis time"))
    else
      .ok none
  else
    .ok (some (.invalid "block height lower than initial height"))

/--
validateBlock.  The evidence pool's CheckEvidence is a parameter; it returns
an error or none and does not panic.
-/
def validateBlock
    (scheme : SignatureScheme)
    (hashing : Hashing)
    (checkEvidence : List DuplicateVoteEvidence → Option String)
    (state : LatestBlockState)
    (block : Block) :
    Except String (Option ValidateBlockError) :=
  match block.validateBasic hashing with
  | .error reason => .ok (some (.invalid reason))
  | .ok () =>
      match validateHeaderInfo hashing state block with
      | some headerError => .ok (some headerError)
      | none =>
          match validateLastCommit scheme state block with
          | .error panic => .error panic
          | .ok (some commitError) => .ok (some commitError)
          | .ok none =>
              match validateBlockTime state block with
              | .error panic => .error panic
              | .ok (some timeError) => .ok (some timeError)
              | .ok none =>
                  let maxNumEvidence := (maxEvidencePerBlock state.consensusParams.block.maxBytes).1
                  let numEvidence : Int := block.evidence.length
                  if numEvidence > maxNumEvidence then
                    .ok (some (.evidenceOverflow maxNumEvidence numEvidence))
                  else if !state.validators.hasAddress block.header.proposerAddress then
                    .ok (some (.invalid "block proposer is not a validator"))
                  else
                    .ok ((checkEvidence block.evidence).map .invalidEvidence)

/-! ## What an accepted block satisfies -/

namespace Block

/-- A block that passes ValidateBasic matches the hashes of its header. -/
theorem validateBasic_eq_ok
    {hashing : Hashing}
    {block : Block}
    (valid : block.validateBasic hashing = .ok ()) :
    block.header.lastCommitHash = hashing.commitHash block.lastCommit ∧
      block.header.txHash = hashing.deriveSha block.transactions ∧
      block.header.evidenceHash = hashing.evidenceListHash block.evidence := by
  unfold validateBasic at valid
  obtain ⟨_, -, afterCommit⟩ := Runs.bind_eq_ok valid
  obtain ⟨⟨⟩, commitHashOk, afterHash⟩ := Runs.bind_eq_ok afterCommit
  obtain ⟨⟨⟩, txHashOk, afterTx⟩ := Runs.bind_eq_ok afterHash
  obtain ⟨⟨⟩, -, evidenceHashOk⟩ := Runs.bind_eq_ok afterTx
  refine ⟨?_, ?_, ?_⟩
  · cases lastCommit : block.lastCommit with
    | none =>
        simp only [lastCommit, Runs.failIf_eq_ok] at commitHashOk
        simpa [Hashing.commitHash] using commitHashOk
    | some commit =>
        simp only [lastCommit, Runs.failIf_eq_ok, not_not] at commitHashOk
        exact commitHashOk
  · simp only [Runs.failIf_eq_ok, not_not] at txHashOk
    exact txHashOk.symm
  · simp only [Runs.failIf_eq_ok, not_not] at evidenceHashOk
    exact evidenceHashOk.symm

end Block

/-- Header info that passes names the next height, the last block and the state's hashes. -/
theorem validateHeaderInfo_eq_none
    {hashing : Hashing}
    {state : LatestBlockState}
    {block : Block}
    (checked : validateHeaderInfo hashing state block = none) :
    block.header.height = state.lastBlockHeight + 1 ∧
      (state.lastBlockHeight = 0 → block.header.height = state.initialHeight) ∧
      block.header.lastBlockID = state.lastBlockID ∧
      block.header.appHash = state.appHash ∧
      block.header.validatorsHash = hashing.validatorSetHash state.validators ∧
      block.header.nextValidatorsHash = hashing.validatorSetHash state.nextValidators := by
  unfold validateHeaderInfo at checked
  dsimp only at checked
  split_ifs at checked with nextHeight initialHeight _ lastBlock app vals nextVals
  simp only [not_and, not_not] at nextHeight initialHeight lastBlock app vals nextVals
  exact ⟨nextHeight, initialHeight, lastBlock, app, vals, nextVals⟩

/-- Above the initial height, a last commit that passes is a verified commit. -/
theorem validateLastCommit_eq_ok_none
    {scheme : SignatureScheme}
    {state : LatestBlockState}
    {block : Block}
    (checked : validateLastCommit scheme state block = .ok none)
    (aboveInitial : block.header.height ≠ state.initialHeight) :
    state.lastValidators.verifyCommit scheme state.chainID state.lastBlockID
      (block.header.height - 1) block.lastCommit = .ok none := by
  unfold validateLastCommit at checked
  rw [if_neg aboveInitial] at checked
  obtain ⟨verdict, verified, none⟩ := Runs.map_eq_ok checked
  cases verdict with
  | none => exact verified
  | some _ => cases none

/-- A block time that passes is at or above the initial height. -/
theorem validateBlockTime_eq_ok_none
    {state : LatestBlockState}
    {block : Block}
    (checked : validateBlockTime state block = .ok none) :
    state.initialHeight ≤ block.header.height := by
  unfold validateBlockTime at checked
  dsimp only at checked
  by_cases above : state.initialHeight < block.header.height
  · exact Nat.le_of_lt above
  · rw [if_neg above] at checked
    by_cases atInitial : block.header.height = state.initialHeight
    · exact Nat.le_of_eq atInitial.symm
    · rw [if_neg atInitial] at checked
      cases checked

/--
validateBlock accepts a block only when every stage passes: ValidateBasic,
the header info, the last commit, the time, the proposer and the evidence.
-/
theorem validateBlock_stages
    {scheme : SignatureScheme}
    {hashing : Hashing}
    {checkEvidence : List DuplicateVoteEvidence → Option String}
    {state : LatestBlockState}
    {block : Block}
    (accepted : validateBlock scheme hashing checkEvidence state block = .ok none) :
    block.validateBasic hashing = .ok () ∧
      validateHeaderInfo hashing state block = none ∧
      validateLastCommit scheme state block = .ok none ∧
      validateBlockTime state block = .ok none ∧
      state.validators.hasAddress block.header.proposerAddress ∧
      checkEvidence block.evidence = none := by
  unfold validateBlock at accepted
  -- one case per match of the source's chain of stages; only the last passes
  split at accepted
  · cases accepted
  next basic =>
    split at accepted
    · cases accepted
    next headerOk =>
      split at accepted
      · cases accepted
      · cases accepted
      next commitOk =>
        split at accepted
        · cases accepted
        · cases accepted
        next timeOk =>
          dsimp only at accepted
          split_ifs at accepted with overflow unknownProposer
          · cases accepted
          · cases accepted
          have evidenceOk : checkEvidence block.evidence = none := by
            cases found : checkEvidence block.evidence with
            | none => rfl
            | some _ =>
                simp only [found] at accepted
                cases accepted
          exact ⟨basic, headerOk, commitOk, timeOk, by simpa using unknownProposer, evidenceOk⟩

/--
What validateBlock establishes when it accepts a block: the next height (the
initial height for the first block), the header hashes of the body, the last
block and the validator hashes of the state, a known proposer, a verified last
commit above the initial height and evidence the pool accepts.  NumTxs is not
among them.
-/
theorem validateBlock_eq_ok_none
    {scheme : SignatureScheme}
    {hashing : Hashing}
    {checkEvidence : List DuplicateVoteEvidence → Option String}
    {state : LatestBlockState}
    {block : Block}
    (accepted : validateBlock scheme hashing checkEvidence state block = .ok none) :
    block.header.height = state.lastBlockHeight + 1 ∧
      (state.lastBlockHeight = 0 → block.header.height = state.initialHeight) ∧
      block.header.txHash = hashing.deriveSha block.transactions ∧
      block.header.lastCommitHash = hashing.commitHash block.lastCommit ∧
      block.header.evidenceHash = hashing.evidenceListHash block.evidence ∧
      block.header.lastBlockID = state.lastBlockID ∧
      block.header.validatorsHash = hashing.validatorSetHash state.validators ∧
      block.header.nextValidatorsHash = hashing.validatorSetHash state.nextValidators ∧
      state.validators.hasAddress block.header.proposerAddress ∧
      (state.initialHeight < block.header.height →
        state.lastValidators.verifyCommit scheme state.chainID state.lastBlockID
          (block.header.height - 1) block.lastCommit = .ok none) ∧
      checkEvidence block.evidence = none := by
  obtain ⟨basic, headerOk, commitOk, -, proposerKnown, evidenceOk⟩ :=
    validateBlock_stages accepted
  obtain ⟨commitHash, txHash, evidenceHash⟩ := Block.validateBasic_eq_ok basic
  obtain ⟨nextHeight, initialBlock, lastBlock, -, vals, nextVals⟩ :=
    validateHeaderInfo_eq_none headerOk
  refine ⟨nextHeight, initialBlock, txHash, commitHash, evidenceHash, lastBlock, vals, nextVals,
    proposerKnown, ?_, evidenceOk⟩
  intro aboveInitial
  exact validateLastCommit_eq_ok_none commitOk (Nat.ne_of_gt aboveInitial)

/-- validateBlock reads no NumTxs: changing it never changes the verdict. -/
theorem validateBlock_numTxs_irrelevant
    (scheme : SignatureScheme)
    (hashing : Hashing)
    (checkEvidence : List DuplicateVoteEvidence → Option String)
    (state : LatestBlockState)
    (block : Block)
    (numTxs : Nat) :
    validateBlock scheme hashing checkEvidence state
        { block with header := { block.header with numTxs := numTxs } } =
      validateBlock scheme hashing checkEvidence state block :=
  rfl

/--
A block at the initial height with no last commit that passes the checks
before the last commit makes validateBlock dereference the missing commit.
-/
theorem validateBlock_panics_without_lastCommit
    {scheme : SignatureScheme}
    {hashing : Hashing}
    {checkEvidence : List DuplicateVoteEvidence → Option String}
    {state : LatestBlockState}
    {block : Block}
    (basic : block.validateBasic hashing = .ok ())
    (headerOk : validateHeaderInfo hashing state block = none)
    (atInitial : block.header.height = state.initialHeight)
    (noCommit : block.lastCommit = none) :
    validateBlock scheme hashing checkEvidence state block = .error nilDereference := by
  simp [validateBlock, basic, headerOk, validateLastCommit, atInitial, noCommit]

namespace GenesisBlock

/-- Hash functions that map everything to the zero hash. -/
def hashing : Hashing :=
  ⟨fun _ => Hash.zero, fun _ => Hash.zero, fun _ => Hash.zero, fun _ => Hash.zero,
    fun _ => Hash.zero, fun _ => Hash.zero⟩

/-- The state before the first block: one validator, initial height 1. -/
def state : LatestBlockState where
  chainID := "kardia"
  initialHeight := 1
  lastBlockHeight := 0
  lastBlockID := BlockID.zero
  lastBlockTime := ⟨0⟩
  nextValidators := ⟨[⟨⟨1⟩, 1, 0⟩], none, 1⟩
  validators := ⟨[⟨⟨1⟩, 1, 0⟩], none, 1⟩
  lastValidators := ⟨[⟨⟨1⟩, 1, 0⟩], none, 1⟩
  lastHeightValidatorsChanged := 0
  appHash := Hash.zero
  consensusParams := ⟨⟨104857600, 1000⟩, ⟨100000, 172800000000000⟩⟩

/-- A first block that claims three transactions, has none and no last commit. -/
def block : Block where
  header :=
    { height := 1
      time := ⟨0⟩
      numTxs := 3
      gasLimit := 0
      lastBlockID := BlockID.zero
      proposerAddress := ⟨1⟩
      lastCommitHash := Hash.zero
      txHash := Hash.zero
      validatorsHash := Hash.zero
      nextValidatorsHash := Hash.zero
      consensusHash := Hash.zero
      appHash := Hash.zero
      evidenceHash := Hash.zero }
  transactions := []
  lastCommit := none
  evidence := []

end GenesisBlock

open GenesisBlock in
/--
The first block passes Block.ValidateBasic and then makes validateBlock
dereference its missing last commit; with the empty last commit honest
proposers send, the same block is accepted although its NumTxs is 3 and it
has no transactions.
-/
theorem validateBlock_panics_or_accepts_wrong_numTxs :
    block.validateBasic hashing = .ok () ∧
      validateBlock KeyCollision.scheme hashing (fun _ => none) state block =
        .error nilDereference ∧
      validateBlock KeyCollision.scheme hashing (fun _ => none) state
          { block with lastCommit := some (Commit.newCommit 0 0 BlockID.zero []) } =
        .ok none ∧
      block.header.numTxs ≠ block.transactions.length := by
  decide

/-! ## ApplyBlock -/

/--
The parts of ApplyBlock outside this model: the application that executes
the transactions and returns validator updates and the app hash
(CommitAndValidateBlockTxs), calculateValidatorSetUpdates, and the validator
set algorithms UpdateWithChangeSet and IncrementProposerPriority.
-/
structure Application where
  commitAndValidateBlockTxs : Block → Except String (List Validator × Hash)
  calculateValidatorSetUpdates : List Validator → List Validator → List Validator
  updateWithChangeSet : ValidatorSet → List Validator → Except String ValidatorSet
  incrementProposerPriority : ValidatorSet → Nat → ValidatorSet

/--
The block executor: the hashing and evidence checks ValidateBlock uses, the
application, and whether processing has been interrupted.  The cache of
blocks already validated against the current state is not modelled.
-/
structure BlockExecutor where
  hashing : Hashing
  checkEvidence : List DuplicateVoteEvidence → Option String
  application : Application
  interrupted : Bool

/--
updateState: the state after a block, with the next validators moved in and
the validator updates applied to the set after them.  The app hash is left
zero; ApplyBlock sets it.
-/
def updateState
    (application : Application)
    (state : LatestBlockState)
    (blockID : BlockID)
    (header : Header)
    (validatorUpdates : List Validator) :
    Except String LatestBlockState :=
  let changed : Except String (Nat × ValidatorSet) :=
    if validatorUpdates.isEmpty then
      .ok (state.lastHeightValidatorsChanged, state.nextValidators)
    else
      match application.updateWithChangeSet state.nextValidators validatorUpdates with
      | .error reason => .error ("error changing validator set: " ++ reason)
      | .ok updated => .ok (header.height + 2, updated)
  changed.map fun (lastHeightValsChanged, nValSet) =>
    { chainID := state.chainID
      initialHeight := state.initialHeight
      lastBlockHeight := header.height
      lastBlockID := blockID
      lastBlockTime := header.time
      nextValidators := application.incrementProposerPriority nValSet 1
      validators := state.nextValidators
      lastValidators := state.validators
      lastHeightValidatorsChanged := lastHeightValsChanged
      appHash := Hash.zero
      consensusParams := state.consensusParams }

/--
BlockExecutor.ApplyBlock: the state after the block, the block's height and
the returned error.  Every error returns the state it was given.
-/
def BlockExecutor.applyBlock
    (scheme : SignatureScheme)
    (blockExec : BlockExecutor)
    (state : LatestBlockState)
    (blockID : BlockID)
    (block : Block) :
    Except String (LatestBlockState × Nat × Option String) :=
  let height := block.header.height
  if blockExec.interrupted then
    .ok (state, state.lastBlockHeight, none)
  else
    match validateBlock scheme blockExec.hashing blockExec.checkEvidence state block with
    | .error panic => .error panic
    | .ok (some _) => .ok (state, height, some "invalid block")
    | .ok none =>
        match blockExec.application.commitAndValidateBlockTxs block with
        | .error reason => .ok (state, height, some ("commit failed for application: " ++ reason))
        | .ok (valUpdates, appHash) =>
            let valUpdates := blockExec.application.calculateValidatorSetUpdates
              state.nextValidators.validators valUpdates
            match updateState blockExec.application state blockID block.header valUpdates with
            | .error reason =>
                .ok (state, height, some ("commit failed for application: " ++ reason))
            | .ok updated => .ok ({ updated with appHash := appHash }, height, none)

/--
A block ApplyBlock applies without error leaves a state whose last block is
that block, at its height, with the same chain and initial height.
-/
theorem BlockExecutor.applyBlock_eq_ok
    {scheme : SignatureScheme}
    {blockExec : BlockExecutor}
    {state updated : LatestBlockState}
    {blockID : BlockID}
    {block : Block}
    {height : Nat}
    (applied : blockExec.applyBlock scheme state blockID block = .ok (updated, height, none)) :
    updated = state ∨
      (updated.lastBlockHeight = block.header.height ∧
        updated.lastBlockID = blockID ∧
        updated.chainID = state.chainID ∧
        updated.initialHeight = state.initialHeight ∧
        validateBlock scheme blockExec.hashing blockExec.checkEvidence state block =
          .ok none) := by
  unfold applyBlock at applied
  dsimp only at applied
  split_ifs at applied with interrupted
  · cases applied
    exact Or.inl rfl
  · right
    cases validated : validateBlock scheme blockExec.hashing blockExec.checkEvidence state block with
    | error panic =>
        simp only [validated] at applied
        cases applied
    | ok verdict =>
        cases verdict with
        | some _ =>
            simp only [validated] at applied
            cases applied
        | none =>
            simp only [validated] at applied
            split at applied
            · cases applied
            · split at applied
              · cases applied
              · next newState updatedOk =>
                  cases applied
                  unfold updateState at updatedOk
                  obtain ⟨⟨_, _⟩, -, built⟩ := Runs.map_eq_ok updatedOk
                  cases built
                  exact ⟨rfl, rfl, rfl, rfl, rfl⟩

end Kardia
