import Kardia.Block

namespace Kardia

/-!
# The validation cache and the block time

BlockExecutor.ValidateBlock keeps the hashes of the blocks it accepted since
the last applied block and passes a block whose hash it has seen without
running validateBlock.  The consensus model calls validateBlock itself; this
module models the cache and relates the two: a cache filled by ValidateBlock
holds only hashes of blocks validateBlock accepts, so every block the cache
passes shares its hash with such a block.

That is all the cache gives.  Block.Hash is the hash of the header, and the
header binds the last commit only through Commit.Hash, the hash of its
signatures; the commit's height, round and block identifier, which
VerifyCommit checks, are bound by nothing.  A block whose last commit
differs from a validated twin's in its round alone is passed by the cache
although validateBlock rejects it.

VerifyCommit checks each signature against the validator at its index and
signs no address, so the address of a present signature can be anything.
MedianTime weights each signature by the validator its address names:
signers of little power that name a validator of much power move the block
time past every correct signer's timestamp.
-/

/-! ## The validation cache -/

namespace BlockExecutor

/--
BlockExecutor.ValidateBlock with its cache, the hashes of the blocks it
accepted since the last applied block: a block whose hash is cached passes,
any other is validated and its hash cached when it passes.  The result is the
verdict and the cache after the call.
-/
def validateBlock
    (scheme : SignatureScheme)
    (blockExec : BlockExecutor)
    (cache : List Hash)
    (state : LatestBlockState)
    (block : Block) :
    Except String (Option ValidateBlockError × List Hash) :=
  let hash := block.hash blockExec.hashing
  if hash ∈ cache then
    .ok (none, cache)
  else
    (Kardia.validateBlock scheme blockExec.hashing blockExec.checkEvidence state block).map
      fun verdict =>
        match verdict with
        | some validationError => (some validationError, cache)
        | none => (none, hash :: cache)

/-- One call of ValidateBlock as a step on the cache; a panic ends the run. -/
def validateStep
    (scheme : SignatureScheme)
    (blockExec : BlockExecutor)
    (state : LatestBlockState)
    (cache : List Hash)
    (block : Block) :
    Except String (List Hash) :=
  (blockExec.validateBlock scheme cache state block).map Prod.snd

/-- Every cached hash is the hash of a block that validateBlock accepts. -/
def CacheSound
    (scheme : SignatureScheme)
    (blockExec : BlockExecutor)
    (state : LatestBlockState)
    (cache : List Hash) :
    Prop :=
  ∀ hash ∈ cache, ∃ block, block.hash blockExec.hashing = hash ∧
    Kardia.validateBlock scheme blockExec.hashing blockExec.checkEvidence state block = .ok none

section Cache

variable {scheme : SignatureScheme} {blockExec : BlockExecutor} {state : LatestBlockState}

/--
What a call returned: a cached hash passes and leaves the cache; any other
block gets validateBlock's verdict, and its hash is cached when it passes.
-/
theorem validateBlock_cases
    {cache next : List Hash}
    {block : Block}
    {verdict : Option ValidateBlockError}
    (called : blockExec.validateBlock scheme cache state block = .ok (verdict, next)) :
    (block.hash blockExec.hashing ∈ cache ∧ verdict = none ∧ next = cache) ∨
      (block.hash blockExec.hashing ∉ cache ∧
        Kardia.validateBlock scheme blockExec.hashing blockExec.checkEvidence state block =
          .ok verdict ∧
        next = if verdict = none then block.hash blockExec.hashing :: cache else cache) := by
  unfold validateBlock at called
  dsimp only at called
  split_ifs at called with cached
  · cases called
    exact Or.inl ⟨cached, rfl, rfl⟩
  · right
    obtain ⟨validated, validatedOk, returned⟩ := Runs.map_eq_ok called
    refine ⟨cached, ?_⟩
    cases validated with
    | none =>
        cases returned
        exact ⟨validatedOk, by simp⟩
    | some validationError =>
        cases returned
        exact ⟨validatedOk, by simp⟩

/-- The cache never rejects a block that validateBlock accepts. -/
theorem validateBlock_of_accepted
    (cache : List Hash)
    {block : Block}
    (accepted :
      Kardia.validateBlock scheme blockExec.hashing blockExec.checkEvidence state block =
        .ok none) :
    ∃ next, blockExec.validateBlock scheme cache state block = .ok (none, next) := by
  unfold validateBlock
  dsimp only
  split_ifs with cached
  · exact ⟨cache, rfl⟩
  · rw [accepted]
    exact ⟨_, rfl⟩

/-- On a block whose hash is not cached, the verdict is validateBlock's. -/
theorem validateBlock_of_not_mem
    {cache : List Hash}
    {block : Block}
    (uncached : block.hash blockExec.hashing ∉ cache) :
    (blockExec.validateBlock scheme cache state block).map Prod.fst =
      Kardia.validateBlock scheme blockExec.hashing blockExec.checkEvidence state block := by
  unfold validateBlock
  dsimp only
  rw [if_neg uncached]
  cases Kardia.validateBlock scheme blockExec.hashing blockExec.checkEvidence state block with
  | error panic => rfl
  | ok verdict =>
      cases verdict <;> rfl

/-- A call keeps the cache sound: it caches only hashes of accepted blocks. -/
theorem validateStep_cacheSound
    {cache next : List Hash}
    {block : Block}
    (sound : CacheSound scheme blockExec state cache)
    (stepped : validateStep scheme blockExec state cache block = .ok next) :
    CacheSound scheme blockExec state next := by
  obtain ⟨⟨verdict, returned⟩, called, rfl⟩ := Runs.map_eq_ok stepped
  rcases validateBlock_cases called with ⟨-, -, rfl⟩ | ⟨-, validated, rfl⟩
  · exact sound
  · cases verdict with
    | some validationError => exact sound
    | none =>
        intro hash cachedNow
        rcases List.mem_cons.mp (by simpa using cachedNow) with newest | older
        · exact ⟨block, newest.symm, validated⟩
        · exact sound hash older

/-- The empty cache of a new executor, or of one that just applied a block, is sound. -/
theorem cacheSound_nil : CacheSound scheme blockExec state [] := by
  intro hash cached
  cases cached

/-- After any run of ValidateBlock from the empty cache, the cache is sound. -/
theorem cacheSound_of_run
    {blocks : List Block}
    {cache : List Hash}
    (finished : Runs.run (validateStep scheme blockExec state) [] blocks = .ok cache) :
    CacheSound scheme blockExec state cache :=
  Runs.invariant_of_run (CacheSound scheme blockExec state)
    (fun _ _ _ sound stepped => validateStep_cacheSound sound stepped) cacheSound_nil finished

/--
What the cache guarantees: from a sound cache, a block ValidateBlock passes
has the hash of a block validateBlock accepts.  It need not be accepted
itself.
-/
theorem validateBlock_accepted_twin
    {cache next : List Hash}
    {block : Block}
    (sound : CacheSound scheme blockExec state cache)
    (passed : blockExec.validateBlock scheme cache state block = .ok (none, next)) :
    ∃ twin, twin.hash blockExec.hashing = block.hash blockExec.hashing ∧
      Kardia.validateBlock scheme blockExec.hashing blockExec.checkEvidence state twin =
        .ok none := by
  rcases validateBlock_cases passed with ⟨cached, -, -⟩ | ⟨-, validated, -⟩
  · exact sound _ cached
  · exact ⟨block, rfl, validated⟩

end Cache

end BlockExecutor

namespace ReplayedCommit

/-- The block the last commit is for. -/
def lastBlockID : BlockID :=
  ⟨⟨7⟩, ⟨1, ⟨9⟩⟩⟩

/-- One validator of power one, in every set of the state. -/
def validators : ValidatorSet :=
  ⟨[⟨⟨1⟩, 1, 0⟩], none, 1⟩

/-- The state after the first block. -/
def state : LatestBlockState where
  chainID := "kardia"
  initialHeight := 1
  lastBlockHeight := 1
  lastBlockID := lastBlockID
  lastBlockTime := ⟨0⟩
  nextValidators := validators
  validators := validators
  lastValidators := validators
  lastHeightValidatorsChanged := 0
  appHash := Hash.zero
  consensusParams := ⟨⟨104857600, 1000⟩, ⟨100000, 172800000000000⟩⟩

/-- The validator's precommit for the first block at round 0, signed at time 5. -/
def precommit : CommitSig :=
  let vote : Vote :=
    { validatorAddress := ⟨1⟩
      validatorIndex := 0
      height := 1
      round := 0
      timestamp := ⟨5⟩
      type := .precommitType
      blockID := lastBlockID
      signature := [] }
  ⟨.commit, ⟨1⟩, ⟨5⟩, KeyCollision.signedBy ⟨1⟩ (voteSignBytes KeyCollision.scheme "kardia" vote)⟩

/-- The commit for the first block. -/
def lastCommit : Commit :=
  ⟨lastBlockID, [precommit], 1, 0⟩

/-- The second block, its header filled in from the hashing. -/
def block (hashing : Hashing) : Block where
  header :=
    { height := 2
      time := ⟨5⟩
      numTxs := 0
      gasLimit := 0
      lastBlockID := lastBlockID
      proposerAddress := ⟨1⟩
      lastCommitHash := hashing.commitHash (some lastCommit)
      txHash := hashing.deriveSha []
      validatorsHash := hashing.validatorSetHash validators
      nextValidatorsHash := hashing.validatorSetHash validators
      consensusHash := Hash.zero
      appHash := Hash.zero
      evidenceHash := Hash.zero }
  transactions := []
  lastCommit := some lastCommit
  evidence := []

/-- The same block with the round of its last commit changed. -/
def twin (hashing : Hashing) : Block :=
  { block hashing with lastCommit := some { lastCommit with round := 1 } }

/-- An executor whose evidence pool accepts every list. -/
def executor (hashing : Hashing) (application : Application) : BlockExecutor :=
  ⟨hashing, fun _ => none, application, false⟩

/-- The validator's precommit verifies as a commit for the first block. -/
theorem lastCommit_verified :
    validators.verifyCommit KeyCollision.scheme "kardia" lastBlockID 1 (some lastCommit) =
      .ok none := by
  decide

/-- Moved to round 1, the same signature no longer verifies. -/
theorem replayed_not_verified :
    validators.verifyCommit KeyCollision.scheme "kardia" lastBlockID 1
        (some { lastCommit with round := 1 }) =
      .ok (some (.wrongSignature 0 precommit.signature)) := by
  decide

/-- The block and its twin pass ValidateBasic: their commits have one signature list. -/
theorem validateBasic_of_round
    (hashing : Hashing)
    (round : Nat) :
    { block hashing with lastCommit := some { lastCommit with round := round } }.validateBasic
        hashing =
      .ok () := by
  -- Commit.ValidateBasic reads no round
  have commitValid : { lastCommit with round := round }.validateBasic = .ok () :=
    (by decide : lastCommit.validateBasic = .ok ())
  simp [Block.validateBasic, block, commitValid, Runs.failIf, Hashing.commitHash,
    Hashing.evidenceListHash, Block.validateEvidenceFrom]
  rfl

/-- The header names the next height, the last block and the state's validators. -/
theorem validateHeaderInfo_block (hashing : Hashing) :
    validateHeaderInfo hashing state (block hashing) = none := by
  simp [validateHeaderInfo, block, state]

/-- The block time is the median of the last commit, later than the last block. -/
theorem validateBlockTime_block (hashing : Hashing) :
    validateBlockTime state (block hashing) = .ok none := by
  have median : medianTime lastCommit validators = ⟨5⟩ := by
    decide +kernel
  simp [validateBlockTime, block, state, median, Time.after]

end ReplayedCommit

open ReplayedCommit in
theorem validation_cache_passes_unverified_commit (hashing : Hashing) (application : Application) :
    (twin hashing).hash hashing = (block hashing).hash hashing ∧
      validateBlock KeyCollision.scheme hashing (fun _ => none) state (block hashing) = .ok none ∧
      validateBlock KeyCollision.scheme hashing (fun _ => none) state (twin hashing) =
        .ok (some (.verifyCommit (.wrongSignature 0 precommit.signature))) ∧
      (executor hashing application).validateBlock KeyCollision.scheme [] state (block hashing) =
        .ok (none, [(block hashing).hash hashing]) ∧
      (executor hashing application).validateBlock KeyCollision.scheme
          [(block hashing).hash hashing] state (twin hashing) =
        .ok (none, [(block hashing).hash hashing]) := by
  -- the twin differs from the block in its last commit only, which the header hashes
  -- through the signatures alone
  have sameHash : (twin hashing).hash hashing = (block hashing).hash hashing := rfl
  have accepted :
      validateBlock KeyCollision.scheme hashing (fun _ => none) state (block hashing) =
        .ok none := by
    have basic : (block hashing).validateBasic hashing = .ok () :=
      validateBasic_of_round hashing 0
    have commitOk : validateLastCommit KeyCollision.scheme state (block hashing) = .ok none := by
      simp [validateLastCommit, block, state, lastCommit_verified, Except.map]
    simp only [validateBlock, basic, validateHeaderInfo_block, commitOk, validateBlockTime_block]
    rfl
  have rejected :
      validateBlock KeyCollision.scheme hashing (fun _ => none) state (twin hashing) =
        .ok (some (.verifyCommit (.wrongSignature 0 precommit.signature))) := by
    have basic : (twin hashing).validateBasic hashing = .ok () :=
      validateBasic_of_round hashing 1
    have headerOk : validateHeaderInfo hashing state (twin hashing) = none :=
      validateHeaderInfo_block hashing
    have commitFails :
        validateLastCommit KeyCollision.scheme state (twin hashing) =
          .ok (some (.verifyCommit (.wrongSignature 0 precommit.signature))) := by
      simp [validateLastCommit, twin, block, state, replayed_not_verified, Except.map]
    simp only [validateBlock, basic, headerOk, commitFails]
  refine ⟨sameHash, accepted, rejected, ?_, ?_⟩
  · simp [BlockExecutor.validateBlock, executor, accepted, Except.map]
  · simp [BlockExecutor.validateBlock, executor, sameHash]

/-! ## Addresses of commit signatures -/

namespace CommitSig

/--
A signature with its address replaced: the flag, the timestamp and the
signature stay, and so does the address of an absent signature, which
ValidateBasic requires to be empty.
-/
def Readdressed (original relabelled : CommitSig) : Prop :=
  relabelled.blockIDFlag = original.blockIDFlag ∧
    relabelled.timestamp = original.timestamp ∧
    relabelled.signature = original.signature ∧
    (original.absent → relabelled.validatorAddress = original.validatorAddress)

section Readdressed

variable {original relabelled : CommitSig}

theorem Readdressed.absent_eq (readdressed : Readdressed original relabelled) :
    relabelled.absent = original.absent := by
  simp [absent, readdressed.1]

theorem Readdressed.blockID_eq
    (readdressed : Readdressed original relabelled)
    (commitBlockID : BlockID) :
    relabelled.blockID commitBlockID = original.blockID commitBlockID := by
  simp [blockID, readdressed.1]

/-- ValidateBasic reads the address of an absent signature only. -/
theorem Readdressed.validateBasic_eq (readdressed : Readdressed original relabelled) :
    relabelled.validateBasic = original.validateBasic := by
  obtain ⟨sameFlag, sameTime, sameSignature, sameAbsentAddress⟩ := readdressed
  unfold validateBasic
  rw [sameFlag, sameTime, sameSignature]
  cases flag : original.blockIDFlag with
  | absent =>
      have sameAddress := sameAbsentAddress (by simp [absent, flag])
      rw [sameAddress]
  | commit => rfl
  | nil => rfl

/-- The signed bytes of a precommit hold no address. -/
theorem Readdressed.voteSignBytes_eq
    (readdressed : Readdressed original relabelled)
    (scheme : SignatureScheme)
    (chainID : String)
    (commit : Commit)
    (valIdx : Nat) :
    voteSignBytes scheme chainID (commit.getVote valIdx relabelled) =
      voteSignBytes scheme chainID (commit.getVote valIdx original) := by
  simp [voteSignBytes, createCanonicalVote, Commit.getVote, readdressed.2.1,
    readdressed.blockID_eq]

end Readdressed

end CommitSig

/-- The signature loop of Commit.ValidateBasic reads no address of a present signature. -/
theorem Commit.validateSigsFrom_readdressed
    {signatures relabelled : List CommitSig}
    (readdressed : List.Forall₂ CommitSig.Readdressed signatures relabelled)
    (index : Nat) :
    Commit.validateSigsFrom index relabelled = Commit.validateSigsFrom index signatures := by
  induction readdressed generalizing index with
  | nil => rfl
  | cons sigReaddressed _ inductionHypothesis =>
      simp only [Commit.validateSigsFrom, sigReaddressed.validateBasic_eq, inductionHypothesis]

/--
The tally of VerifyCommit reads no address of a present signature: each is
checked against the validator at its index, over bytes that hold no address.
-/
theorem ValidatorSet.tallyCommitFrom_readdressed
    (scheme : SignatureScheme)
    (valSet : ValidatorSet)
    (chainID : String)
    (blockID : BlockID)
    (commit : Commit)
    (others : List CommitSig)
    {signatures relabelled : List CommitSig}
    (readdressed : List.Forall₂ CommitSig.Readdressed signatures relabelled)
    (index : Nat)
    (tallied : Int) :
    valSet.tallyCommitFrom scheme chainID blockID { commit with signatures := others } index
        relabelled tallied =
      valSet.tallyCommitFrom scheme chainID blockID commit index signatures tallied := by
  induction readdressed generalizing index tallied with
  | nil => rfl
  | @cons original relabelledSig _ _ sigReaddressed _ inductionHypothesis =>
      -- the commit enters the loop through GetVote, which reads no signature list
      have sameVote :
          voteSignBytes scheme chainID
              ({ commit with signatures := others }.getVote index relabelledSig) =
            voteSignBytes scheme chainID (commit.getVote index original) :=
        sigReaddressed.voteSignBytes_eq scheme chainID commit index
      simp only [ValidatorSet.tallyCommitFrom, sigReaddressed.absent_eq, sameVote,
        sigReaddressed.2.2.1, sigReaddressed.blockID_eq, inductionHypothesis]

/--
VerifyCommit gives the same verdict on a commit whose present signatures name
other addresses: nothing it checks reads them.
-/
theorem ValidatorSet.verifyCommit_readdressed
    (scheme : SignatureScheme)
    (valSet : ValidatorSet)
    (chainID : String)
    (blockID : BlockID)
    (height : Nat)
    (commit : Commit)
    {relabelled : List CommitSig}
    (readdressed : List.Forall₂ CommitSig.Readdressed commit.signatures relabelled) :
    valSet.verifyCommit scheme chainID blockID height (some { commit with signatures := relabelled }) =
      valSet.verifyCommit scheme chainID blockID height (some commit) := by
  have sameLength : relabelled.length = commit.signatures.length := readdressed.length_eq.symm
  have sameBasic :
      { commit with signatures := relabelled }.validateBasic = commit.validateBasic := by
    simp only [Commit.validateBasic, Commit.validateSigsFrom_readdressed readdressed,
      List.isEmpty_iff_length_eq_zero, sameLength]
  simp only [ValidatorSet.verifyCommit, sameBasic, sameLength,
    ValidatorSet.tallyCommitFrom_readdressed scheme valSet chainID blockID commit relabelled
      readdressed]

/--
On weighted times already in order, the sort of WeightedMedian leaves them
as they are and the median is the walk over them.
-/
theorem weightedMedian_of_sorted
    (weightedTimes : List (Option WeightedTime))
    (totalVotingPower : Int)
    (sorted :
      (weightedTimes.filterMap id).Pairwise fun first second =>
        first.time.nanos ≤ second.time.nanos) :
    weightedMedian weightedTimes totalVotingPower =
      medianFrom (totalVotingPower.tdiv 2) (weightedTimes.filterMap id) := by
  unfold weightedMedian
  rw [List.mergeSort_of_pairwise (by simpa using sorted)]

namespace SteeredTime

/-- The block of the commit. -/
def blockID : BlockID :=
  ⟨⟨7⟩, ⟨1, ⟨9⟩⟩⟩

/-- A correct validator of power five; the two of power one are faulty. -/
def validators : ValidatorSet :=
  ⟨[⟨⟨1⟩, 5, 0⟩, ⟨⟨2⟩, 1, 0⟩, ⟨⟨3⟩, 1, 0⟩], none, 7⟩

/-- The precommit of the validator at an index, at height 1, round 0, signed with its key. -/
def precommit (index : Nat) (nanos : Int) : CommitSig :=
  let vote : Vote :=
    { validatorAddress := ⟨index + 1⟩
      validatorIndex := index
      height := 1
      round := 0
      timestamp := ⟨nanos⟩
      type := .precommitType
      blockID := blockID
      signature := [] }
  ⟨.commit, ⟨index + 1⟩, ⟨nanos⟩,
    KeyCollision.signedBy ⟨index + 1⟩ (voteSignBytes KeyCollision.scheme "kardia" vote)⟩

/-- The correct validator signs at time 10, the faulty two at time 1000. -/
def honestCommit : Commit :=
  ⟨blockID, [precommit 0 10, precommit 1 1000, precommit 2 1000], 1, 0⟩

/-- The same commit with the faulty signatures naming the correct validator. -/
def commit : Commit :=
  { honestCommit with
    signatures :=
      [precommit 0 10, { precommit 1 1000 with validatorAddress := ⟨1⟩ },
        { precommit 2 1000 with validatorAddress := ⟨1⟩ }] }

end SteeredTime

open SteeredTime in
theorem readdressed_signatures_steer_median_time :
    validators.verifyCommit KeyCollision.scheme "kardia" blockID 1 (some commit) = .ok none ∧
      -- validators 1 and 2 are the faulty ones, with less than a third of the power
      3 * (validators.powerAt 1 + validators.powerAt 2) < validators.getTotalVotingPower ∧
      -- all three signed, and the correct one holds two thirds of the power that signed
      commit.signatures.all (fun commitSig => !commitSig.absent) ∧
      2 * validators.getTotalVotingPower ≤ 3 * validators.powerAt 0 ∧
      commit.signatures.head?.map CommitSig.timestamp = some ⟨10⟩ ∧
      medianTime commit validators = ⟨1000⟩ ∧
      medianTime honestCommit validators = ⟨10⟩ := by
  have honestVerified :
      validators.verifyCommit KeyCollision.scheme "kardia" blockID 1 (some honestCommit) =
        .ok none := by
    decide
  have readdressed : List.Forall₂ CommitSig.Readdressed honestCommit.signatures commit.signatures := by
    simp [honestCommit, commit, CommitSig.Readdressed, CommitSig.absent, precommit]
  refine ⟨?_, by decide, by decide, by decide, rfl, ?_, ?_⟩
  · rw [← honestVerified]
    exact ValidatorSet.verifyCommit_readdressed _ _ _ _ _ honestCommit readdressed
  -- the signatures are in time order, so the sort of the median is the identity
  · unfold medianTime
    rw [weightedMedian_of_sorted _ _ (by decide)]
    decide
  · unfold medianTime
    rw [weightedMedian_of_sorted _ _ (by decide)]
    decide

end Kardia
