import Kardia.Canonical

namespace Kardia

/-!
# Duplicate-vote evidence

The model of types/evidence.go and of VerifyDuplicateVote in
types/evidence/verify.go: the evidence that a validator signed two votes of
one height, round and type for two blocks, how consensus builds it, its
stateless check, and its check against the validator set of its height.

The checks compare the vote types the evidence carries, but a vote's
signature covers only its height, round, block and timestamp (see
Kardia.Canonical).  An honest prevote relabelled as a precommit still carries
a valid signature, and next to the same validator's honest precommit of that
round for another block it is accepted evidence.
-/

namespace Vote

/--
Vote.ValidateBasic.  BlockID.ValidateBasic runs only ValidateHash, which
every 32-byte hash passes, so the block identifier is checked only for being
zero or complete.
-/
def validateBasic (vote : Vote) : Except String Unit :=
  if !isVoteTypeValid vote.type then
    .error "invalid Type"
  else if !vote.blockID.isZero && !vote.blockID.isComplete then
    .error "blockID must be either empty or complete"
  else if vote.signature.isEmpty then
    .error "signature is missing"
  else
    .ok ()

end Vote

/--
DuplicateVoteEvidence.  Decoded evidence always has both votes: VoteFromProto
rejects a missing vote, so the nil-vote branch of ValidateBasic is not
modelled.
-/
structure DuplicateVoteEvidence where
  voteA : Vote
  voteB : Vote
  totalVotingPower : Int
  validatorPower : Int
  timestamp : Time
  deriving DecidableEq, Repr

namespace DuplicateVoteEvidence

/--
NewDuplicateVoteEvidence: the two votes ordered by block key, with the powers
of the validator set and the given time.  GetByAddress returns index -1
exactly when it returns no validator.
-/
def newDuplicateVoteEvidence
    (vote1 vote2 : Vote)
    (blockTime : Time)
    (valSet : ValidatorSet) :
    Option DuplicateVoteEvidence :=
  match (valSet.getByAddress vote1.validatorAddress).2 with
  | none => none
  | some val =>
      let (voteA, voteB) :=
        if vote1.blockID.key.lt vote2.blockID.key then (vote1, vote2) else (vote2, vote1)
      some
        { voteA := voteA
          voteB := voteB
          totalVotingPower := valSet.getTotalVotingPower
          validatorPower := val.votingPower
          timestamp := blockTime }

/-- DuplicateVoteEvidence.Height: the height of the first vote. -/
def height (evidence : DuplicateVoteEvidence) : Nat :=
  evidence.voteA.height

/-- DuplicateVoteEvidence.ValidateBasic: both votes well formed, keys in order. -/
def validateBasic (evidence : DuplicateVoteEvidence) : Except String Unit :=
  match evidence.voteA.validateBasic with
  | .error reason => .error ("invalid VoteA: " ++ reason)
  | .ok () =>
      match evidence.voteB.validateBasic with
      | .error reason => .error ("invalid VoteB: " ++ reason)
      | .ok () =>
          if !evidence.voteA.blockID.key.lt evidence.voteB.blockID.key then
            .error "duplicate votes in invalid order"
          else
            .ok ()

end DuplicateVoteEvidence

/--
VerifyDuplicateVote: the validator of the first vote is in the set, the votes
agree on height, round, type and address but not on the block, the powers
match the set, and both signatures verify for the validator's address.
-/
def verifyDuplicateVote
    (scheme : SignatureScheme)
    (evidence : DuplicateVoteEvidence)
    (chainID : String)
    (valSet : ValidatorSet) :
    Except String Unit :=
  let voteA := evidence.voteA
  let voteB := evidence.voteB
  match (valSet.getByAddress voteA.validatorAddress).2 with
  | none => .error "address was not a validator at height"
  | some val =>
      if voteA.height ≠ voteB.height ∨ voteA.round ≠ voteB.round ∨
          voteA.type ≠ voteB.type then
        .error "h/r/s does not match"
      else if voteA.validatorAddress ≠ voteB.validatorAddress then
        .error "validator addresses do not match"
      else if voteA.blockID = voteB.blockID then
        .error "block IDs are the same - not a real duplicate vote"
      else if val.votingPower ≠ evidence.validatorPower then
        .error "validator power from evidence and our validator set does not match"
      else if valSet.getTotalVotingPower ≠ evidence.totalVotingPower then
        .error "total voting power from the evidence and our validator set does not match"
      else if !scheme.verifySignature val.address
          (voteSignBytes scheme chainID voteA) voteA.signature then
        .error "verifying VoteA: invalid signature"
      else if !scheme.verifySignature val.address
          (voteSignBytes scheme chainID voteB) voteB.signature then
        .error "verifying VoteB: invalid signature"
      else
        .ok ()

/-! ## What the checks establish -/

/--
VerifyDuplicateVote accepts exactly evidence of two votes of one height,
round, type and signer for two blocks, with the set's powers and both
signatures valid for the signer.
-/
theorem verifyDuplicateVote_eq_ok_iff
    {scheme : SignatureScheme}
    {evidence : DuplicateVoteEvidence}
    {chainID : String}
    {valSet : ValidatorSet} :
    verifyDuplicateVote scheme evidence chainID valSet = .ok () ↔
      ∃ val, (valSet.getByAddress evidence.voteA.validatorAddress).2 = some val ∧
        evidence.voteA.height = evidence.voteB.height ∧
        evidence.voteA.round = evidence.voteB.round ∧
        evidence.voteA.type = evidence.voteB.type ∧
        evidence.voteA.validatorAddress = evidence.voteB.validatorAddress ∧
        evidence.voteA.blockID ≠ evidence.voteB.blockID ∧
        val.votingPower = evidence.validatorPower ∧
        valSet.getTotalVotingPower = evidence.totalVotingPower ∧
        scheme.verifySignature val.address
          (voteSignBytes scheme chainID evidence.voteA) evidence.voteA.signature ∧
        scheme.verifySignature val.address
          (voteSignBytes scheme chainID evidence.voteB) evidence.voteB.signature := by
  constructor
  · intro accepted
    unfold verifyDuplicateVote at accepted
    dsimp only at accepted
    cases found : (valSet.getByAddress evidence.voteA.validatorAddress).2 with
    | none =>
        simp [found] at accepted
    | some val =>
        simp only [found] at accepted
        refine ⟨val, rfl, ?_⟩
        split_ifs at accepted with sameStep sameAddress sameBlock samePower sameTotal
          signedA signedB
        simp only [not_or, not_not, Bool.not_eq_true'] at *
        simp_all
  · rintro ⟨val, found, sameHeight, sameRound, sameType, sameAddress, differentBlocks,
      samePower, sameTotal, signedA, signedB⟩
    unfold verifyDuplicateVote
    dsimp only
    rw [found]
    simp [sameHeight, sameRound, sameType, sameAddress, differentBlocks, samePower,
      sameTotal, signedA, signedB]

namespace BlockKey

/-- Two different keys are ordered one way or the other. -/
theorem lt_or_lt_of_ne
    {first second : BlockKey}
    (different : first ≠ second) :
    first.lt second = true ∨ second.lt first = true := by
  obtain ⟨⟨firstHash⟩, ⟨firstParts⟩⟩ := first
  obtain ⟨⟨secondHash⟩, ⟨secondParts⟩⟩ := second
  simp only [ne_eq, mk.injEq, Hash.mk.injEq] at different
  simp only [lt, Bool.or_eq_true, decide_eq_true_eq, Bool.and_eq_true, beq_iff_eq]
  omega

end BlockKey

/--
NewDuplicateVoteEvidence orders the votes by key, so evidence built from two
well-formed votes with different keys passes ValidateBasic.
-/
theorem validateBasic_newDuplicateVoteEvidence
    {vote1 vote2 : Vote}
    {blockTime : Time}
    {valSet : ValidatorSet}
    {evidence : DuplicateVoteEvidence}
    (built : DuplicateVoteEvidence.newDuplicateVoteEvidence vote1 vote2 blockTime valSet =
      some evidence)
    (basic1 : vote1.validateBasic = .ok ())
    (basic2 : vote2.validateBasic = .ok ())
    (differentKeys : vote1.blockID.key ≠ vote2.blockID.key) :
    evidence.validateBasic = .ok () := by
  unfold DuplicateVoteEvidence.newDuplicateVoteEvidence at built
  split at built
  · cases built
  · split_ifs at built with ordered
    · cases built
      simp [DuplicateVoteEvidence.validateBasic, basic1, basic2, ordered]
    · cases built
      have reversed : vote2.blockID.key.lt vote1.blockID.key = true := by
        have := BlockKey.lt_or_lt_of_ne differentKeys
        simp_all
      simp [DuplicateVoteEvidence.validateBasic, basic1, basic2, reversed]

/-- NewDuplicateVoteEvidence stamps the evidence with the time it is given. -/
theorem timestamp_of_newDuplicateVoteEvidence
    {vote1 vote2 : Vote}
    {blockTime : Time}
    {valSet : ValidatorSet}
    {evidence : DuplicateVoteEvidence}
    (built : DuplicateVoteEvidence.newDuplicateVoteEvidence vote1 vote2 blockTime valSet =
      some evidence) :
    evidence.timestamp = blockTime := by
  unfold DuplicateVoteEvidence.newDuplicateVoteEvidence at built
  split at built
  · cases built
  · split_ifs at built
    · cases built
      rfl
    · cases built
      rfl

/--
Any vote a validator signed, relabelled as a precommit, together with a
precommit it signed in the same round for a block of another key, is evidence
that NewDuplicateVoteEvidence builds and that ValidateBasic and
VerifyDuplicateVote accept.  The signature of the relabelled vote still
verifies because the sign bytes carry no vote type.
-/
theorem relabelled_vote_evidence_accepted
    (scheme : SignatureScheme)
    (chainID : String)
    (valSet : ValidatorSet)
    (blockTime : Time)
    {val : Validator}
    {signed precommit : Vote}
    (found : (valSet.getByAddress signed.validatorAddress).2 = some val)
    (signedValid : scheme.verifySignature val.address
      (voteSignBytes scheme chainID signed) signed.signature = true)
    (precommitValid : scheme.verifySignature val.address
      (voteSignBytes scheme chainID precommit) precommit.signature = true)
    (signedBasic : signed.validateBasic = .ok ())
    (precommitBasic : precommit.validateBasic = .ok ())
    (isPrecommit : precommit.type = .precommitType)
    (sameHeight : signed.height = precommit.height)
    (sameRound : signed.round = precommit.round)
    (sameSigner : signed.validatorAddress = precommit.validatorAddress)
    (differentKeys : signed.blockID.key ≠ precommit.blockID.key) :
    ∃ evidence,
      DuplicateVoteEvidence.newDuplicateVoteEvidence { signed with type := .precommitType }
          precommit blockTime valSet = some evidence ∧
        evidence.validateBasic = .ok () ∧
        verifyDuplicateVote scheme evidence chainID valSet = .ok () := by
  let relabelled : Vote := { signed with type := .precommitType }
  have relabelledValid : scheme.verifySignature val.address
      (voteSignBytes scheme chainID relabelled) relabelled.signature = true := by
    rw [voteSignBytes_eq_of_signedFields_eq scheme chainID
      (show relabelled.signedFields = signed.signedFields from rfl)]
    exact signedValid
  have relabelledBasic : relabelled.validateBasic = .ok () := by
    unfold Vote.validateBasic at signedBasic ⊢
    split_ifs at signedBasic
    simp_all [relabelled, isVoteTypeValid]
  have differentBlocks : signed.blockID ≠ precommit.blockID :=
    fun same => differentKeys (BlockID.key_eq_of_eq same)
  have precommitFound : (valSet.getByAddress precommit.validatorAddress).2 = some val := by
    rw [← sameSigner]
    exact found
  cases built : DuplicateVoteEvidence.newDuplicateVoteEvidence relabelled precommit
      blockTime valSet with
  | none =>
      simp [DuplicateVoteEvidence.newDuplicateVoteEvidence, relabelled, found] at built
  | some evidence =>
      refine ⟨evidence, rfl,
        validateBasic_newDuplicateVoteEvidence built relabelledBasic precommitBasic
          differentKeys, ?_⟩
      unfold DuplicateVoteEvidence.newDuplicateVoteEvidence at built
      simp only [relabelled, found, Option.some.injEq] at built
      rw [verifyDuplicateVote_eq_ok_iff]
      split_ifs at built <;> subst built
      · exact ⟨val, found, sameHeight, sameRound, isPrecommit.symm, sameSigner,
          differentBlocks, rfl, rfl, relabelledValid, precommitValid⟩
      · exact ⟨val, precommitFound, sameHeight.symm, sameRound.symm, isPrecommit,
          sameSigner.symm, Ne.symm differentBlocks, rfl, rfl, precommitValid,
          relabelledValid⟩

end Kardia
