import Kardia.Types

namespace Kardia

/-!
# Canonical sign bytes

types/canonical_types.go builds the message a validator signs: a canonical
vote or a canonical proposal, which VoteSignBytes and ProposalSignBytes then
encode with gogo-protobuf's MarshalDelimited.  The encoding and ECDSA address
recovery are third-party code, so they are the two fields of a signature
scheme, a parameter of every function that signs or verifies.

CreateCanonicalVote writes the constant PrevoteType into the canonical vote,
whatever the vote's own type.  A prevote and a precommit that agree on height,
round, block and timestamp therefore have the same sign bytes, and one
signature verifies for both.  Equal sign bytes still fix the kind of message
(vote or proposal), the height, the round, the block identifier, the
timestamp and, for proposals, the POL round.
-/

/-- The canonical form of a non-nil block identifier. -/
structure CanonicalBlockID where
  hash : Hash
  partSetHeader : PartSetHeader
  deriving DecidableEq, Repr

/-- kproto.CanonicalVote. -/
structure CanonicalVote where
  type : SignedMsgType
  height : Nat
  round : Nat
  blockID : Option CanonicalBlockID
  timestamp : Time
  chainID : String
  deriving DecidableEq, Repr

/-- kproto.CanonicalProposal. -/
structure CanonicalProposal where
  type : SignedMsgType
  height : Nat
  round : Nat
  polRound : Nat
  blockID : Option CanonicalBlockID
  timestamp : Time
  chainID : String
  deriving DecidableEq, Repr

/-- The two messages MarshalDelimited encodes for signing. -/
inductive CanonicalMessage where
  | vote (canonical : CanonicalVote)
  | proposal (canonical : CanonicalProposal)
  deriving DecidableEq, Repr

/--
The primitives signing rests on: MarshalDelimited of a canonical message,
and VerifySignature(address, Keccak256(bytes), signature), which recovers the
signer's address from the signature over the hashed bytes.
-/
structure SignatureScheme where
  marshalDelimited : CanonicalMessage → List UInt8
  verifySignature : Address → List UInt8 → Signature → Bool

/--
CanonicalizeBlockID: nil for a zero identifier.  BlockIDFromProto cannot
fail on the proto of a BlockID (every 32-byte hash passes ValidateHash), so
its panic is unreachable and not modelled.
-/
def canonicalizeBlockID (blockID : BlockID) : Option CanonicalBlockID :=
  if blockID.isZero then
    none
  else
    some ⟨blockID.hash, blockID.partsHeader⟩

/-- CreateCanonicalVote, with the constant PrevoteType of the source. -/
def createCanonicalVote (chainID : String) (vote : Vote) : CanonicalVote where
  type := .prevoteType
  height := vote.height
  round := vote.round
  blockID := canonicalizeBlockID vote.blockID
  timestamp := vote.timestamp
  chainID := chainID

/-- CreateCanonicalProposal. -/
def createCanonicalProposal (chainID : String) (proposal : Proposal) :
    CanonicalProposal where
  type := .proposalType
  height := proposal.height
  round := proposal.round
  polRound := proposal.polRound
  blockID := canonicalizeBlockID proposal.polBlockID
  timestamp := proposal.timestamp
  chainID := chainID

/-- VoteSignBytes. -/
def voteSignBytes
    (scheme : SignatureScheme)
    (chainID : String)
    (vote : Vote) :
    List UInt8 :=
  scheme.marshalDelimited (.vote (createCanonicalVote chainID vote))

/-- ProposalSignBytes. -/
def proposalSignBytes
    (scheme : SignatureScheme)
    (chainID : String)
    (proposal : Proposal) :
    List UInt8 :=
  scheme.marshalDelimited (.proposal (createCanonicalProposal chainID proposal))

/-- The errors of Vote.Verify. -/
inductive VerifyError where
  | invalidValidatorAddress
  | invalidSignature
  deriving DecidableEq, Repr

/-- Vote.Verify: the address must match and the signature must verify. -/
def Vote.verify
    (scheme : SignatureScheme)
    (vote : Vote)
    (chainID : String)
    (address : Address) :
    Except VerifyError Unit :=
  if vote.validatorAddress ≠ address then
    .error .invalidValidatorAddress
  else if !scheme.verifySignature address (voteSignBytes scheme chainID vote)
      vote.signature then
    .error .invalidSignature
  else
    .ok ()

/-- Canonicalization loses nothing: a block identifier is recovered from it. -/
theorem canonicalizeBlockID_injective :
    Function.Injective canonicalizeBlockID := by
  intro first second sameCanonical
  unfold canonicalizeBlockID at sameCanonical
  by_cases firstZero : first.isZero
  · by_cases secondZero : second.isZero
    · rcases first with ⟨⟨firstHash⟩, ⟨firstTotal, ⟨firstPartsHash⟩⟩⟩
      rcases second with ⟨⟨secondHash⟩, ⟨secondTotal, ⟨secondPartsHash⟩⟩⟩
      simp_all [BlockID.isZero, PartSetHeader.isZero, Hash.isZero]
    · simp [firstZero, secondZero] at sameCanonical
  · by_cases secondZero : second.isZero
    · simp [firstZero, secondZero] at sameCanonical
    · simp only [firstZero, secondZero, Bool.false_eq_true, ↓reduceIte,
        Option.some.injEq, CanonicalBlockID.mk.injEq] at sameCanonical
      obtain ⟨sameHash, sameHeader⟩ := sameCanonical
      cases first
      cases second
      simp_all

/-- The vote fields a canonical vote records. -/
def Vote.signedFields (vote : Vote) : Nat × Nat × BlockID × Time :=
  (vote.height, vote.round, vote.blockID, vote.timestamp)

/-- Canonical votes agree exactly when the signed fields agree. -/
theorem createCanonicalVote_eq_iff
    (chainID : String)
    (first second : Vote) :
    createCanonicalVote chainID first = createCanonicalVote chainID second ↔
      first.signedFields = second.signedFields := by
  constructor
  · intro sameCanonical
    simp only [createCanonicalVote, CanonicalVote.mk.injEq] at sameCanonical
    obtain ⟨-, sameHeight, sameRound, sameBlock, sameTime, -⟩ := sameCanonical
    simp [Vote.signedFields, sameHeight, sameRound,
      canonicalizeBlockID_injective sameBlock, sameTime]
  · intro sameFields
    simp only [Vote.signedFields, Prod.mk.injEq] at sameFields
    obtain ⟨sameHeight, sameRound, sameBlock, sameTime⟩ := sameFields
    simp [createCanonicalVote, sameHeight, sameRound, sameBlock, sameTime]

/--
Under an injective encoding, two votes have equal sign bytes exactly when
they agree on height, round, block and timestamp; their types play no part.
-/
theorem voteSignBytes_eq_iff
    (scheme : SignatureScheme)
    (injective : Function.Injective scheme.marshalDelimited)
    (chainID : String)
    (first second : Vote) :
    voteSignBytes scheme chainID first = voteSignBytes scheme chainID second ↔
      first.signedFields = second.signedFields := by
  rw [← createCanonicalVote_eq_iff chainID]
  constructor
  · intro sameBytes
    have sameMessage := injective sameBytes
    simpa using sameMessage
  · intro sameCanonical
    simp [voteSignBytes, sameCanonical]

/--
Sign bytes depend on the signed fields only, under any encoding: a vote with
another type but the same height, round, block and timestamp verifies with
the same signature.
-/
theorem voteSignBytes_eq_of_signedFields_eq
    (scheme : SignatureScheme)
    (chainID : String)
    {first second : Vote}
    (sameFields : first.signedFields = second.signedFields) :
    voteSignBytes scheme chainID first = voteSignBytes scheme chainID second := by
  have sameCanonical := (createCanonicalVote_eq_iff chainID first second).mpr sameFields
  simp [voteSignBytes, sameCanonical]

/-- Verification reads the signed fields, the address and the signature only. -/
theorem Vote.verify_eq_of_signedFields_eq
    (scheme : SignatureScheme)
    (chainID : String)
    (address : Address)
    {first second : Vote}
    (sameFields : first.signedFields = second.signedFields)
    (sameAddress : first.validatorAddress = second.validatorAddress)
    (sameSignature : first.signature = second.signature) :
    first.verify scheme chainID address = second.verify scheme chainID address := by
  simp [Vote.verify, sameAddress, sameSignature,
    voteSignBytes_eq_of_signedFields_eq scheme chainID sameFields]

/-- A message a validator signs in consensus: a vote or a proposal. -/
inductive SignableMessage where
  | vote (vote : Vote)
  | proposal (proposal : Proposal)
  deriving DecidableEq, Repr

namespace SignableMessage

/-- The bytes signed for the message. -/
def signBytes (scheme : SignatureScheme) (chainID : String) :
    SignableMessage → List UInt8
  | .vote signedVote => voteSignBytes scheme chainID signedVote
  | .proposal signedProposal => proposalSignBytes scheme chainID signedProposal

/-- The message type a message carries. -/
def msgType : SignableMessage → SignedMsgType
  | .vote signedVote => signedVote.type
  | .proposal _ => .proposalType

/-- Whether a message is one the consensus engine signs. -/
def IsSignable : SignableMessage → Prop
  | .vote signedVote =>
      signedVote.type = .prevoteType ∨ signedVote.type = .precommitType
  | .proposal _ => True

/-- Height, round, POL round (zero for votes), block and timestamp. -/
def meaning : SignableMessage → Nat × Nat × Nat × BlockID × Time
  | .vote signedVote =>
      (signedVote.height, signedVote.round, 0, signedVote.blockID,
        signedVote.timestamp)
  | .proposal signedProposal =>
      (signedProposal.height, signedProposal.round, signedProposal.polRound,
        signedProposal.polBlockID, signedProposal.timestamp)

/-- Whether the message is a proposal. -/
def isProposal : SignableMessage → Bool
  | .vote _ => false
  | .proposal _ => true

end SignableMessage

/--
What equal sign bytes do fix: whether the message is a vote or a proposal,
and its height, round, POL round, block identifier and timestamp.
-/
theorem signBytes_eq_fixes_meaning
    (scheme : SignatureScheme)
    (injective : Function.Injective scheme.marshalDelimited)
    (chainID : String)
    (first second : SignableMessage)
    (sameBytes : first.signBytes scheme chainID = second.signBytes scheme chainID) :
    first.isProposal = second.isProposal ∧ first.meaning = second.meaning := by
  cases first with
  | vote firstVote =>
      cases second with
      | vote secondVote =>
          have sameFields :=
            (voteSignBytes_eq_iff scheme injective chainID firstVote secondVote).mp
              sameBytes
          simp only [Vote.signedFields, Prod.mk.injEq] at sameFields
          simp [SignableMessage.isProposal, SignableMessage.meaning, sameFields]
      | proposal secondProposal =>
          have sameMessage := injective sameBytes
          simp at sameMessage
  | proposal firstProposal =>
      cases second with
      | vote secondVote =>
          have sameMessage := injective sameBytes
          simp at sameMessage
      | proposal secondProposal =>
          have sameMessage := injective sameBytes
          simp only [CanonicalMessage.proposal.injEq, createCanonicalProposal,
            CanonicalProposal.mk.injEq] at sameMessage
          obtain ⟨-, sameHeight, sameRound, samePol, sameBlock, sameTime, -⟩ :=
            sameMessage
          simp [SignableMessage.isProposal, SignableMessage.meaning, sameHeight,
            sameRound, samePol, canonicalizeBlockID_injective sameBlock, sameTime]

/--
A prevote and the precommit with the same height, round, block and timestamp,
both signable, carry equal sign bytes under every signature scheme: signing
domains are not separated by the vote type.
-/
theorem signingDomains_not_separated
    (scheme : SignatureScheme) :
    ¬ ∀ (chainID : String) (first second : SignableMessage),
        first.IsSignable →
        second.IsSignable →
        first.signBytes scheme chainID = second.signBytes scheme chainID →
        first.msgType = second.msgType ∧ first.meaning = second.meaning := by
  intro separated
  let prevote : Vote :=
    { validatorAddress := ⟨1⟩
      validatorIndex := 0
      height := 1
      round := 1
      timestamp := ⟨0⟩
      type := .prevoteType
      blockID := ⟨⟨1⟩, ⟨1, ⟨1⟩⟩⟩
      signature := [1] }
  let precommit : Vote := { prevote with type := .precommitType }
  have sameBytes :
      (SignableMessage.vote prevote).signBytes scheme "kardia" =
        (SignableMessage.vote precommit).signBytes scheme "kardia" :=
    voteSignBytes_eq_of_signedFields_eq scheme "kardia" rfl
  have sameType :=
    (separated "kardia" (.vote prevote) (.vote precommit)
      (Or.inl rfl) (Or.inr rfl) sameBytes).1
  simp [SignableMessage.msgType, prevote, precommit] at sameType

end Kardia
