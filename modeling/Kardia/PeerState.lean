import Kardia.ConsensusState

namespace Kardia

/-!
# The peer state of the consensus manager

The model of consensus/manager.go for the block parts a peer has: the part
of PeerRoundState that proposals and block parts use, the messages of the
state and data channels that change it, ConsensusManager.Receive for them,
and the first branch of gossipDataRoutine, which looks for the parts of the
node's proposal block that the peer lacks.

The bit arrays of the messages come from BitArray.FromProto, which takes the
size and the words from the wire independently, and the messages'
ValidateBasic reads only the size.  A peer state stays well formed while the
arrays it receives are: then Receive and the gossip never panic.  A
NewValidBlockMessage whose array has a size and no words passes
ValidateBasic, and once it is stored, the next block part of the peer panics
in Receive and gossipDataRoutine, which has no recover, panics in Sub.  And
Proposal.ValidateBasic does not bound the part count, so SetHasProposal
allocates a bit array of any size a peer names.

Left out: the vote bit arrays of the peer state and the messages that set
them, the start time, and the peer's last and catch-up commits.  Proposals
and block parts also go to the consensus state, which Kardia.ConsensusState
models.
-/

/-- BlockPartSizeBytes. -/
def blockPartSizeBytes : Nat :=
  65536

/-- MaxBlockPartsCount: the parts of a block of MaxBlockSizeBytes. -/
def maxBlockPartsCount : Nat :=
  104857600 / blockPartSizeBytes + 1

/-- Part.ValidateBasic. -/
def Part.validateBasic (part : Part) : Except String Unit :=
  if blockPartSizeBytes < part.bytes.length then
    .error ("Too big (max: " ++ toString blockPartSizeBytes ++ ")")
  else
    .ok ()

/-- Proposal.ValidateBasic: a complete POL block identifier and a signature. -/
def Proposal.validateBasic (proposal : Proposal) : Except String Unit :=
  if !proposal.polBlockID.isComplete then
    .error "expected a complete, non-empty BlockID"
  else if proposal.signature.isEmpty then
    .error "signature is missing"
  else
    .ok ()

/-! ## Messages -/

/-- NewRoundStepMessage, without the seconds since the start time. -/
structure NewRoundStepMessage where
  height : Nat
  round : Nat
  step : RoundStepType
  lastCommitRound : Nat
  deriving DecidableEq, Repr

/-- NewRoundStepMessage.ValidateHeight against the chain's initial height. -/
def NewRoundStepMessage.validateHeight (msg : NewRoundStepMessage) (initialHeight : Nat) :
    Except String Unit :=
  if msg.height < initialHeight then
    .error "invalid Height (lower than initial height)"
  else if msg.height = initialHeight ∧ msg.lastCommitRound ≠ 0 then
    .error "invalid LastCommitRound (must be 0 for initial height)"
  else
    .ok ()

/-- The wire form of a NewValidBlockMessage. -/
structure NewValidBlockProto where
  height : Nat
  round : Nat
  blockPartSetHeader : PartSetHeader
  blockParts : Option BitArray.Proto
  isCommit : Bool
  deriving DecidableEq, Repr

/-- NewValidBlockMessage. -/
structure NewValidBlockMessage where
  height : Nat
  round : Nat
  blockPartsHeader : PartSetHeader
  blockParts : BitArray
  isCommit : Bool
  deriving DecidableEq, Repr

/-- MsgFromProto for a NewValidBlockMessage: the bit array through BitArray.FromProto. -/
def NewValidBlockMessage.fromProto (proto : NewValidBlockProto) : NewValidBlockMessage where
  height := proto.height
  round := proto.round
  blockPartsHeader := proto.blockPartSetHeader
  blockParts := BitArray.fromProto proto.blockParts
  isCommit := proto.isCommit

/-- NewValidBlockMessage.ValidateBasic: it reads the size of the bit array only. -/
def NewValidBlockMessage.validateBasic (msg : NewValidBlockMessage) : Except String Unit :=
  if msg.blockParts.bits = 0 then
    .error "empty BlockParts"
  else if msg.blockParts.bits ≠ msg.blockPartsHeader.total then
    .error "BlockParts bit array size not equal to BlockPartsHeader.Total"
  else if maxBlockPartsCount < msg.blockParts.bits then
    .error "BlockParts bit array is too big"
  else
    .ok ()

/-- ProposalPOLMessage. -/
structure ProposalPOLMessage where
  height : Nat
  proposalPOLRound : Nat
  proposalPOL : BitArray
  deriving DecidableEq, Repr

/-- ProposalPOLMessage.ValidateBasic: it reads the size of the bit array only. -/
def ProposalPOLMessage.validateBasic (msg : ProposalPOLMessage) : Except String Unit :=
  if msg.proposalPOL.bits = 0 then .error "empty ProposalPOL bit array" else .ok ()

/-- BlockPartMessage. -/
structure BlockPartMessage where
  height : Nat
  round : Nat
  part : Part
  deriving DecidableEq, Repr

/-- BlockPartMessage.ValidateBasic. -/
def BlockPartMessage.validateBasic (msg : BlockPartMessage) : Except String Unit :=
  match msg.part.validateBasic with
  | .error reason => .error ("wrong BlockPart: " ++ reason)
  | .ok () => .ok ()

/-- The messages of the state and data channels that change a peer's block parts. -/
inductive PeerMessage where
  | newRoundStep (msg : NewRoundStepMessage)
  | newValidBlock (msg : NewValidBlockMessage)
  | proposal (proposal : Proposal)
  | proposalPOL (msg : ProposalPOLMessage)
  | blockPart (msg : BlockPartMessage)
  deriving DecidableEq, Repr

/-- The ValidateBasic of each message; a proposal is checked as ProposalFromProto checks it. -/
def PeerMessage.validateBasic : PeerMessage → Except String Unit
  | .newRoundStep _ => .ok ()
  | .newValidBlock msg => msg.validateBasic
  | .proposal signed => signed.validateBasic
  | .proposalPOL msg => msg.validateBasic
  | .blockPart msg => msg.validateBasic

/-- The channels of the consensus manager these messages arrive on. -/
inductive Channel where
  | state
  | data
  deriving DecidableEq, Repr

/-! ## The peer state -/

/-- The part of cstypes.PeerRoundState that proposals and block parts use. -/
structure PeerRoundState where
  height : Nat
  round : Nat
  step : RoundStepType
  proposal : Bool
  proposalBlockPartsHeader : PartSetHeader
  proposalBlockParts : Option BitArray
  proposalPOLRound : Nat
  proposalPOL : Option BitArray
  deriving DecidableEq, Repr

namespace PeerRoundState

/-- ApplyNewRoundStepMessage: a later step; a new height or round forgets the proposal. -/
def applyNewRoundStepMessage (prs : PeerRoundState) (msg : NewRoundStepMessage) :
    PeerRoundState :=
  if compareHRS msg.height msg.round msg.step prs.height prs.round prs.step ≤ 0 then
    prs
  else
    let moved := { prs with height := msg.height, round := msg.round, step := msg.step }
    if prs.height ≠ msg.height ∨ prs.round ≠ msg.round then
      { moved with
        proposal := false
        proposalBlockPartsHeader := ⟨0, Hash.zero⟩
        proposalBlockParts := none
        proposalPOLRound := 0
        proposalPOL := none }
    else
      moved

/-- ApplyNewValidBlockMessage: the peer's block parts become the message's, as sent. -/
def applyNewValidBlockMessage (prs : PeerRoundState) (msg : NewValidBlockMessage) :
    PeerRoundState :=
  if prs.height ≠ msg.height then
    prs
  else if prs.round ≠ msg.round ∧ !msg.isCommit then
    prs
  else
    { prs with
      proposalBlockPartsHeader := msg.blockPartsHeader
      proposalBlockParts := some msg.blockParts }

/--
SetHasProposal: the first proposal of the peer's round; without block parts
from a NewValidBlockMessage, the parts of its header are allocated.
-/
def setHasProposal (prs : PeerRoundState) (proposal : Proposal) : PeerRoundState :=
  if prs.height ≠ proposal.height ∨ prs.round ≠ proposal.round then
    prs
  else if prs.proposal then
    prs
  else
    let prs := { prs with proposal := true }
    if prs.proposalBlockParts.isSome then
      prs
    else
      { prs with
        proposalBlockPartsHeader := proposal.polBlockID.partsHeader
        proposalBlockParts := BitArray.newBitArray proposal.polBlockID.partsHeader.total
        proposalPOLRound := proposal.polRound
        proposalPOL := none }

/-- ApplyProposalPOLMessage: the POL bit array of the peer's POL round, as sent. -/
def applyProposalPOLMessage (prs : PeerRoundState) (msg : ProposalPOLMessage) :
    PeerRoundState :=
  if prs.height ≠ msg.height then
    prs
  else if prs.proposalPOLRound ≠ msg.proposalPOLRound then
    prs
  else
    { prs with proposalPOL := some msg.proposalPOL }

/-- SetHasProposalBlockPart: mark the part in the peer's round. -/
def setHasProposalBlockPart (prs : PeerRoundState) (height round index : Nat) :
    Except String PeerRoundState :=
  if prs.height ≠ height ∨ prs.round ≠ round then
    .ok prs
  else
    (BitArray.setIndexOpt prs.proposalBlockParts index true).map fun parts =>
      { prs with proposalBlockParts := parts }

end PeerRoundState

/--
ConsensusManager.Receive for the state and data channels, after decoding.  A
message that fails ValidateBasic stops the peer: its reason is returned and
the peer state kept.  A message on the other channel is logged and ignored,
and so is a new round step below the initial height.
-/
def receive (initialHeight : Nat) (prs : PeerRoundState) (channel : Channel)
    (msg : PeerMessage) : Except String (PeerRoundState × Option String) :=
  match msg.validateBasic with
  | .error reason => .ok (prs, some reason)
  | .ok () =>
      match channel, msg with
      | .state, .newRoundStep msg =>
          match msg.validateHeight initialHeight with
          | .error _ => .ok (prs, none)
          | .ok () => .ok (prs.applyNewRoundStepMessage msg, none)
      | .state, .newValidBlock msg => .ok (prs.applyNewValidBlockMessage msg, none)
      | .data, .proposal proposal => .ok (prs.setHasProposal proposal, none)
      | .data, .proposalPOL msg => .ok (prs.applyProposalPOLMessage msg, none)
      | .data, .blockPart msg =>
          (prs.setHasProposalBlockPart msg.height msg.round msg.part.index).map
            fun prs => (prs, none)
      | _, _ => .ok (prs, none)

/-! ## Gossip of block parts -/

/-- The word of a list of bits from a position on: bit b of it is the bit at start + b. -/
def PartSet.partsWord (received : List Bool) (start : Nat) : Nat :=
  (List.range 64).foldl
    (fun word bit => if received.getD (start + bit) false then word ||| 2 ^ bit else word) 0

/--
PartSet.BitArray: the parts received, as NewBitArray and SetIndex keep them;
nil for a part set of no parts.
-/
def PartSet.bitArray (partSet : PartSet) : Option BitArray :=
  if partSet.total = 0 then
    none
  else
    some ⟨partSet.total,
      (List.range ((partSet.total + 63) / 64)).map fun index =>
        PartSet.partsWord (partSet.parts.map Option.isSome) (index * 64)⟩

/--
The first branch of gossipDataRoutine: with the node's proposal block parts
under the header the peer has, the parts the node has and the peer lacks.
One of them is sent (PickRandom, which reads the array within its words);
the copy the code takes of the peer's array is equal to it.
-/
def gossipBlockParts (proposalBlockParts : Option PartSet) (prs : PeerRoundState) :
    Except String (Option BitArray) :=
  if PartSet.hasHeader proposalBlockParts prs.proposalBlockPartsHeader then
    BitArray.subOpt (proposalBlockParts.bind PartSet.bitArray) prs.proposalBlockParts
  else
    .ok none

/-! ## Well-formed peer states never panic -/

/-- The part set's bit array has its part count as size and is well formed. -/
theorem PartSet.bitArray_eq
    {partSet : PartSet}
    (positive : 0 < partSet.total) :
    ∃ bitArray, partSet.bitArray = some bitArray ∧
      bitArray.bits = partSet.total ∧ bitArray.WellFormed := by
  unfold PartSet.bitArray
  rw [if_neg (Nat.pos_iff_ne_zero.mp positive)]
  exact ⟨_, rfl, rfl, by simp [BitArray.WellFormed]⟩

theorem PartSet.bitArray_wellFormed
    (partSet : PartSet) :
    BitArray.WellFormedOpt partSet.bitArray := by
  by_cases empty : partSet.total = 0
  · simp [PartSet.bitArray, empty, BitArray.WellFormedOpt]
  · obtain ⟨bitArray, stored, -, wellFormed⟩ := PartSet.bitArray_eq (Nat.pos_of_ne_zero empty)
    rw [stored]
    exact wellFormed

/-- The arrays a message carries are well formed. -/
def PeerMessage.WellFormed : PeerMessage → Prop
  | .newValidBlock msg => msg.blockParts.WellFormed
  | .proposalPOL msg => msg.proposalPOL.WellFormed
  | _ => True

namespace PeerRoundState

/-- The peer's bit arrays are nil or well formed. -/
def WellFormed (prs : PeerRoundState) : Prop :=
  BitArray.WellFormedOpt prs.proposalBlockParts ∧ BitArray.WellFormedOpt prs.proposalPOL

variable {prs : PeerRoundState}

theorem applyNewRoundStepMessage_wellFormed
    (wellFormed : prs.WellFormed)
    (msg : NewRoundStepMessage) :
    (prs.applyNewRoundStepMessage msg).WellFormed := by
  unfold applyNewRoundStepMessage
  split_ifs
  · exact wellFormed
  · exact ⟨trivial, trivial⟩
  · exact wellFormed

theorem applyNewValidBlockMessage_wellFormed
    (wellFormed : prs.WellFormed)
    {msg : NewValidBlockMessage}
    (partsWellFormed : msg.blockParts.WellFormed) :
    (prs.applyNewValidBlockMessage msg).WellFormed := by
  unfold applyNewValidBlockMessage
  split_ifs
  · exact wellFormed
  · exact wellFormed
  · exact ⟨partsWellFormed, wellFormed.2⟩

/-- SetHasProposal allocates the parts with NewBitArray, which is well formed. -/
theorem setHasProposal_wellFormed
    (wellFormed : prs.WellFormed)
    (proposal : Proposal) :
    (prs.setHasProposal proposal).WellFormed := by
  unfold setHasProposal
  split_ifs
  · exact wellFormed
  · exact wellFormed
  · dsimp only
    split_ifs
    · exact wellFormed
    · exact ⟨(BitArray.newBitArray_bitsOf proposal.polBlockID.partsHeader.total).1, trivial⟩

theorem applyProposalPOLMessage_wellFormed
    (wellFormed : prs.WellFormed)
    {msg : ProposalPOLMessage}
    (polWellFormed : msg.proposalPOL.WellFormed) :
    (prs.applyProposalPOLMessage msg).WellFormed := by
  unfold applyProposalPOLMessage
  split_ifs
  · exact wellFormed
  · exact wellFormed
  · exact ⟨wellFormed.1, polWellFormed⟩

theorem setHasProposalBlockPart_wellFormed
    (wellFormed : prs.WellFormed)
    (height round index : Nat) :
    ∃ next, prs.setHasProposalBlockPart height round index = .ok next ∧ next.WellFormed := by
  unfold setHasProposalBlockPart
  split_ifs
  · exact ⟨prs, rfl, wellFormed⟩
  · obtain ⟨parts, written, partsWellFormed⟩ :=
      BitArray.setIndexOpt_ok_of_wellFormedOpt wellFormed.1 index true
    rw [written]
    exact ⟨_, rfl, partsWellFormed, wellFormed.2⟩

end PeerRoundState

/-- Receive of a message with well-formed arrays never panics and keeps the peer state well formed. -/
theorem receive_wellFormed
    {initialHeight : Nat}
    {prs : PeerRoundState}
    {channel : Channel}
    {msg : PeerMessage}
    (wellFormed : prs.WellFormed)
    (msgWellFormed : msg.WellFormed) :
    ∃ next reason, receive initialHeight prs channel msg = .ok (next, reason) ∧ next.WellFormed := by
  unfold receive
  split
  · exact ⟨prs, _, rfl, wellFormed⟩
  -- one case for each handler the channel dispatches to
  split
  · split
    · exact ⟨prs, none, rfl, wellFormed⟩
    · exact ⟨_, none, rfl, PeerRoundState.applyNewRoundStepMessage_wellFormed wellFormed _⟩
  · exact ⟨_, none, rfl, PeerRoundState.applyNewValidBlockMessage_wellFormed wellFormed msgWellFormed⟩
  · exact ⟨_, none, rfl, PeerRoundState.setHasProposal_wellFormed wellFormed _⟩
  · exact ⟨_, none, rfl, PeerRoundState.applyProposalPOLMessage_wellFormed wellFormed msgWellFormed⟩
  · rename_i blockPart _
    obtain ⟨next, marked, nextWellFormed⟩ :=
      PeerRoundState.setHasProposalBlockPart_wellFormed wellFormed blockPart.height
        blockPart.round blockPart.part.index
    rw [marked]
    exact ⟨next, none, rfl, nextWellFormed⟩
  · exact ⟨prs, none, rfl, wellFormed⟩

/-- The gossip of block parts to a well-formed peer state never panics. -/
theorem gossipBlockParts_ok
    {proposalBlockParts : Option PartSet}
    {prs : PeerRoundState}
    (wellFormed : prs.WellFormed) :
    ∃ missing, gossipBlockParts proposalBlockParts prs = .ok missing := by
  unfold gossipBlockParts
  split_ifs
  · have ours : BitArray.WellFormedOpt (proposalBlockParts.bind PartSet.bitArray) := by
      cases proposalBlockParts with
      | none => trivial
      | some partSet => exact PartSet.bitArray_wellFormed partSet
    cases ourParts : proposalBlockParts.bind PartSet.bitArray with
    | none =>
        exact ⟨none, by simp [BitArray.subOpt]⟩
    | some bitArray =>
        rw [ourParts] at ours
        cases peerParts : prs.proposalBlockParts with
        | none =>
            exact ⟨none, by simp [BitArray.subOpt]⟩
        | some other =>
            have otherWellFormed : other.WellFormed := by
              have peerWellFormed := wellFormed.1
              rw [peerParts] at peerWellFormed
              exact peerWellFormed
            obtain ⟨missing, subtracted, -⟩ := BitArray.sub_of_wellFormed ours otherWellFormed
            exact ⟨some missing, by simp [BitArray.subOpt, subtracted, Except.map]⟩
  · exact ⟨none, rfl⟩

/--
A peer that only sends messages with well-formed arrays never makes Receive
or the gossip of block parts panic, in any order of its messages.
-/
theorem receive_run_never_panics
    (initialHeight : Nat)
    {prs : PeerRoundState}
    (wellFormed : prs.WellFormed)
    {inputs : List (Channel × PeerMessage)}
    (arraysWellFormed : ∀ input ∈ inputs, input.2.WellFormed)
    (proposalBlockParts : Option PartSet) :
    ∃ final,
      Runs.run (fun prs input => (receive initialHeight prs input.1 input.2).map Prod.fst)
          prs inputs = .ok final ∧
        final.WellFormed ∧ ∃ missing, gossipBlockParts proposalBlockParts final = .ok missing := by
  have handled : ∀ (state : PeerRoundState) (input : Channel × PeerMessage), input ∈ inputs →
      state.WellFormed →
      ∃ next, (receive initialHeight state input.1 input.2).map Prod.fst = .ok next ∧
        next.WellFormed := by
    intro state input member stateWellFormed
    obtain ⟨next, reason, received, nextWellFormed⟩ :=
      receive_wellFormed stateWellFormed (arraysWellFormed input member)
    exact ⟨next, by rw [received]; rfl, nextWellFormed⟩
  obtain ⟨final, finished, finalWellFormed⟩ :=
    Runs.run_eq_ok_of_step PeerRoundState.WellFormed handled wellFormed
  exact ⟨final, finished, finalWellFormed, gossipBlockParts_ok finalWellFormed⟩

/-! ## A bit array without words -/

/-- FromProto of a size without words gives that size and no words. -/
theorem BitArray.fromProto_without_words
    (bits : Nat) :
    BitArray.fromProto (some ⟨bits, []⟩) = ⟨bits, []⟩ := by
  simp [BitArray.fromProto]

/--
Proposal.ValidateBasic bounds no part count: a valid proposal of the peer's
round, before any parts, makes SetHasProposal allocate a bit array of its
header's part count, however large.
-/
theorem receive_proposal_allocates
    (initialHeight : Nat)
    {prs : PeerRoundState}
    {proposal : Proposal}
    (valid : proposal.validateBasic = .ok ())
    (atHeight : prs.height = proposal.height)
    (atRound : prs.round = proposal.round)
    (fresh : prs.proposal = false)
    (noParts : prs.proposalBlockParts = none) :
    ∃ next, receive initialHeight prs .data (.proposal proposal) = .ok (next, none) ∧
      BitArray.size next.proposalBlockParts = proposal.polBlockID.partsHeader.total := by
  refine ⟨prs.setHasProposal proposal, by simp [receive, PeerMessage.validateBasic, valid], ?_⟩
  have allocated :
      (prs.setHasProposal proposal).proposalBlockParts =
        BitArray.newBitArray proposal.polBlockID.partsHeader.total := by
    simp [PeerRoundState.setHasProposal, atHeight, atRound, fresh, noParts]
  rw [allocated]
  cases made : BitArray.newBitArray proposal.polBlockID.partsHeader.total with
  | none =>
      -- only a zero count allocates nothing
      unfold BitArray.newBitArray at made
      split at made
      · simp [BitArray.size]
        omega
      · cases made
  | some bitArray =>
      obtain ⟨-, bits, -⟩ := BitArray.newBitArray_spec made
      simpa [BitArray.size] using bits

/--
For every part count a block can have, a NewValidBlockMessage whose bit
array has that size and no words passes ValidateBasic.  Stored as the peer's
block parts, it makes the peer's next block part panic in Receive, and the
gossip of block parts panic for a node whose proposal has that header.
-/
theorem newValidBlock_without_words_crashes
    (initialHeight : Nat)
    (prs : PeerRoundState)
    (partSet : PartSet)
    (isCommit : Bool)
    (positive : 0 < partSet.total)
    (bounded : partSet.total ≤ maxBlockPartsCount) :
    ∃ stored,
      receive initialHeight prs .state
          (.newValidBlock (NewValidBlockMessage.fromProto
            ⟨prs.height, prs.round, PartSet.header (some partSet),
              some ⟨partSet.total, []⟩, isCommit⟩)) = .ok (stored, none) ∧
        receive initialHeight stored .data (.blockPart ⟨prs.height, prs.round, ⟨0, [], default⟩⟩) =
          .error indexOutOfRange ∧
        gossipBlockParts (some partSet) stored = .error indexOutOfRange := by
  let stored : PeerRoundState :=
    { prs with
      proposalBlockPartsHeader := PartSet.header (some partSet)
      proposalBlockParts := some ⟨partSet.total, []⟩ }
  have decoded :
      NewValidBlockMessage.fromProto
          ⟨prs.height, prs.round, PartSet.header (some partSet), some ⟨partSet.total, []⟩,
            isCommit⟩ =
        ⟨prs.height, prs.round, PartSet.header (some partSet), ⟨partSet.total, []⟩, isCommit⟩ := by
    simp [NewValidBlockMessage.fromProto, BitArray.fromProto_without_words]
  refine ⟨stored, ?_, ?_, ?_⟩
  · -- ValidateBasic reads only the size, which is the header's part count
    rw [decoded]
    simp [receive, PeerMessage.validateBasic, NewValidBlockMessage.validateBasic,
      PeerRoundState.applyNewValidBlockMessage, PartSet.header, Nat.pos_iff_ne_zero.mp positive,
      Nat.not_lt.mpr bounded, stored]
  · -- the part's index is below the size, and there is no word to write it in
    have missing : BitArray.setIndex ⟨partSet.total, []⟩ 0 true = .error indexOutOfRange :=
      BitArray.setIndex_of_missing_words positive rfl true
    simp [receive, PeerMessage.validateBasic, BlockPartMessage.validateBasic,
      Part.validateBasic, PeerRoundState.setHasProposalBlockPart, BitArray.setIndexOpt,
      stored, missing, Except.map]
  · -- the node's parts have the peer's header, and Sub reads the peer's missing words
    obtain ⟨ours, bitArrayOurs, oursBits, -⟩ := PartSet.bitArray_eq positive
    have hasHeader : PartSet.hasHeader (some partSet) stored.proposalBlockPartsHeader = true := by
      simp [PartSet.hasHeader, PartSet.header, stored]
    have subtracted : ours.sub ⟨partSet.total, []⟩ = .error indexOutOfRange :=
      BitArray.sub_of_missing_words (by rw [oursBits]) (by rw [oursBits]; exact positive) rfl
    unfold gossipBlockParts
    rw [if_pos hasHeader]
    simp [bitArrayOurs, BitArray.subOpt, stored, subtracted, Except.map]

namespace OnePart

/-- A peer at height 1, round 1, that has announced no proposal. -/
def peer : PeerRoundState :=
  ⟨1, 1, .propose, false, ⟨0, Hash.zero⟩, none, 0, none⟩

/-- The node's part set of a proposal block of one part, none received. -/
def partSet : PartSet :=
  PartSet.newPartSetFromHeader ⟨1, ⟨5⟩⟩

end OnePart

theorem newValidBlock_without_words_crashes_one_part :
    0 < OnePart.partSet.total ∧ OnePart.partSet.total ≤ maxBlockPartsCount ∧
      ∃ stored,
        receive 1 OnePart.peer .state
            (.newValidBlock (NewValidBlockMessage.fromProto
              ⟨OnePart.peer.height, OnePart.peer.round, PartSet.header (some OnePart.partSet),
                some ⟨OnePart.partSet.total, []⟩, false⟩)) = .ok (stored, none) ∧
          receive 1 stored .data
              (.blockPart ⟨OnePart.peer.height, OnePart.peer.round, ⟨0, [], default⟩⟩) =
            .error indexOutOfRange ∧
          gossipBlockParts (some OnePart.partSet) stored = .error indexOutOfRange :=
  ⟨by decide, by decide,
    newValidBlock_without_words_crashes 1 OnePart.peer OnePart.partSet false (by decide) (by decide)⟩

end Kardia
