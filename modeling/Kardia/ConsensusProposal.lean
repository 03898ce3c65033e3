import Kardia.ConsensusAgreement

namespace Kardia

/-!
# The proposal a node stores

The comment at setProposal asks for a POL round of -1 or between 0 and the
proposal's round.  Kardia counts rounds from 1 and keeps POLRound unsigned,
with 0 for no POL round.  The guard translated from the signed check,
POLRound < 1 && (POLRound > 0 || POLRound > Round), asks for a number below
1 that is above 0 or above the round, and no unsigned number is.  So
setProposal stores every proposal of the node's height and round that the
proposer signed, whatever its POL round.
-/

namespace ConsensusState

variable {env : Environment}

/-- The POL-round guard of setProposal holds of no proposal. -/
theorem polRound_guard_never (proposal : Proposal) :
    ¬ (proposal.polRound < 1 ∧ (0 < proposal.polRound ∨ proposal.round < proposal.polRound)) := by
  rintro ⟨belowOne, positive | aboveRound⟩
  · omega
  · omega

/--
setProposal stores every proposal of the node's height and round that the
proposer signed, when the node has none.
-/
theorem setProposal_stores
    {cs : ConsensusState}
    {proposal : Proposal}
    {proposer : Validator}
    (empty : cs.proposal = none)
    (height : proposal.height = cs.height)
    (round : proposal.round = cs.round)
    (chosen : ValidatorSet.getProposer cs.validators = .ok (some proposer))
    (signed : env.scheme.verifySignature proposer.address
      (proposalSignBytes env.scheme cs.state.chainID proposal) proposal.signature = true) :
    ∃ next, setProposal env cs proposal = .ok (next, none) ∧ next.proposal = some proposal := by
  unfold setProposal
  rw [if_neg (by simp [empty]), if_neg (by omega), if_neg (polRound_guard_never proposal), chosen]
  simp only [Except.bind, signed, Bool.not_true, Bool.false_eq_true, if_false]
  split_ifs
  · exact ⟨_, rfl, rfl⟩
  · exact ⟨_, rfl, rfl⟩

/-! ## A proposal whose POL round is not below its round -/

namespace LatePOL

open ForgedPrecommit

/-- W's proposal of B for round 1 that names round 5 as its POL round, signed with W's key. -/
def proposal : Proposal :=
  let unsigned : Proposal := ⟨1, 1, 5, ⟨0⟩, blockID blockB, []⟩
  { unsigned with
    signature := KeyCollision.signedBy ⟨3⟩ (proposalSignBytes KeyCollision.scheme "kardia" unsigned) }

/-- X enters round 1 and receives W's proposal. -/
def inputs : List ConsensusInput :=
  [.timeout ⟨0⟩ ⟨1, 1, .newHeight⟩, .message ⟨0⟩ (.proposal proposal) "w"]

end LatePOL

end ConsensusState

end Kardia
