import Kardia.VoteSetInvariant

namespace Kardia

/-!
# Height vote sets

The model of consensus/types/height_vote_set.go: the prevote and precommit
vote sets of every round of one height.  SetRound creates the rounds from one
below the tracked round up to the new one, and a peer may open up to two
further rounds by sending votes for them (catch-up rounds).

A round, once created, is never replaced, and its vote sets change only by
AddVote and SetPeerMaj23.  So every majority a vote set of the height has
found stays found: the relation Keeps below, which every operation of the
height vote set satisfies and which the lock invariant of the consensus state
rests on.
-/

/-- The two vote sets of one round. -/
structure RoundVoteSet where
  prevotes : VoteSet
  precommits : VoteSet

/-- HeightVoteSet: the rounds' vote sets, the tracked round and the catch-up rounds. -/
structure HeightVoteSet where
  chainID : String
  height : Nat
  valSet : ValidatorSet
  round : Nat
  roundVoteSets : Nat → Option RoundVoteSet
  peerCatchupRounds : PeerID → List Nat

namespace HeightVoteSet

/-- The two fresh vote sets of a round, as addRound creates them. -/
def newRoundVoteSet (hvs : HeightVoteSet) (round : Nat) : Except String RoundVoteSet := do
  let prevotes ← VoteSet.newVoteSet hvs.chainID hvs.height round .prevoteType hvs.valSet
  let precommits ← VoteSet.newVoteSet hvs.chainID hvs.height round .precommitType hvs.valSet
  pure ⟨prevotes, precommits⟩

/-- addRound, which panics for a round that exists. -/
def addRound (hvs : HeightVoteSet) (round : Nat) : Except String HeightVoteSet :=
  match hvs.roundVoteSets round with
  | some _ => .error "addRound() for an existing round"
  | none =>
      (hvs.newRoundVoteSet round).map fun roundVoteSet =>
        { hvs with
          roundVoteSets := Function.update hvs.roundVoteSets round (some roundVoteSet) }

/-- NewHeightVoteSet: round 1 created and tracked. -/
def newHeightVoteSet (chainID : String) (height : Nat) (valSet : ValidatorSet) :
    Except String HeightVoteSet :=
  let empty : HeightVoteSet :=
    { chainID := chainID
      height := height
      valSet := valSet
      round := 0
      roundVoteSets := fun _ => none
      peerCatchupRounds := fun _ => [] }
  (empty.addRound 1).map fun hvs => { hvs with round := 1 }

/--
The loop of SetRound: from a round on, for a number of rounds, add every
round that does not exist yet.
-/
def addMissingRounds (hvs : HeightVoteSet) (round : Nat) :
    Nat → Except String HeightVoteSet
  | 0 => .ok hvs
  | count + 1 =>
      let added :=
        if (hvs.roundVoteSets round).isSome then .ok hvs else hvs.addRound round
      added.bind fun hvs => addMissingRounds hvs (round + 1) count

/--
SetRound: create the rounds from one below the tracked round up to the new
round and track it.  It panics when the round would go back.
-/
def setRound (hvs : HeightVoteSet) (round : Nat) : Except String HeightVoteSet :=
  let newRound := hvs.round - 1
  if hvs.round ≠ 1 ∧ round < newRound then
    .error "SetRound() must increment hvs.round"
  else
    (hvs.addMissingRounds newRound (round + 1 - newRound)).map fun hvs =>
      { hvs with round := round }

/--
getVoteSet: the vote set of a round and vote type, nil for a round that does
not exist.  Its callers pass only vote types, so its panic on another type is
not modelled.
-/
def getVoteSet (hvs : HeightVoteSet) (round : Nat) (signedMsgType : SignedMsgType) :
    Option VoteSet :=
  (hvs.roundVoteSets round).bind fun roundVoteSet =>
    match signedMsgType with
    | .prevoteType => some roundVoteSet.prevotes
    | .precommitType => some roundVoteSet.precommits
    | _ => none

/-- Write back the vote set of an existing round, as Go mutates it in place. -/
def setVoteSet (hvs : HeightVoteSet) (round : Nat) (signedMsgType : SignedMsgType)
    (voteSet : VoteSet) : HeightVoteSet :=
  { hvs with
    roundVoteSets := Function.update hvs.roundVoteSets round
      ((hvs.roundVoteSets round).map fun roundVoteSet =>
        match signedMsgType with
        | .prevoteType => { roundVoteSet with prevotes := voteSet }
        | .precommitType => { roundVoteSet with precommits := voteSet }
        | _ => roundVoteSet) }

/-- Prevotes(round). -/
def prevotes (hvs : HeightVoteSet) (round : Nat) : Option VoteSet :=
  hvs.getVoteSet round .prevoteType

/-- Precommits(round). -/
def precommits (hvs : HeightVoteSet) (round : Nat) : Option VoteSet :=
  hvs.getVoteSet round .precommitType

/-- Add a vote to a vote set of the height and write the set back. -/
def addVoteTo
    (scheme : SignatureScheme)
    (hvs : HeightVoteSet)
    (voteSet : VoteSet)
    (vote : Vote) :
    Except String (HeightVoteSet × Bool × Option VoteError) :=
  (voteSet.addVote scheme vote).map fun (updated, added, voteError) =>
    (hvs.setVoteSet vote.round vote.type updated, added, voteError)

/--
AddVote: a vote for a round that does not exist opens it as a catch-up round
of the sending peer, at most two per peer.
-/
def addVote
    (scheme : SignatureScheme)
    (hvs : HeightVoteSet)
    (vote : Vote)
    (peerID : PeerID) :
    Except String (HeightVoteSet × Bool × Option VoteError) :=
  if !isVoteTypeValid vote.type then
    .ok (hvs, false, some .nilVoteType)
  else
    match hvs.getVoteSet vote.round vote.type with
    | some voteSet => hvs.addVoteTo scheme voteSet vote
    | none =>
        let rndz := hvs.peerCatchupRounds peerID
        if rndz.length < 2 then do
          -- addRound of a round that getVoteSet found missing
          let roundVoteSet ← hvs.newRoundVoteSet vote.round
          let opened :=
            { hvs with
              roundVoteSets := Function.update hvs.roundVoteSets vote.round (some roundVoteSet)
              peerCatchupRounds := Function.update hvs.peerCatchupRounds peerID
                (rndz ++ [vote.round]) }
          let voteSet :=
            if vote.type = .prevoteType then roundVoteSet.prevotes else roundVoteSet.precommits
          opened.addVoteTo scheme voteSet vote
        else
          .ok (hvs, false, some .gotVoteFromUnwantedRound)

/-- SetPeerMaj23 on the vote set of a round, if it exists. -/
def setPeerMaj23
    (hvs : HeightVoteSet)
    (round : Nat)
    (signedMsgType : SignedMsgType)
    (peerID : PeerID)
    (blockID : BlockID) :
    HeightVoteSet × Option String :=
  if !isVoteTypeValid signedMsgType then
    (hvs, some "SetPeerMaj23: Invalid vote type")
  else
    match hvs.getVoteSet round signedMsgType with
    | none => (hvs, none)
    | some voteSet =>
        let (updated, peerError) := voteSet.setPeerMaj23 peerID blockID
        (hvs.setVoteSet round signedMsgType updated, peerError)

/-- The loop of POLInfo, from a round down to round 1. -/
def polInfoFrom (hvs : HeightVoteSet) : Nat → Nat × BlockID
  | 0 => (0, BlockID.zero)
  | round + 1 =>
      match (hvs.prevotes (round + 1)).bind VoteSet.maj23 with
      | some polBlockID => (round + 1, polBlockID)
      | none => hvs.polInfoFrom round

/-- POLInfo: the latest round with a prevote majority, and its block. -/
def polInfo (hvs : HeightVoteSet) : Nat × BlockID :=
  hvs.polInfoFrom hvs.round

end HeightVoteSet

/-- TwoThirdsMajority of a possibly nil vote set. -/
def VoteSet.majorityOf (voteSet : Option VoteSet) : BlockID × Bool :=
  match voteSet with
  | none => (BlockID.zero, false)
  | some voteSet => voteSet.twoThirdsMajority

/-- HasTwoThirdsAny of a possibly nil vote set. -/
def VoteSet.anyOf (voteSet : Option VoteSet) : Bool :=
  match voteSet with
  | none => false
  | some voteSet => voteSet.hasTwoThirdsAny

/-! ## Majorities are kept -/

namespace HeightVoteSet

/--
Every vote set of the first height vote set is still in the second, with
every majority it had found.
-/
def Keeps (old new : HeightVoteSet) : Prop :=
  ∀ round signedMsgType voteSet,
    old.getVoteSet round signedMsgType = some voteSet →
    ∃ kept, new.getVoteSet round signedMsgType = some kept ∧
      ∀ maj23, voteSet.maj23 = some maj23 → kept.maj23 = some maj23

theorem Keeps.refl (hvs : HeightVoteSet) : hvs.Keeps hvs :=
  fun _ _ voteSet found => ⟨voteSet, found, fun _ has => has⟩

theorem Keeps.trans
    {first second third : HeightVoteSet}
    (firstKept : first.Keeps second)
    (secondKept : second.Keeps third) :
    first.Keeps third := by
  intro round signedMsgType voteSet found
  obtain ⟨middle, middleFound, middleKeeps⟩ := firstKept round signedMsgType voteSet found
  obtain ⟨last, lastFound, lastKeeps⟩ := secondKept round signedMsgType middle middleFound
  exact ⟨last, lastFound, fun maj23 has => lastKeeps maj23 (middleKeeps maj23 has)⟩

/-- A majority found in the vote set of a round is found in every later one. -/
theorem Keeps.majority
    {old new : HeightVoteSet}
    {round : Nat}
    {signedMsgType : SignedMsgType}
    {maj23 : BlockID}
    (kept : old.Keeps new)
    (found : (old.getVoteSet round signedMsgType).bind VoteSet.maj23 = some maj23) :
    (new.getVoteSet round signedMsgType).bind VoteSet.maj23 = some maj23 := by
  obtain ⟨voteSet, voteSetFound, hasMaj23⟩ := Option.bind_eq_some_iff.mp found
  obtain ⟨keptSet, keptFound, keeps⟩ := kept round signedMsgType voteSet voteSetFound
  simp [keptFound, keeps maj23 hasMaj23]

/-- Creating rounds that do not exist keeps every existing vote set. -/
theorem addRound_keeps
    {hvs added : HeightVoteSet}
    {round : Nat}
    (addedOk : hvs.addRound round = .ok added) :
    hvs.Keeps added := by
  unfold addRound at addedOk
  split at addedOk
  · cases addedOk
  · next missing =>
      obtain ⟨roundVoteSet, -, rfl⟩ := Runs.map_eq_ok addedOk
      intro other signedMsgType voteSet found
      have otherExists : (hvs.roundVoteSets other).isSome := by
        cases existing : hvs.roundVoteSets other with
        | none => simp [getVoteSet, existing] at found
        | some _ => rfl
      have different : other ≠ round := by
        rintro rfl
        simp [missing] at otherExists
      refine ⟨voteSet, ?_, fun _ has => has⟩
      simpa [getVoteSet, Function.update_of_ne different] using found

/-- The loop of SetRound keeps every existing vote set. -/
theorem addMissingRounds_keeps
    {hvs added : HeightVoteSet}
    {round count : Nat}
    (addedOk : hvs.addMissingRounds round count = .ok added) :
    hvs.Keeps added := by
  induction count generalizing hvs round with
  | zero =>
      cases addedOk
      exact Keeps.refl _
  | succ count inductionHypothesis =>
      unfold addMissingRounds at addedOk
      obtain ⟨middle, middleOk, restOk⟩ := Runs.bind_eq_ok addedOk
      have firstKeeps : hvs.Keeps middle := by
        split_ifs at middleOk
        · cases middleOk
          exact Keeps.refl hvs
        · exact addRound_keeps middleOk
      exact firstKeeps.trans (inductionHypothesis restOk)

/-- SetRound keeps every existing vote set. -/
theorem setRound_keeps
    {hvs updated : HeightVoteSet}
    {round : Nat}
    (updatedOk : hvs.setRound round = .ok updated) :
    hvs.Keeps updated := by
  unfold setRound at updatedOk
  dsimp only at updatedOk
  split_ifs at updatedOk
  obtain ⟨added, addedOk, rfl⟩ := Runs.map_eq_ok updatedOk
  intro other signedMsgType voteSet found
  exact addMissingRounds_keeps addedOk other signedMsgType voteSet found

/-- Writing back a vote set that keeps the old one's majority keeps every vote set. -/
theorem setVoteSet_keeps
    {hvs : HeightVoteSet}
    {round : Nat}
    {signedMsgType : SignedMsgType}
    {voteSet updated : VoteSet}
    (current : hvs.getVoteSet round signedMsgType = some voteSet)
    (keepsMajority : ∀ maj23, voteSet.maj23 = some maj23 → updated.maj23 = some maj23) :
    hvs.Keeps (hvs.setVoteSet round signedMsgType updated) := by
  intro other otherType otherSet found
  by_cases sameRound : other = round
  · subst sameRound
    obtain ⟨roundVoteSet, roundFound, typed⟩ := Option.bind_eq_some_iff.mp found
    obtain ⟨currentRound, currentFound, currentTyped⟩ := Option.bind_eq_some_iff.mp current
    rw [roundFound, Option.some.injEq] at currentFound
    subst currentFound
    by_cases sameType : otherType = signedMsgType
    · subst sameType
      rw [typed, Option.some.injEq] at currentTyped
      subst currentTyped
      refine ⟨updated, ?_, keepsMajority⟩
      cases otherType <;> simp_all [getVoteSet, setVoteSet]
    · refine ⟨otherSet, ?_, fun _ has => has⟩
      cases otherType <;> cases signedMsgType <;> simp_all [getVoteSet, setVoteSet]
  · refine ⟨otherSet, ?_, fun _ has => has⟩
    simpa [getVoteSet, setVoteSet, Function.update_of_ne sameRound] using found

/-- A vote set is found only in a round that exists. -/
theorem roundVoteSets_isSome_of_getVoteSet
    {hvs : HeightVoteSet}
    {round : Nat}
    {signedMsgType : SignedMsgType}
    {voteSet : VoteSet}
    (found : hvs.getVoteSet round signedMsgType = some voteSet) :
    (hvs.roundVoteSets round).isSome := by
  obtain ⟨roundVoteSet, roundFound, -⟩ := Option.bind_eq_some_iff.mp found
  simp [roundFound]

/-- For a vote type, no vote set is found exactly when the round does not exist. -/
theorem roundVoteSets_eq_none_of_getVoteSet
    {hvs : HeightVoteSet}
    {round : Nat}
    {signedMsgType : SignedMsgType}
    (validType : isVoteTypeValid signedMsgType = true)
    (missing : hvs.getVoteSet round signedMsgType = none) :
    hvs.roundVoteSets round = none := by
  cases existing : hvs.roundVoteSets round with
  | none => rfl
  | some roundVoteSet =>
      cases signedMsgType <;> simp_all [getVoteSet, isVoteTypeValid]

/-- AddVote keeps every existing vote set: a vote set keeps its majority. -/
theorem addVote_keeps
    {scheme : SignatureScheme}
    {hvs updated : HeightVoteSet}
    {vote : Vote}
    {peerID : PeerID}
    {added : Bool}
    {voteError : Option VoteError}
    (addedOk : hvs.addVote scheme vote peerID = .ok (updated, added, voteError)) :
    hvs.Keeps updated := by
  unfold addVote at addedOk
  by_cases invalidType : isVoteTypeValid vote.type = false
  · simp only [invalidType, Bool.not_false, if_true] at addedOk
    cases addedOk
    exact Keeps.refl _
  · have validType : isVoteTypeValid vote.type = true := by simpa using invalidType
    simp only [validType, Bool.not_true, Bool.false_eq_true, if_false] at addedOk
    cases current : hvs.getVoteSet vote.round vote.type with
    | some voteSet =>
        simp only [current] at addedOk
        obtain ⟨⟨voteSet', added', voteError'⟩, voteSetOk, written⟩ := Runs.map_eq_ok addedOk
        cases written
        exact setVoteSet_keeps current fun _ has => VoteSet.addVote_maj23 voteSetOk has
    | none =>
        have roundMissing := roundVoteSets_eq_none_of_getVoteSet validType current
        simp only [current] at addedOk
        by_cases fewRounds : (hvs.peerCatchupRounds peerID).length < 2
        · rw [if_pos fewRounds] at addedOk
          obtain ⟨roundVoteSet, -, addedTo⟩ := Runs.bind_eq_ok addedOk
          obtain ⟨⟨voteSet', added', voteError'⟩, -, written⟩ := Runs.map_eq_ok addedTo
          cases written
          -- every vote set found before lies in another round than the opened one
          intro other otherType otherSet found
          have different : other ≠ vote.round := by
            rintro rfl
            have exists' := roundVoteSets_isSome_of_getVoteSet found
            simp [roundMissing] at exists'
          refine ⟨otherSet, ?_, fun _ has => has⟩
          simpa [getVoteSet, setVoteSet, Function.update_of_ne different] using found
        · rw [if_neg fewRounds] at addedOk
          cases addedOk
          exact Keeps.refl _

/-- SetPeerMaj23 keeps every existing vote set: it never changes a majority. -/
theorem setPeerMaj23_keeps
    (hvs : HeightVoteSet)
    (round : Nat)
    (signedMsgType : SignedMsgType)
    (peerID : PeerID)
    (blockID : BlockID) :
    hvs.Keeps (hvs.setPeerMaj23 round signedMsgType peerID blockID).1 := by
  unfold setPeerMaj23
  split_ifs
  · exact Keeps.refl hvs
  · split
    · exact Keeps.refl hvs
    · next voteSet current =>
        obtain ⟨peerMaj23s, votesByBlock, claimed, -⟩ :=
          VoteSet.setPeerMaj23_eq voteSet peerID blockID
        refine setVoteSet_keeps current fun maj23 has => ?_
        rw [claimed]
        exact has

end HeightVoteSet

end Kardia
