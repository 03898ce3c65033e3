import Kardia.Scheduler
import Kardia.KeyedFold
import Kardia.Runs

namespace Kardia

namespace Blockchain

namespace Scheduler

/-!
# The bookkeeping of the scheduler

The scheduler keeps four maps of the blocks it syncs in step: the pending
blocks and their request times are the heights in state Pending, the
received blocks those in state Received; every block pending from or
received from a peer is in the range of a ready peer; and every tracked
height lies in the window of targetPending heights from the scheduler's
height.  Every handler keeps this bookkeeping, a reset keeps it when no block
is tracked yet, and so every state of a run from newScheduler, reset at most
at its start, satisfies it.

The emitted events keep step with the pending blocks: a block is pending
from a peer only while the last event the scheduler emitted about its height
is its request to that peer.  So a block is reported received only from the
peer it was last requested from, and not twice for one request.
-/

/-- The peer is known, ready, and its range reaches the height. -/
def ReadyAt (sc : Scheduler) (peerID : PeerID) (height : UInt64) : Prop :=
  ∃ peer, sc.peers[peerID]? = some peer ∧ peer.state = .ready ∧ height ≤ peer.height

/-- The bookkeeping of the maps of blocks and peers. -/
structure Bookkeeping (sc : Scheduler) : Prop where
  /-- The pending blocks are the heights in state Pending. -/
  pending_iff : ∀ height, height ∈ sc.pendingBlocks ↔ sc.blockStates[height]? = some .pending
  /-- Exactly the pending blocks have a request time. -/
  pendingTime_iff : ∀ height, height ∈ sc.pendingTime ↔ height ∈ sc.pendingBlocks
  /-- The received blocks are the heights in state Received. -/
  received_iff : ∀ height, height ∈ sc.receivedBlocks ↔ sc.blockStates[height]? = some .received
  /-- A block is pending from a ready peer whose range reaches it. -/
  pending_ready : ∀ height peerID, sc.pendingBlocks[height]? = some peerID → sc.ReadyAt peerID height
  /-- A block is received from a ready peer whose range reaches it. -/
  received_ready :
    ∀ height peerID, sc.receivedBlocks[height]? = some peerID → sc.ReadyAt peerID height
  /-- Every tracked height lies in the window from the scheduler's height. -/
  window : ∀ height ∈ sc.blockStates,
    sc.height ≤ height ∧ (height.toNat : Int) < sc.height.toNat + sc.targetPending
  /-- Every peer is stored under its own ID. -/
  peer_key : ∀ (peerID : PeerID) (peer : ScPeer), sc.peers[peerID]? = some peer → peer.peerID = peerID

section Maps

variable {sc : Scheduler}

theorem Bookkeeping.mem_blockStates_of_pending
    (kept : Bookkeeping sc)
    {height : UInt64}
    {peerID : PeerID}
    (pending : sc.pendingBlocks[height]? = some peerID) :
    sc.blockStates[height]? = some .pending :=
  (kept.pending_iff height).mp (Std.TreeMap.mem_iff_isSome_getElem?.mpr (by simp [pending]))

theorem Bookkeeping.mem_blockStates_of_received
    (kept : Bookkeeping sc)
    {height : UInt64}
    {peerID : PeerID}
    (received : sc.receivedBlocks[height]? = some peerID) :
    sc.blockStates[height]? = some .received :=
  (kept.received_iff height).mp (Std.TreeMap.mem_iff_isSome_getElem?.mpr (by simp [received]))

/-- No block is both pending and received. -/
theorem Bookkeeping.not_received_of_pending
    (kept : Bookkeeping sc)
    {height : UInt64}
    {peerID : PeerID}
    (pending : sc.pendingBlocks[height]? = some peerID) :
    sc.receivedBlocks[height]? = none := by
  cases received : sc.receivedBlocks[height]? with
  | none => rfl
  | some receivedFrom =>
      have asPending := kept.mem_blockStates_of_pending pending
      rw [kept.mem_blockStates_of_received received] at asPending
      cases asPending

end Maps

/-! ## removePeer -/

section RemovePeer

variable (peerID : PeerID)

/-- The body of the loop over the pending blocks touches its own height only. -/
theorem resetPending_local :
    KeyedFold.Local (resetPending peerID)
      (fun sc height =>
        (sc.blockStates[height]?, sc.pendingTime[height]?, sc.pendingBlocks[height]?))
      (fun before pendingPeerID =>
        if pendingPeerID = peerID then (some .new, none, none) else before) := by
  constructor
  · intro sc height pendingPeerID other otherHeight
    unfold resetPending
    split <;> simp [Std.TreeMap.getElem?_insert, Std.TreeMap.getElem?_erase, Ne.symm otherHeight]
  · intro sc height pendingPeerID
    unfold resetPending
    split <;> simp [*]

/-- The body of the loop over the received blocks touches its own height only. -/
theorem resetReceived_local :
    KeyedFold.Local (resetReceived peerID)
      (fun sc height => (sc.blockStates[height]?, sc.receivedBlocks[height]?))
      (fun before rcvPeerID => if rcvPeerID = peerID then (some .new, none) else before) := by
  constructor
  · intro sc height rcvPeerID other otherHeight
    unfold resetReceived
    split <;> simp [Std.TreeMap.getElem?_insert, Std.TreeMap.getElem?_erase, Ne.symm otherHeight]
  · intro sc height rcvPeerID
    unfold resetReceived
    split <;> simp [*]

/-- After the loop over the pending blocks, those of the peer are New and no longer pending. -/
theorem foldl_resetPending_view (sc : Scheduler) (height : UInt64) :
    ((sc.pendingBlocks.foldl (resetPending peerID) sc).blockStates[height]?,
        (sc.pendingBlocks.foldl (resetPending peerID) sc).pendingTime[height]?,
        (sc.pendingBlocks.foldl (resetPending peerID) sc).pendingBlocks[height]?) =
      if sc.pendingBlocks[height]? = some peerID then
        (some .new, none, none)
      else
        (sc.blockStates[height]?, sc.pendingTime[height]?, sc.pendingBlocks[height]?) := by
  rw [KeyedFold.treeMap_foldl_view (resetPending_local peerID)]
  cases sc.pendingBlocks[height]? with
  | none => simp
  | some pendingPeerID =>
      by_cases same : pendingPeerID = peerID <;> simp [same]

/-- After the loop over the received blocks, those of the peer are New and no longer received. -/
theorem foldl_resetReceived_view (sc : Scheduler) (height : UInt64) :
    ((sc.receivedBlocks.foldl (resetReceived peerID) sc).blockStates[height]?,
        (sc.receivedBlocks.foldl (resetReceived peerID) sc).receivedBlocks[height]?) =
      if sc.receivedBlocks[height]? = some peerID then
        (some .new, none)
      else
        (sc.blockStates[height]?, sc.receivedBlocks[height]?) := by
  rw [KeyedFold.treeMap_foldl_view (resetReceived_local peerID)]
  cases sc.receivedBlocks[height]? with
  | none => simp
  | some rcvPeerID =>
      by_cases same : rcvPeerID = peerID <;> simp [same]

/-- The loop over the pending blocks leaves the peers and the received blocks. -/
theorem foldl_resetPending_frame (sc : Scheduler) :
    (sc.pendingBlocks.foldl (resetPending peerID) sc).peers = sc.peers ∧
      (sc.pendingBlocks.foldl (resetPending peerID) sc).receivedBlocks = sc.receivedBlocks ∧
      (sc.pendingBlocks.foldl (resetPending peerID) sc).height = sc.height ∧
      (sc.pendingBlocks.foldl (resetPending peerID) sc).targetPending = sc.targetPending := by
  simpa only [Prod.mk.injEq] using KeyedFold.treeMap_foldl_frame
    (fun sc : Scheduler => (sc.peers, sc.receivedBlocks, sc.height, sc.targetPending))
    (fun state height pendingPeerID => by unfold resetPending; split <;> rfl) sc.pendingBlocks sc

/-- The loop over the received blocks leaves the peers and the pending blocks. -/
theorem foldl_resetReceived_frame (sc : Scheduler) :
    (sc.receivedBlocks.foldl (resetReceived peerID) sc).peers = sc.peers ∧
      (sc.receivedBlocks.foldl (resetReceived peerID) sc).pendingBlocks = sc.pendingBlocks ∧
      (sc.receivedBlocks.foldl (resetReceived peerID) sc).pendingTime = sc.pendingTime ∧
      (sc.receivedBlocks.foldl (resetReceived peerID) sc).height = sc.height ∧
      (sc.receivedBlocks.foldl (resetReceived peerID) sc).targetPending = sc.targetPending := by
  simpa only [Prod.mk.injEq] using KeyedFold.treeMap_foldl_frame
    (fun sc : Scheduler =>
      (sc.peers, sc.pendingBlocks, sc.pendingTime, sc.height, sc.targetPending))
    (fun state height rcvPeerID => by unfold resetReceived; split <;> rfl) sc.receivedBlocks sc

theorem foldl_resetPending_blockStates (sc : Scheduler) (height : UInt64) :
    (sc.pendingBlocks.foldl (resetPending peerID) sc).blockStates[height]? =
      if sc.pendingBlocks[height]? = some peerID then some .new else sc.blockStates[height]? := by
  have view := foldl_resetPending_view peerID sc height
  split_ifs at view ⊢ <;> simp only [Prod.mk.injEq] at view <;> exact view.1

theorem foldl_resetPending_pendingTime (sc : Scheduler) (height : UInt64) :
    (sc.pendingBlocks.foldl (resetPending peerID) sc).pendingTime[height]? =
      if sc.pendingBlocks[height]? = some peerID then none else sc.pendingTime[height]? := by
  have view := foldl_resetPending_view peerID sc height
  split_ifs at view ⊢ <;> simp only [Prod.mk.injEq] at view <;> exact view.2.1

theorem foldl_resetPending_pendingBlocks (sc : Scheduler) (height : UInt64) :
    (sc.pendingBlocks.foldl (resetPending peerID) sc).pendingBlocks[height]? =
      if sc.pendingBlocks[height]? = some peerID then none else sc.pendingBlocks[height]? := by
  have view := foldl_resetPending_view peerID sc height
  split_ifs at view ⊢ <;> simp only [Prod.mk.injEq] at view <;> exact view.2.2

theorem foldl_resetReceived_blockStates (sc : Scheduler) (height : UInt64) :
    (sc.receivedBlocks.foldl (resetReceived peerID) sc).blockStates[height]? =
      if sc.receivedBlocks[height]? = some peerID then some .new else sc.blockStates[height]? := by
  have view := foldl_resetReceived_view peerID sc height
  split_ifs at view ⊢ <;> simp only [Prod.mk.injEq] at view <;> exact view.1

theorem foldl_resetReceived_receivedBlocks (sc : Scheduler) (height : UInt64) :
    (sc.receivedBlocks.foldl (resetReceived peerID) sc).receivedBlocks[height]? =
      if sc.receivedBlocks[height]? = some peerID then none else sc.receivedBlocks[height]? := by
  have view := foldl_resetReceived_view peerID sc height
  split_ifs at view ⊢ <;> simp only [Prod.mk.injEq] at view <;> exact view.2

end RemovePeer

/-- The maximum of removePeer bounds the height of every other ready peer. -/
theorem le_maxOtherPeerHeight
    {peers : Std.TreeMap PeerID ScPeer}
    {peer other : ScPeer}
    {otherID : PeerID}
    (found : peers[otherID]? = some other)
    (ready : other.state = .ready)
    (distinct : other.peerID ≠ peer.peerID) :
    other.height ≤ maxOtherPeerHeight peers peer := by
  unfold maxOtherPeerHeight
  rw [Std.TreeMap.foldl_eq_foldl_toList, UInt64.le_iff_toNat_le]
  refine KeyedFold.measure_le_foldl UInt64.toNat
    (fun entry : PeerID × ScPeer => entry.2.state = .ready ∧ entry.2.peerID ≠ peer.peerID)
    (fun entry => entry.2.height) ?grows ?bounds
    (Std.TreeMap.mem_toList_iff_getElem?_eq_some.mpr found) ⟨ready, distinct⟩ 0
  case grows =>
    intro best entry
    split_ifs with notReady raises
    · exact le_refl _
    · exact le_of_lt (UInt64.lt_iff_toNat_lt.mp raises.2)
    · exact le_refl _
  case bounds =>
    rintro best entry ⟨entryReady, entryOther⟩
    split_ifs with notReady raises
    · exact absurd entryReady notReady
    · exact le_refl _
    · have notAbove : ¬ entry.2.height > best := fun above => raises ⟨entryOther, above⟩
      rw [gt_iff_lt, UInt64.lt_iff_toNat_lt] at notAbove
      omega

section RemovePeerSpec

variable {sc : Scheduler} {peerID : PeerID} {peer : ScPeer}

/--
removePeer of a known peer that is not removed yet: the two loops, the peer
marked Removed, and the heights above the greatest other ready peer forgotten.
-/
theorem removePeer_eq
    (found : sc.peers[peerID]? = some peer)
    (active : peer.state ≠ .removed) :
    sc.removePeer peerID =
      let pendingReset := sc.pendingBlocks.foldl (resetPending peerID) sc
      let reset := pendingReset.receivedBlocks.foldl (resetReceived peerID) pendingReset
      let peers := reset.peers.insert peerID { peer with state := .removed }
      { reset with
        peers := peers
        blockStates :=
          reset.blockStates.filter fun height _ => !(height > maxOtherPeerHeight peers peer) } := by
  unfold removePeer
  simp only [found, active, if_false]

/-- The peers after removePeer: the peer marked Removed. -/
theorem removePeer_peers
    (found : sc.peers[peerID]? = some peer)
    (active : peer.state ≠ .removed) :
    (sc.removePeer peerID).peers = sc.peers.insert peerID { peer with state := .removed } := by
  rw [removePeer_eq found active]
  dsimp only
  rw [(foldl_resetReceived_frame peerID _).1, (foldl_resetPending_frame peerID sc).1]

/-- The blocks pending from the peer are pending no more. -/
theorem removePeer_pendingBlocks
    (found : sc.peers[peerID]? = some peer)
    (active : peer.state ≠ .removed)
    (height : UInt64) :
    (sc.removePeer peerID).pendingBlocks[height]? =
      if sc.pendingBlocks[height]? = some peerID then none else sc.pendingBlocks[height]? := by
  rw [removePeer_eq found active]
  dsimp only
  rw [(foldl_resetReceived_frame peerID _).2.1, foldl_resetPending_pendingBlocks]

/-- The request times of the blocks pending from the peer are forgotten. -/
theorem removePeer_pendingTime
    (found : sc.peers[peerID]? = some peer)
    (active : peer.state ≠ .removed)
    (height : UInt64) :
    (sc.removePeer peerID).pendingTime[height]? =
      if sc.pendingBlocks[height]? = some peerID then none else sc.pendingTime[height]? := by
  rw [removePeer_eq found active]
  dsimp only
  rw [(foldl_resetReceived_frame peerID _).2.2.1, foldl_resetPending_pendingTime]

/-- The blocks received from the peer are received no more. -/
theorem removePeer_receivedBlocks
    (found : sc.peers[peerID]? = some peer)
    (active : peer.state ≠ .removed)
    (height : UInt64) :
    (sc.removePeer peerID).receivedBlocks[height]? =
      if sc.receivedBlocks[height]? = some peerID then none else sc.receivedBlocks[height]? := by
  rw [removePeer_eq found active]
  dsimp only
  rw [foldl_resetReceived_receivedBlocks, (foldl_resetPending_frame peerID sc).2.1]

/--
The state of a height after removePeer: forgotten above the greatest other
ready peer, New if it was pending or received from the peer, else as before.
-/
theorem removePeer_blockStates
    (found : sc.peers[peerID]? = some peer)
    (active : peer.state ≠ .removed)
    (height : UInt64) :
    (sc.removePeer peerID).blockStates[height]? =
      if height > maxOtherPeerHeight (sc.peers.insert peerID { peer with state := .removed }) peer
      then none
      else if sc.receivedBlocks[height]? = some peerID then some .new
      else if sc.pendingBlocks[height]? = some peerID then some .new
      else sc.blockStates[height]? := by
  rw [removePeer_eq found active]
  dsimp only
  rw [Std.TreeMap.getElem?_filter', foldl_resetReceived_blockStates,
    (foldl_resetReceived_frame peerID _).1, (foldl_resetPending_frame peerID sc).1,
    (foldl_resetPending_frame peerID sc).2.1, foldl_resetPending_blockStates]
  generalize maxOtherPeerHeight _ peer = maxPeerHeight
  by_cases above : height > maxPeerHeight
  · simp [above]
  · simp only [above, if_false]
    split_ifs <;> cases sc.blockStates[height]? <;> simp

/-- removePeer does nothing, or removes a known peer that is not removed yet. -/
theorem removePeer_cases (sc : Scheduler) (peerID : PeerID) :
    sc.removePeer peerID = sc ∨
      ∃ peer, sc.peers[peerID]? = some peer ∧ peer.state ≠ .removed := by
  cases found : sc.peers[peerID]? with
  | none =>
      left
      simp [removePeer, found]
  | some peer =>
      by_cases removed : peer.state = .removed
      · left
        simp [removePeer, found, removed]
      · exact Or.inr ⟨peer, rfl, removed⟩

@[simp] theorem removePeer_height (sc : Scheduler) (peerID : PeerID) :
    (sc.removePeer peerID).height = sc.height := by
  rcases removePeer_cases sc peerID with same | ⟨peer, found, active⟩
  · rw [same]
  · rw [removePeer_eq found active]
    dsimp only
    rw [(foldl_resetReceived_frame peerID _).2.2.2.1, (foldl_resetPending_frame peerID sc).2.2.1]

@[simp] theorem removePeer_targetPending (sc : Scheduler) (peerID : PeerID) :
    (sc.removePeer peerID).targetPending = sc.targetPending := by
  rcases removePeer_cases sc peerID with same | ⟨peer, found, active⟩
  · rw [same]
  · rw [removePeer_eq found active]
    dsimp only
    rw [(foldl_resetReceived_frame peerID _).2.2.2.2, (foldl_resetPending_frame peerID sc).2.2.2]

/-- A state removePeer leaves at a height is the state before, or New for a block of the peer. -/
theorem removePeer_blockStates_eq_some
    (found : sc.peers[peerID]? = some peer)
    (active : peer.state ≠ .removed)
    {height : UInt64}
    {state : BlockState}
    (after : (sc.removePeer peerID).blockStates[height]? = some state) :
    (sc.blockStates[height]? = some state ∧ sc.pendingBlocks[height]? ≠ some peerID ∧
        sc.receivedBlocks[height]? ≠ some peerID) ∨
      (state = .new ∧
        (sc.pendingBlocks[height]? = some peerID ∨ sc.receivedBlocks[height]? = some peerID)) := by
  rw [removePeer_blockStates found active] at after
  -- above the maximum nothing is left; a block of the peer is New
  split_ifs at after with above fromReceived fromPending
  · exact Or.inr ⟨(Option.some.inj after).symm, Or.inr fromReceived⟩
  · exact Or.inr ⟨(Option.some.inj after).symm, Or.inl fromPending⟩
  · exact Or.inl ⟨after, fromPending, fromReceived⟩

/-- A height in the range of another ready peer and not of the removed one keeps its state. -/
theorem removePeer_blockStates_of_readyAt
    (kept : Bookkeeping sc)
    (found : sc.peers[peerID]? = some peer)
    (active : peer.state ≠ .removed)
    {height : UInt64}
    {otherID : PeerID}
    (other : otherID ≠ peerID)
    (readyAt : sc.ReadyAt otherID height)
    (notPending : sc.pendingBlocks[height]? ≠ some peerID)
    (notReceived : sc.receivedBlocks[height]? ≠ some peerID) :
    (sc.removePeer peerID).blockStates[height]? = sc.blockStates[height]? := by
  obtain ⟨otherPeer, otherFound, otherReady, reaches⟩ := readyAt
  have stillFound :
      (sc.peers.insert peerID { peer with state := .removed })[otherID]? = some otherPeer := by
    simp [Std.TreeMap.getElem?_insert, Ne.symm other, otherFound]
  have distinct : otherPeer.peerID ≠ peer.peerID := by
    rw [kept.peer_key otherID otherPeer otherFound, kept.peer_key peerID peer found]
    exact other
  -- the other peer's height bounds the maximum from below
  have belowMax := le_maxOtherPeerHeight stillFound otherReady distinct
  have notAbove :
      ¬ height > maxOtherPeerHeight (sc.peers.insert peerID { peer with state := .removed }) peer := by
    rw [gt_iff_lt, UInt64.lt_iff_toNat_lt]
    rw [UInt64.le_iff_toNat_le] at reaches belowMax
    omega
  rw [removePeer_blockStates found active, if_neg notAbove, if_neg notReceived, if_neg notPending]

end RemovePeerSpec

/-- removePeer keeps the bookkeeping. -/
theorem removePeer_bookkeeping
    {sc : Scheduler}
    (kept : Bookkeeping sc)
    (peerID : PeerID) :
    Bookkeeping (sc.removePeer peerID) := by
  rcases removePeer_cases sc peerID with same | ⟨peer, found, active⟩
  · rw [same]
    exact kept
  have peersAfter := removePeer_peers found active
  -- a peer other than the removed one is as ready after as before
  have readyAfter : ∀ otherID height, otherID ≠ peerID → sc.ReadyAt otherID height →
      (sc.removePeer peerID).ReadyAt otherID height := by
    rintro otherID height other ⟨otherPeer, otherFound, ready, reaches⟩
    refine ⟨otherPeer, ?_, ready, reaches⟩
    rw [peersAfter]
    simp [Std.TreeMap.getElem?_insert, Ne.symm other, otherFound]
  -- a height tracked after removePeer was tracked before
  have trackedBefore : ∀ height state,
      (sc.removePeer peerID).blockStates[height]? = some state → height ∈ sc.blockStates := by
    intro height state after
    rcases removePeer_blockStates_eq_some found active after with
      ⟨before, -, -⟩ | ⟨-, fromPending | fromReceived⟩
    · exact (Std.TreeMap.getElem?_eq_some_iff.mp before).1
    · exact (Std.TreeMap.getElem?_eq_some_iff.mp (kept.mem_blockStates_of_pending fromPending)).1
    · exact (Std.TreeMap.getElem?_eq_some_iff.mp (kept.mem_blockStates_of_received fromReceived)).1
  constructor
  case pending_iff =>
    intro height
    rw [Std.TreeMap.mem_iff_isSome_getElem?, removePeer_pendingBlocks found active]
    constructor
    · intro isPending
      split_ifs at isPending with fromPeer
      · cases isPending
      obtain ⟨otherID, pendingFrom⟩ := Option.isSome_iff_exists.mp isPending
      have other : otherID ≠ peerID := fun same => fromPeer (same ▸ pendingFrom)
      have notReceived : sc.receivedBlocks[height]? ≠ some peerID := by
        rw [kept.not_received_of_pending pendingFrom]
        simp
      rw [removePeer_blockStates_of_readyAt kept found active other
        (kept.pending_ready height otherID pendingFrom) fromPeer notReceived]
      exact kept.mem_blockStates_of_pending pendingFrom
    · intro isPending
      rcases removePeer_blockStates_eq_some found active isPending with
        ⟨before, notFromPeer, -⟩ | ⟨isNew, -⟩
      · rw [if_neg notFromPeer]
        exact Std.TreeMap.mem_iff_isSome_getElem?.mp ((kept.pending_iff height).mpr before)
      · cases isNew
  case pendingTime_iff =>
    intro height
    rw [Std.TreeMap.mem_iff_isSome_getElem?, Std.TreeMap.mem_iff_isSome_getElem?,
      removePeer_pendingTime found active, removePeer_pendingBlocks found active]
    split_ifs
    · rfl
    · rw [← Std.TreeMap.mem_iff_isSome_getElem?, ← Std.TreeMap.mem_iff_isSome_getElem?]
      exact kept.pendingTime_iff height
  case received_iff =>
    intro height
    rw [Std.TreeMap.mem_iff_isSome_getElem?, removePeer_receivedBlocks found active]
    constructor
    · intro isReceived
      split_ifs at isReceived with fromPeer
      · cases isReceived
      obtain ⟨otherID, receivedFrom⟩ := Option.isSome_iff_exists.mp isReceived
      have other : otherID ≠ peerID := fun same => fromPeer (same ▸ receivedFrom)
      have notPending : sc.pendingBlocks[height]? ≠ some peerID := by
        intro pendingFrom
        rw [kept.not_received_of_pending pendingFrom] at receivedFrom
        cases receivedFrom
      rw [removePeer_blockStates_of_readyAt kept found active other
        (kept.received_ready height otherID receivedFrom) notPending fromPeer]
      exact kept.mem_blockStates_of_received receivedFrom
    · intro isReceived
      rcases removePeer_blockStates_eq_some found active isReceived with
        ⟨before, -, notFromPeer⟩ | ⟨isNew, -⟩
      · rw [if_neg notFromPeer]
        exact Std.TreeMap.mem_iff_isSome_getElem?.mp ((kept.received_iff height).mpr before)
      · cases isNew
  case pending_ready =>
    intro height otherID pendingAfter
    rw [removePeer_pendingBlocks found active] at pendingAfter
    by_cases fromPeer : sc.pendingBlocks[height]? = some peerID
    · rw [if_pos fromPeer] at pendingAfter
      cases pendingAfter
    rw [if_neg fromPeer] at pendingAfter
    exact readyAfter otherID height (fun same => fromPeer (same ▸ pendingAfter))
      (kept.pending_ready height otherID pendingAfter)
  case received_ready =>
    intro height otherID receivedAfter
    rw [removePeer_receivedBlocks found active] at receivedAfter
    by_cases fromPeer : sc.receivedBlocks[height]? = some peerID
    · rw [if_pos fromPeer] at receivedAfter
      cases receivedAfter
    rw [if_neg fromPeer] at receivedAfter
    exact readyAfter otherID height (fun same => fromPeer (same ▸ receivedAfter))
      (kept.received_ready height otherID receivedAfter)
  case window =>
    intro height tracked
    obtain ⟨state, trackedAs⟩ :=
      Option.isSome_iff_exists.mp (Std.TreeMap.mem_iff_isSome_getElem?.mp tracked)
    rw [removePeer_height, removePeer_targetPending]
    exact kept.window height (trackedBefore height state trackedAs)
  case peer_key =>
    intro otherID otherPeer otherFound
    rw [peersAfter, Std.TreeMap.getElem?_insert] at otherFound
    split_ifs at otherFound with same
    · have sameID : peerID = otherID := Std.LawfulEqCmp.eq_of_compare same
      cases otherFound
      rw [← sameID]
      exact kept.peer_key peerID peer found
    · exact kept.peer_key otherID otherPeer otherFound

/-! ## addNewBlocks -/

/--
What addNewBlocks does: it keeps every tracked height, and the heights it adds
are New and lie in the window from the scheduler's height.
-/
structure AddsNew (sc next : Scheduler) : Prop where
  rest : next = { sc with blockStates := next.blockStates }
  keeps : ∀ (height : UInt64) (state : BlockState), state ≠ .unknown →
    sc.blockStates[height]? = some state → next.blockStates[height]? = some state
  adds : ∀ (height : UInt64) (state : BlockState), next.blockStates[height]? = some state →
    sc.blockStates[height]? = some state ∨
      (state = .new ∧ sc.height ≤ height ∧
        (height.toNat : Int) < sc.height.toNat + sc.targetPending)

theorem AddsNew.refl (sc : Scheduler) : AddsNew sc sc :=
  ⟨rfl, fun _ _ _ tracked => tracked, fun _ _ tracked => Or.inl tracked⟩

/-- One turn of the loop of addNewBlocks, at a height of the window, adds it if it is unknown. -/
theorem AddsNew.step
    {sc next : Scheduler}
    (added : AddsNew sc next)
    {height : UInt64}
    (above : sc.height ≤ height)
    (below : (height.toNat : Int) < sc.height.toNat + sc.targetPending) :
    AddsNew sc
      (if next.getStateAtHeight height = .unknown then next.setStateAtHeight height .new
      else next) := by
  split_ifs with unknown
  · have sameHeight : next.height = sc.height := by rw [added.rest]
    -- at or above the scheduler's height, the state read is the state stored
    have storedUnknown : ∀ state, next.blockStates[height]? = some state → state = .unknown := by
      intro state tracked
      unfold getStateAtHeight at unknown
      rw [if_neg (by rw [sameHeight, UInt64.lt_iff_toNat_lt]; rw [UInt64.le_iff_toNat_le] at above; omega),
        tracked] at unknown
      exact unknown
    refine ⟨?_, ?_, ?_⟩
    · unfold setStateAtHeight
      rw [added.rest]
    · intro other state known tracked
      have trackedNext := added.keeps other state known tracked
      unfold setStateAtHeight
      rw [Std.TreeMap.getElem?_insert]
      split_ifs with same
      · rw [← Std.LawfulEqCmp.eq_of_compare same] at trackedNext
        exact absurd (storedUnknown state trackedNext) known
      · exact trackedNext
    · intro other state tracked
      unfold setStateAtHeight at tracked
      rw [Std.TreeMap.getElem?_insert] at tracked
      split_ifs at tracked with same
      · rw [← Std.LawfulEqCmp.eq_of_compare same]
        exact Or.inr ⟨(Option.some.inj tracked).symm, above, below⟩
      · exact added.adds other state tracked
  · exact added

/-- The heights the loop of addNewBlocks visits lie in the window from the scheduler's height. -/
theorem addNewBlocks_heights_window
    {sc : Scheduler}
    {height : UInt64}
    (room : ¬ (sc.blockStates.size : Int) ≥ sc.targetPending)
    (member : height ∈
      ((List.range' sc.height.toNat
          ((UInt64.ofInt sc.targetPending + sc.height).toNat - sc.height.toNat)).map
        UInt64.ofNat).takeWhile fun i => !(i > sc.maxHeight)) :
    sc.height ≤ height ∧ (height.toNat : Int) < sc.height.toNat + sc.targetPending := by
  obtain ⟨offset, inRange, rfl⟩ := List.mem_map.mp ((List.takeWhile_sublist _).subset member)
  rw [List.mem_range'_1] at inRange
  -- the bound wraps past 2^64 only to below the start, where the range is empty
  have bound := UInt64.toNat_lt (UInt64.ofInt sc.targetPending + sc.height)
  have noWrap : ((UInt64.ofInt sc.targetPending + sc.height).toNat : Int) ≤
      sc.targetPending + sc.height.toNat := by
    simp only [UInt64.toNat_add, UInt64.ofInt, UInt64.toNat_ofNat']
    omega
  rw [UInt64.le_iff_toNat_le]
  simp only [UInt64.toNat_ofNat']
  omega

/-- addNewBlocks adds only New heights of the window. -/
theorem addNewBlocks_addsNew (sc : Scheduler) : AddsNew sc sc.addNewBlocks := by
  unfold addNewBlocks
  split_ifs with full
  · exact AddsNew.refl sc
  · exact Runs.invariant_of_foldl (AddsNew sc)
      (fun next height member added =>
        let window := addNewBlocks_heights_window full member
        added.step window.1 window.2)
      (AddsNew.refl sc)

/-- Adding New heights of the window keeps the bookkeeping. -/
theorem AddsNew.bookkeeping
    {sc next : Scheduler}
    (kept : Bookkeeping sc)
    (added : AddsNew sc next) :
    Bookkeeping next := by
  have rest := added.rest
  -- a state other than New was there before
  have sameState : ∀ (height : UInt64) (state : BlockState), state ≠ .new → state ≠ .unknown →
      (next.blockStates[height]? = some state ↔ sc.blockStates[height]? = some state) := by
    intro height state notNew known
    constructor
    · intro tracked
      rcases added.adds height state tracked with before | ⟨isNew, -⟩
      · exact before
      · exact absurd isNew notNew
    · exact added.keeps height state known
  rw [rest]
  constructor
  case pending_iff =>
    intro height
    rw [kept.pending_iff height]
    exact (sameState height .pending (by decide) (by decide)).symm
  case pendingTime_iff => exact kept.pendingTime_iff
  case received_iff =>
    intro height
    rw [kept.received_iff height]
    exact (sameState height .received (by decide) (by decide)).symm
  case pending_ready => exact kept.pending_ready
  case received_ready => exact kept.received_ready
  case window =>
    intro height tracked
    obtain ⟨state, trackedAs⟩ :=
      Option.isSome_iff_exists.mp (Std.TreeMap.mem_iff_isSome_getElem?.mp tracked)
    rcases added.adds height state trackedAs with before | ⟨-, inWindow⟩
    · exact kept.window height (Std.TreeMap.getElem?_eq_some_iff.mp before).1
    · exact inWindow
  case peer_key => exact kept.peer_key

/-- addNewBlocks keeps the bookkeeping. -/
theorem addNewBlocks_bookkeeping {sc : Scheduler} (kept : Bookkeeping sc) :
    Bookkeeping sc.addNewBlocks :=
  (addNewBlocks_addsNew sc).bookkeeping kept

/-! ## The peers -/

section Peers

/-- Every ready peer of the first map is ready and at least as high in the second. -/
def Raised (peers next : Std.TreeMap PeerID ScPeer) : Prop :=
  ∀ (peerID : PeerID) (old : ScPeer), peers[peerID]? = some old → old.state = .ready →
    ∃ new, next[peerID]? = some new ∧ new.state = .ready ∧ old.height ≤ new.height

variable {sc : Scheduler}

/-- Peers raised from the scheduler's keep every block's peer ready at it. -/
theorem ReadyAt.of_raised
    {peers : Std.TreeMap PeerID ScPeer}
    (raised : Raised sc.peers peers)
    {peerID : PeerID}
    {height : UInt64}
    (ready : sc.ReadyAt peerID height) :
    ReadyAt { sc with peers := peers } peerID height := by
  obtain ⟨old, found, oldReady, reaches⟩ := ready
  obtain ⟨new, newFound, newReady, higher⟩ := raised peerID old found oldReady
  refine ⟨new, newFound, newReady, ?_⟩
  rw [UInt64.le_iff_toNat_le] at reaches higher ⊢
  omega

/--
A change of the peers alone keeps the bookkeeping when it keeps every ready
peer ready and as high, and every peer under its own ID.
-/
theorem Bookkeeping.withPeers
    (kept : Bookkeeping sc)
    {peers : Std.TreeMap PeerID ScPeer}
    (raised : Raised sc.peers peers)
    (keys : ∀ (peerID : PeerID) (peer : ScPeer), peers[peerID]? = some peer → peer.peerID = peerID) :
    Bookkeeping { sc with peers := peers } where
  pending_iff := kept.pending_iff
  pendingTime_iff := kept.pendingTime_iff
  received_iff := kept.received_iff
  pending_ready height peerID pending :=
    ReadyAt.of_raised raised (kept.pending_ready height peerID pending)
  received_ready height peerID received :=
    ReadyAt.of_raised raised (kept.received_ready height peerID received)
  window := kept.window
  peer_key := keys

/--
Storing a peer over one that, if ready, was no higher keeps every ready peer
ready and as high, when the new one is ready too.
-/
theorem raised_insert
    {peerID : PeerID}
    {peer : ScPeer}
    (raises : ∀ old, sc.peers[peerID]? = some old → old.state = .ready →
      peer.state = .ready ∧ old.height ≤ peer.height) :
    Raised sc.peers (sc.peers.insert peerID peer) := by
  intro otherID old found ready
  by_cases same : peerID = otherID
  · subst same
    obtain ⟨newReady, higher⟩ := raises old found ready
    exact ⟨peer, by simp, newReady, higher⟩
  · refine ⟨old, ?_, ready, ?_⟩
    · simp [Std.TreeMap.getElem?_insert, same, found]
    · rw [UInt64.le_iff_toNat_le]

/-- Storing a peer under its own ID keeps every peer under its own ID. -/
theorem keys_insert
    (kept : Bookkeeping sc)
    {peerID : PeerID}
    {peer : ScPeer}
    (ownKey : peer.peerID = peerID) :
    ∀ (otherID : PeerID) (other : ScPeer),
      (sc.peers.insert peerID peer)[otherID]? = some other → other.peerID = otherID := by
  intro otherID other found
  rw [Std.TreeMap.getElem?_insert] at found
  split_ifs at found with same
  · cases found
    rw [← Std.LawfulEqCmp.eq_of_compare same]
    exact ownKey
  · exact kept.peer_key otherID other found

/-- ensurePeer keeps the bookkeeping: a new peer is New and has no blocks. -/
theorem ensurePeer_bookkeeping (kept : Bookkeeping sc) (peerID : PeerID) :
    Bookkeeping (sc.ensurePeer peerID).1 := by
  cases found : sc.peers[peerID]? with
  | some peer =>
      simp only [ensurePeer, found]
      exact kept
  | none =>
      simp only [ensurePeer, found]
      refine kept.withPeers (raised_insert ?_) (keys_insert kept rfl)
      intro old known
      rw [found] at known
      cases known

/-- touchPeer keeps the bookkeeping: it sets the peer's last touch only. -/
theorem touchPeer_bookkeeping
    (kept : Bookkeeping sc)
    {peerID : PeerID}
    {time : Time}
    {next : Scheduler}
    (touched : sc.touchPeer peerID time = .ok next) :
    Bookkeeping next := by
  unfold touchPeer at touched
  cases found : sc.peers[peerID]? with
  | none =>
      rw [found] at touched
      cases touched
  | some peer =>
      simp only [found] at touched
      split_ifs at touched with notReady
      cases touched
      refine kept.withPeers (raised_insert ?_) (keys_insert kept (kept.peer_key peerID peer found))
      intro old known ready
      rw [found] at known
      cases known
      exact ⟨ready, by rw [UInt64.le_iff_toNat_le]⟩

/--
setPeerRange keeps the bookkeeping: a peer that lowers its height or names a
base above it is removed, any other becomes ready at a height no lower.
-/
theorem setPeerRange_bookkeeping
    (kept : Bookkeeping sc)
    (peerID : PeerID)
    (base height : UInt64) :
    Bookkeeping (sc.setPeerRange peerID base height).1 := by
  have ensured := ensurePeer_bookkeeping kept peerID
  unfold setPeerRange
  generalize ensuredEq : sc.ensurePeer peerID = pair at ensured
  obtain ⟨ensuredSc, peer⟩ := pair
  -- the peer ensurePeer returns is the one it stores
  have stored : ensuredSc.peers[peerID]? = some peer := by
    unfold ensurePeer at ensuredEq
    cases found : sc.peers[peerID]? with
    | some known =>
        rw [found] at ensuredEq
        cases ensuredEq
        exact found
    | none =>
        rw [found] at ensuredEq
        cases ensuredEq
        simp
  dsimp only
  split_ifs with removed lower aboveHeight
  · exact ensured
  · exact removePeer_bookkeeping ensured peerID
  · exact removePeer_bookkeeping ensured peerID
  · apply addNewBlocks_bookkeeping
    refine ensured.withPeers (raised_insert ?_)
      (keys_insert ensured (ensured.peer_key peerID peer stored))
    intro old known ready
    rw [stored] at known
    cases known
    refine ⟨rfl, ?_⟩
    show peer.height ≤ height
    rw [UInt64.lt_iff_toNat_lt] at lower
    rw [UInt64.le_iff_toNat_le]
    omega

end Peers

/-! ## Marking blocks -/

section Marks

variable {sc next : Scheduler}

/-- At or above the scheduler's height, the state read is the state stored. -/
theorem getStateAtHeight_eq_some
    {height : UInt64}
    {state : BlockState}
    (read : sc.getStateAtHeight height = state)
    (tracked : state ≠ .unknown)
    (notProcessed : state ≠ .processed) :
    sc.height ≤ height ∧ sc.blockStates[height]? = some state := by
  unfold getStateAtHeight at read
  split_ifs at read with below
  · exact absurd read.symm notProcessed
  · refine ⟨?_, ?_⟩
    · rw [UInt64.lt_iff_toNat_lt] at below
      rw [UInt64.le_iff_toNat_le]
      omega
    · cases stored : sc.blockStates[height]? with
      | none =>
          rw [stored] at read
          exact absurd read.symm tracked
      | some storedState =>
          simp only [stored] at read
          rw [read]

/-- What a successful markReceived does and why it could: the block was pending from the peer. -/
theorem markReceived_eq_ok
    {peerID : PeerID}
    {height size : UInt64}
    {now : Time}
    (kept : Bookkeeping sc)
    (marked : sc.markReceived peerID height size now = .ok next) :
    sc.pendingBlocks[height]? = some peerID ∧
      ∃ lastRate : Int, next =
        { sc with
          peers := sc.peers.modify peerID fun peer => { peer with lastRate := lastRate }
          blockStates := sc.blockStates.insert height .received
          pendingBlocks := sc.pendingBlocks.erase height
          pendingTime := sc.pendingTime.erase height
          receivedBlocks := sc.receivedBlocks.insert height peerID } := by
  unfold markReceived at marked
  dsimp only at marked
  split_ifs at marked with notRequested
  cases marked
  simp only [not_or, not_not] at notRequested
  obtain ⟨pendingState, fromPeer⟩ := notRequested
  obtain ⟨-, stored⟩ := getStateAtHeight_eq_some pendingState (by decide) (by decide)
  obtain ⟨pendingPeerID, pending⟩ := Option.isSome_iff_exists.mp
    (Std.TreeMap.mem_iff_isSome_getElem?.mp ((kept.pending_iff height).mpr stored))
  rw [Std.TreeMap.getD_eq_getD_getElem?, pending] at fromPeer
  refine ⟨?_, _, rfl⟩
  rw [pending]
  exact congrArg some fromPeer

/-- markReceived keeps the bookkeeping: the block moves from pending to received. -/
theorem markReceived_bookkeeping
    {peerID : PeerID}
    {height size : UInt64}
    {now : Time}
    (kept : Bookkeeping sc)
    (marked : sc.markReceived peerID height size now = .ok next) :
    Bookkeeping next := by
  obtain ⟨pending, lastRate, rfl⟩ := markReceived_eq_ok kept marked
  have stored := kept.mem_blockStates_of_pending pending
  have peerReady := kept.pending_ready height peerID pending
  -- the new last rate leaves every peer as ready and as high
  have readyAfter : ∀ otherID otherHeight, sc.ReadyAt otherID otherHeight →
      ReadyAt { sc with peers := sc.peers.modify peerID fun peer => { peer with lastRate := lastRate } }
        otherID otherHeight := by
    rintro otherID otherHeight ⟨peer, found, ready, reaches⟩
    by_cases same : peerID = otherID
    · subst same
      exact ⟨{ peer with lastRate := lastRate }, by simp [found], ready, reaches⟩
    · exact ⟨peer, by simp [Std.TreeMap.getElem?_modify, same, found], ready, reaches⟩
  constructor
  case pending_iff =>
    intro other
    by_cases same : height = other
    · subst same
      simp [Std.TreeMap.mem_erase]
    · simp [Std.TreeMap.mem_erase, Std.TreeMap.getElem?_insert, same, kept.pending_iff other]
  case pendingTime_iff =>
    intro other
    simp only [Std.TreeMap.mem_erase, kept.pendingTime_iff other]
  case received_iff =>
    intro other
    by_cases same : height = other
    · subst same
      simp [Std.TreeMap.mem_insert]
    · simp [Std.TreeMap.mem_insert, Std.TreeMap.getElem?_insert, same, kept.received_iff other]
  case pending_ready =>
    intro other otherID pendingAfter
    by_cases same : height = other
    · subst same
      simp at pendingAfter
    · simp [Std.TreeMap.getElem?_erase, same] at pendingAfter
      exact readyAfter otherID other (kept.pending_ready other otherID pendingAfter)
  case received_ready =>
    intro other otherID receivedAfter
    by_cases same : height = other
    · subst same
      simp only [Std.TreeMap.getElem?_insert_self, Option.some.injEq] at receivedAfter
      subst receivedAfter
      exact readyAfter peerID height peerReady
    · simp [Std.TreeMap.getElem?_insert, same] at receivedAfter
      exact readyAfter otherID other (kept.received_ready other otherID receivedAfter)
  case window =>
    intro other tracked
    rw [Std.TreeMap.mem_insert] at tracked
    rcases tracked with same | before
    · rw [← Std.LawfulEqCmp.eq_of_compare same]
      exact kept.window height (Std.TreeMap.getElem?_eq_some_iff.mp stored).1
    · exact kept.window other before
  case peer_key =>
    intro otherID peer found
    rw [Std.TreeMap.getElem?_modify] at found
    split_ifs at found with same
    · obtain ⟨old, oldFound, rfl⟩ := Option.map_eq_some_iff.mp found
      exact kept.peer_key otherID old (by rw [← Std.LawfulEqCmp.eq_of_compare same]; exact oldFound)
    · exact kept.peer_key otherID peer found

/-- What a successful markPending does and why it could. -/
theorem markPending_eq_ok
    {peerID : PeerID}
    {height : UInt64}
    {time : Time}
    (marked : sc.markPending peerID height time = .ok next) :
    sc.blockStates[height]? = some .new ∧ sc.ReadyAt peerID height ∧
      next =
        { sc with
          blockStates := sc.blockStates.insert height .pending
          pendingBlocks := sc.pendingBlocks.insert height peerID
          pendingTime := sc.pendingTime.insert height time } := by
  unfold markPending at marked
  dsimp only at marked
  split_ifs at marked with notNew
  obtain ⟨-, stored⟩ := getStateAtHeight_eq_some (not_not.mp notNew) (by decide) (by decide)
  cases found : sc.peers[peerID]? with
  | none =>
      simp [found] at marked
  | some peer =>
      simp only [found] at marked
      split_ifs at marked with notReady above
      cases marked
      have reaches : height ≤ peer.height := by
        rw [gt_iff_lt, UInt64.lt_iff_toNat_lt] at above
        rw [UInt64.le_iff_toNat_le]
        omega
      exact ⟨stored, ⟨peer, found, not_not.mp notReady, reaches⟩, rfl⟩

/-- markPending keeps the bookkeeping: a New block becomes pending from a ready peer. -/
theorem markPending_bookkeeping
    {peerID : PeerID}
    {height : UInt64}
    {time : Time}
    (kept : Bookkeeping sc)
    (marked : sc.markPending peerID height time = .ok next) :
    Bookkeeping next := by
  obtain ⟨stored, ready, rfl⟩ := markPending_eq_ok marked
  constructor
  case pending_iff =>
    intro other
    by_cases same : height = other
    · subst same
      simp [Std.TreeMap.mem_insert]
    · simp [Std.TreeMap.mem_insert, Std.TreeMap.getElem?_insert, same, kept.pending_iff other]
  case pendingTime_iff =>
    intro other
    simp [Std.TreeMap.mem_insert, kept.pendingTime_iff other]
  case received_iff =>
    intro other
    by_cases same : height = other
    · subst same
      simp [kept.received_iff height, stored]
    · simp [Std.TreeMap.getElem?_insert, same, kept.received_iff other]
  case pending_ready =>
    intro other otherID pendingAfter
    by_cases same : height = other
    · subst same
      simp only [Std.TreeMap.getElem?_insert_self, Option.some.injEq] at pendingAfter
      subst pendingAfter
      exact ready
    · simp [Std.TreeMap.getElem?_insert, same] at pendingAfter
      exact kept.pending_ready other otherID pendingAfter
  case received_ready => exact kept.received_ready
  case window =>
    intro other tracked
    rw [Std.TreeMap.mem_insert] at tracked
    rcases tracked with same | before
    · rw [← Std.LawfulEqCmp.eq_of_compare same]
      exact kept.window height (Std.TreeMap.getElem?_eq_some_iff.mp stored).1
    · exact kept.window other before
  case peer_key => exact kept.peer_key

/--
markProcessed at the scheduler's height keeps the bookkeeping: the window
moves on by the height it forgets.
-/
theorem markProcessed_bookkeeping (kept : Bookkeeping sc) (now : Time) :
    Bookkeeping (sc.markProcessed sc.height now) := by
  unfold markProcessed
  apply addNewBlocks_bookkeeping
  constructor
  case pending_iff =>
    intro other
    by_cases same : sc.height = other
    · subst same
      simp [Std.TreeMap.mem_erase]
    · simp [Std.TreeMap.mem_erase, Std.TreeMap.getElem?_erase, same, kept.pending_iff other]
  case pendingTime_iff =>
    intro other
    simp [Std.TreeMap.mem_erase, kept.pendingTime_iff other]
  case received_iff =>
    intro other
    by_cases same : sc.height = other
    · subst same
      simp [Std.TreeMap.mem_erase]
    · simp [Std.TreeMap.mem_erase, Std.TreeMap.getElem?_erase, same, kept.received_iff other]
  case pending_ready =>
    intro other otherID pendingAfter
    by_cases same : sc.height = other
    · subst same
      simp at pendingAfter
    · simp [Std.TreeMap.getElem?_erase, same] at pendingAfter
      exact kept.pending_ready other otherID pendingAfter
  case received_ready =>
    intro other otherID receivedAfter
    by_cases same : sc.height = other
    · subst same
      simp at receivedAfter
    · simp [Std.TreeMap.getElem?_erase, same] at receivedAfter
      exact kept.received_ready other otherID receivedAfter
  case window =>
    intro other tracked
    rw [Std.TreeMap.mem_erase] at tracked
    obtain ⟨notSame, before⟩ := tracked
    obtain ⟨atOrAbove, inWindow⟩ := kept.window other before
    have different : sc.height.toNat ≠ other.toNat := fun same =>
      notSame (by rw [UInt64.toNat_inj.mp same]; exact Std.ReflCmp.compare_self)
    -- the height below a tracked one is below 2^64 - 1, so the next one does not wrap
    have noWrap := UInt64.toNat_lt other
    rw [UInt64.le_iff_toNat_le] at atOrAbove ⊢
    simp only [UInt64.toNat_add, UInt64.toNat_one]
    omega
  case peer_key => exact kept.peer_key

/-- A reset keeps the bookkeeping while no height is tracked. -/
theorem handleResetState_bookkeeping
    (kept : Bookkeeping sc)
    (untracked : ∀ height, height ∉ sc.blockStates)
    (now : Time)
    (state : LatestBlockState) :
    Bookkeeping (sc.handleResetState now state).1 := by
  unfold handleResetState
  apply addNewBlocks_bookkeeping
  exact
    { pending_iff := kept.pending_iff
      pendingTime_iff := kept.pendingTime_iff
      received_iff := kept.received_iff
      pending_ready := kept.pending_ready
      received_ready := kept.received_ready
      window := fun height tracked => absurd tracked (untracked height)
      peer_key := kept.peer_key }

end Marks

end Scheduler

namespace Event

/-- The height of the block an emitted event requests or delivers. -/
def aboutHeight : Event → Option UInt64
  | .scBlockRequest _ height => some height
  | .scBlockReceived _ block => some (UInt64.ofNat block.header.height)
  | _ => none

/-- The event that starts the scheduler again from the state of the chain. -/
def isResetState : Event → Bool
  | .bcResetState _ => true
  | _ => false

end Event

namespace Scheduler

/-! ## The handlers -/

section Handlers

variable {sc next : Scheduler}

/-- Every block pending in the second state was pending from the same peer in the first. -/
def PendingShrinks (sc next : Scheduler) : Prop :=
  ∀ (height : UInt64) (peerID : PeerID), next.pendingBlocks[height]? = some peerID →
    sc.pendingBlocks[height]? = some peerID

theorem PendingShrinks.refl (sc : Scheduler) : PendingShrinks sc sc :=
  fun _ _ pending => pending

theorem PendingShrinks.trans
    {middle : Scheduler}
    (first : PendingShrinks sc middle)
    (second : PendingShrinks middle next) :
    PendingShrinks sc next :=
  fun height peerID pending => first height peerID (second height peerID pending)

theorem PendingShrinks.of_eq (same : next.pendingBlocks = sc.pendingBlocks) :
    PendingShrinks sc next := by
  intro height peerID pending
  rw [← same]
  exact pending

theorem removePeer_pendingShrinks (sc : Scheduler) (peerID : PeerID) :
    PendingShrinks sc (sc.removePeer peerID) := by
  rcases removePeer_cases sc peerID with same | ⟨peer, found, active⟩
  · rw [same]
    exact PendingShrinks.refl sc
  · intro height pendingPeerID pending
    rw [removePeer_pendingBlocks found active] at pending
    split_ifs at pending
    exact pending

theorem addNewBlocks_pendingBlocks (sc : Scheduler) :
    sc.addNewBlocks.pendingBlocks = sc.pendingBlocks := by
  rw [(addNewBlocks_addsNew sc).rest]

theorem ensurePeer_pendingBlocks (sc : Scheduler) (peerID : PeerID) :
    (sc.ensurePeer peerID).1.pendingBlocks = sc.pendingBlocks := by
  unfold ensurePeer
  split <;> rfl

theorem touchPeer_pendingBlocks
    {peerID : PeerID}
    {time : Time}
    (touched : sc.touchPeer peerID time = .ok next) :
    next.pendingBlocks = sc.pendingBlocks := by
  unfold touchPeer at touched
  split at touched
  · cases touched
  · split_ifs at touched
    cases touched
    rfl

theorem setPeerRange_pendingShrinks (sc : Scheduler) (peerID : PeerID) (base height : UInt64) :
    PendingShrinks sc (sc.setPeerRange peerID base height).1 := by
  have ensured := PendingShrinks.of_eq (ensurePeer_pendingBlocks sc peerID)
  unfold setPeerRange
  generalize sc.ensurePeer peerID = pair at ensured
  obtain ⟨ensuredSc, peer⟩ := pair
  dsimp only at ensured ⊢
  split_ifs
  · exact ensured
  · exact ensured.trans (removePeer_pendingShrinks ensuredSc peerID)
  · exact ensured.trans (removePeer_pendingShrinks ensuredSc peerID)
  · exact ensured.trans (PendingShrinks.of_eq (addNewBlocks_pendingBlocks _))

theorem markProcessed_pendingShrinks (sc : Scheduler) (height : UInt64) (now : Time) :
    PendingShrinks sc (sc.markProcessed height now) := by
  intro other peerID pending
  unfold markProcessed at pending
  rw [addNewBlocks_pendingBlocks] at pending
  by_cases same : height = other
  · subst same
    simp at pending
  · simpa [Std.TreeMap.getElem?_erase, same] using pending

/--
What a handler keeps and says about the pending blocks: the bookkeeping; a
block pending after it was requested by its event, or was pending from the
same peer before and its event is not about it; and a block its event
reports received was pending from the peer.
-/
structure KeepsTrack (sc next : Scheduler) (emitted : Event) : Prop where
  bookkeeping : Bookkeeping next
  pending : ∀ (height : UInt64) (peerID : PeerID), next.pendingBlocks[height]? = some peerID →
    emitted = .scBlockRequest peerID height ∨
      (sc.pendingBlocks[height]? = some peerID ∧ emitted.aboutHeight ≠ some height)
  received : ∀ (peerID : PeerID) (block : Block), emitted = .scBlockReceived peerID block →
    sc.pendingBlocks[UInt64.ofNat block.header.height]? = some peerID

/-- A handler that only drops pending blocks and emits an event about no block keeps track. -/
theorem PendingShrinks.keepsTrack
    {emitted : Event}
    (kept : Bookkeeping next)
    (shrinks : PendingShrinks sc next)
    (silent : emitted.aboutHeight = none) :
    KeepsTrack sc next emitted := by
  refine ⟨kept, fun height peerID pending => ?_, ?_⟩
  · exact Or.inr ⟨shrinks height peerID pending, by simp [silent]⟩
  · rintro peerID block rfl
    cases silent

theorem KeepsTrack.of_eq
    {emitted : Event}
    {result : Scheduler × Event}
    (track : KeepsTrack sc result.1 result.2)
    (same : result = (next, emitted)) :
    KeepsTrack sc next emitted := by
  subst same
  exact track

variable (kept : Bookkeeping sc)
include kept

theorem handleStatusResponse_keepsTrack (peerID : PeerID) (base height : UInt64) :
    KeepsTrack sc (sc.handleStatusResponse peerID base height).1
      (sc.handleStatusResponse peerID base height).2 := by
  have ranged := setPeerRange_bookkeeping kept peerID base height
  have shrinks := setPeerRange_pendingShrinks sc peerID base height
  unfold handleStatusResponse
  split <;> rename_i result <;> rw [result] at ranged shrinks
  · exact shrinks.keepsTrack ranged rfl
  · exact shrinks.keepsTrack ranged rfl

/--
handleBlockResponse keeps track: the block it reports received was pending
from the peer and is pending no more; a peer that sent a block it was not
asked for is removed.
-/
theorem handleBlockResponse_keepsTrack (time : Time) (peerID : PeerID) (size : UInt64)
    (block : Block) :
    KeepsTrack sc (sc.handleBlockResponse time peerID size block).1
      (sc.handleBlockResponse time peerID size block).2 := by
  unfold handleBlockResponse
  split
  · exact (PendingShrinks.refl sc).keepsTrack kept rfl
  rename_i touchedSc touched
  have touchedKept := touchPeer_bookkeeping kept touched
  have samePending := touchPeer_pendingBlocks touched
  split
  · exact (PendingShrinks.of_eq samePending).trans (removePeer_pendingShrinks touchedSc peerID)
      |>.keepsTrack (removePeer_bookkeeping touchedKept peerID) rfl
  rename_i markedSc marked
  have markedKept := markReceived_bookkeeping touchedKept marked
  obtain ⟨pending, lastRate, rfl⟩ := markReceived_eq_ok touchedKept marked
  refine ⟨markedKept, fun other otherID pendingAfter => Or.inr ?_, ?_⟩
  · -- the received height is pending no more, every other keeps its peer
    by_cases same : UInt64.ofNat block.header.height = other
    · subst same
      simp at pendingAfter
    · rw [← samePending]
      exact ⟨by simpa [Std.TreeMap.getElem?_erase, same] using pendingAfter,
        by simp [Event.aboutHeight, same]⟩
  · intro otherID otherBlock reported
    cases reported
    rw [← samePending]
    exact pending

theorem handleNoBlockResponse_keepsTrack (peerID : PeerID) (height : UInt64) :
    KeepsTrack sc (sc.handleNoBlockResponse peerID height).1
      (sc.handleNoBlockResponse peerID height).2 := by
  unfold handleNoBlockResponse
  split
  · exact (PendingShrinks.refl sc).keepsTrack kept rfl
  · split_ifs
    · exact (PendingShrinks.refl sc).keepsTrack kept rfl
    · exact (removePeer_pendingShrinks sc peerID).keepsTrack (removePeer_bookkeeping kept peerID) rfl

/-- handleBlockProcessed, when it does not panic, keeps track: it processes the scheduler's height. -/
theorem handleBlockProcessed_keepsTrack
    {now : Time}
    {height : UInt64}
    {emitted : Event}
    (handled : sc.handleBlockProcessed now height = .ok (next, emitted)) :
    KeepsTrack sc next emitted := by
  unfold handleBlockProcessed at handled
  split_ifs at handled with otherHeight
  have same : height = sc.height := not_not.mp otherHeight
  subst same
  have track : ∀ emitted : Event, emitted.aboutHeight = none →
      KeepsTrack sc (sc.markProcessed sc.height now) emitted := fun _ silent =>
    (markProcessed_pendingShrinks sc sc.height now).keepsTrack (markProcessed_bookkeeping kept now)
      silent
  dsimp only at handled
  split_ifs at handled <;> cases handled
  · exact track _ rfl
  · exact track _ rfl

theorem handleBlockProcessError_keepsTrack (firstPeerID secondPeerID : PeerID) :
    KeepsTrack sc (sc.handleBlockProcessError firstPeerID secondPeerID).1
      (sc.handleBlockProcessError firstPeerID secondPeerID).2 := by
  have removedFirst := removePeer_bookkeeping kept firstPeerID
  have shrinksFirst := removePeer_pendingShrinks sc firstPeerID
  unfold handleBlockProcessError
  dsimp only
  by_cases different : firstPeerID ≠ secondPeerID
  · rw [if_pos different]
    have removed := removePeer_bookkeeping removedFirst secondPeerID
    have shrinks := shrinksFirst.trans (removePeer_pendingShrinks _ secondPeerID)
    split_ifs
    · exact shrinks.keepsTrack removed rfl
    · exact shrinks.keepsTrack removed rfl
  · rw [if_neg different]
    split_ifs
    · exact shrinksFirst.keepsTrack removedFirst rfl
    · exact shrinksFirst.keepsTrack removedFirst rfl

theorem handleAddNewPeer_keepsTrack (peerID : PeerID) :
    KeepsTrack sc (sc.handleAddNewPeer peerID).1 (sc.handleAddNewPeer peerID).2 :=
  (PendingShrinks.of_eq (ensurePeer_pendingBlocks sc peerID)).keepsTrack
    (ensurePeer_bookkeeping kept peerID) rfl

theorem handleRemovePeer_keepsTrack (peerID : PeerID) :
    KeepsTrack sc (sc.handleRemovePeer peerID).1 (sc.handleRemovePeer peerID).2 := by
  have removed := removePeer_bookkeeping kept peerID
  have shrinks := removePeer_pendingShrinks sc peerID
  unfold handleRemovePeer
  dsimp only
  split_ifs
  · exact shrinks.keepsTrack removed rfl
  · exact shrinks.keepsTrack removed rfl

/--
handleTryPrunePeer keeps track: it removes the peer the scheduler's height
waits for when that timed out, then every prunable peer, and its events are
about no block.
-/
theorem handleTryPrunePeer_keepsTrack (now time : Time) :
    KeepsTrack sc (sc.handleTryPrunePeer now time).1 (sc.handleTryPrunePeer now time).2 := by
  have unchanged : Bookkeeping sc ∧ PendingShrinks sc sc := ⟨kept, PendingShrinks.refl sc⟩
  have removed : ∀ peerID : PeerID,
      Bookkeeping (sc.removePeer peerID) ∧ PendingShrinks sc (sc.removePeer peerID) :=
    fun peerID => ⟨removePeer_bookkeeping kept peerID, removePeer_pendingShrinks sc peerID⟩
  -- the loop over the prunable peers removes one peer a turn
  have pruned : ∀ stage : Scheduler, Bookkeeping stage ∧ PendingShrinks sc stage →
      ∀ peers : List PeerID,
        Bookkeeping (peers.foldl removePeer stage) ∧
          PendingShrinks sc (peers.foldl removePeer stage) :=
    fun stage stageKept peers =>
      Runs.invariant_of_foldl (fun next => Bookkeeping next ∧ PendingShrinks sc next)
        (fun next peerID _ ⟨nextKept, shrinks⟩ =>
          ⟨removePeer_bookkeeping nextKept peerID, shrinks.trans (removePeer_pendingShrinks next peerID)⟩)
        stageKept
  have result : Bookkeeping (sc.handleTryPrunePeer now time).1 ∧
      PendingShrinks sc (sc.handleTryPrunePeer now time).1 := by
    unfold handleTryPrunePeer
    dsimp only
    split
    · split_ifs
      · exact removed _
      · exact pruned _ (removed _) _
      · exact pruned _ (removed _) _
      · exact unchanged
      · exact pruned _ unchanged _
      · exact pruned _ unchanged _
    · split_ifs
      · exact unchanged
      · exact pruned _ unchanged _
      · exact pruned _ unchanged _
  refine result.2.keepsTrack result.1 ?_
  unfold handleTryPrunePeer
  dsimp only
  split <;> split_ifs <;> rfl

/-- handleTrySchedule keeps track: the block it marks pending is the one its event requests. -/
theorem handleTrySchedule_keepsTrack (now time : Time) :
    KeepsTrack sc (sc.handleTrySchedule now time).1 (sc.handleTrySchedule now time).2 := by
  unfold handleTrySchedule
  dsimp only
  split_ifs with timedOut nothingNew
  · exact (PendingShrinks.refl sc).keepsTrack kept rfl
  · exact (PendingShrinks.refl sc).keepsTrack kept rfl
  split
  · exact (PendingShrinks.refl sc).keepsTrack kept rfl
  rename_i bestPeerID selected
  split
  · exact (PendingShrinks.refl sc).keepsTrack kept rfl
  rename_i markedSc marked
  have markedKept := markPending_bookkeeping kept marked
  obtain ⟨-, -, rfl⟩ := markPending_eq_ok marked
  refine ⟨markedKept, fun height peerID pendingAfter => ?_, ?_⟩
  · by_cases same : sc.nextHeightToSchedule = height
    · -- the block the event requests
      subst same
      left
      simp only [Std.TreeMap.getElem?_insert_self, Option.some.injEq] at pendingAfter
      rw [pendingAfter]
    · right
      exact ⟨by simpa [Std.TreeMap.getElem?_insert, same] using pendingAfter,
        by simp [Event.aboutHeight, same]⟩
  · intro peerID block reported
    cases reported

/-- A reset of a scheduler that tracks no block keeps track. -/
theorem handleResetState_keepsTrack
    (untracked : ∀ height, height ∉ sc.blockStates)
    (now : Time)
    (state : LatestBlockState) :
    KeepsTrack sc (sc.handleResetState now state).1 (sc.handleResetState now state).2 := by
  have samePending : (sc.handleResetState now state).1.pendingBlocks = sc.pendingBlocks := by
    unfold handleResetState
    exact addNewBlocks_pendingBlocks _
  exact (PendingShrinks.of_eq samePending).keepsTrack
    (handleResetState_bookkeeping kept untracked now state) rfl

/-- Every event but a reset is handled keeping track. -/
theorem handle_keepsTrack
    {now : Time}
    {event emitted : Event}
    (notReset : event.isResetState = false)
    (handled : sc.handle now event = .ok (next, emitted)) :
    KeepsTrack sc next emitted := by
  cases event
  case bcResetState => cases notReset
  case bcStatusResponse _ peerID base height =>
    exact (handleStatusResponse_keepsTrack kept peerID base height).of_eq (Except.ok.inj handled)
  case bcBlockResponse time peerID size block =>
    exact (handleBlockResponse_keepsTrack kept time peerID size block).of_eq
      (Except.ok.inj handled)
  case bcNoBlockResponse _ peerID height =>
    exact (handleNoBlockResponse_keepsTrack kept peerID height).of_eq (Except.ok.inj handled)
  case rTrySchedule time =>
    exact (handleTrySchedule_keepsTrack kept now time).of_eq (Except.ok.inj handled)
  case bcAddNewPeer peerID =>
    exact (handleAddNewPeer_keepsTrack kept peerID).of_eq (Except.ok.inj handled)
  case bcRemovePeer peerID =>
    exact (handleRemovePeer_keepsTrack kept peerID).of_eq (Except.ok.inj handled)
  case rTryPrunePeer time =>
    exact (handleTryPrunePeer_keepsTrack kept now time).of_eq (Except.ok.inj handled)
  case pcBlockProcessed height _ =>
    exact handleBlockProcessed_keepsTrack kept handled
  case pcBlockVerificationFailure _ firstPeerID secondPeerID =>
    exact (handleBlockProcessError_keepsTrack kept firstPeerID secondPeerID).of_eq
      (Except.ok.inj handled)
  -- an event the scheduler emits itself is answered by a failure event
  all_goals exact ((PendingShrinks.refl sc).keepsTrack kept rfl).of_eq (Except.ok.inj handled)

end Handlers

/-! ## Runs of the routine -/

section History

/--
What every state of a run of the routine keeps: the bookkeeping; for every
pending block, the last event sent about its height is its request to the
peer it is pending from; and every block reported received was, when it was
reported, last requested from the peer it came from.
-/
structure Tracked (state : Scheduler × List Event) : Prop where
  bookkeeping : Bookkeeping state.1
  requested : ∀ (height : UInt64) (peerID : PeerID), state.1.pendingBlocks[height]? = some peerID →
    Runs.lastAbout Event.aboutHeight state.2 height = some (.scBlockRequest peerID height)
  answered : ∀ (before after : List Event) (peerID : PeerID) (block : Block),
    state.2 = before ++ .scBlockReceived peerID block :: after →
      Runs.lastAbout Event.aboutHeight before (UInt64.ofNat block.header.height) =
        some (.scBlockRequest peerID (UInt64.ofNat block.header.height))

/-- A handler that keeps track, its event sent after the others, keeps a run tracked. -/
theorem KeepsTrack.tracked
    {sc next : Scheduler}
    {sent : List Event}
    {emitted : Event}
    (step : KeepsTrack sc next emitted)
    (tracked : Tracked (sc, sent)) :
    Tracked (next, sent ++ [emitted]) := by
  constructor
  case bookkeeping => exact step.bookkeeping
  case requested =>
    intro height peerID pending
    rcases step.pending height peerID pending with requestedNow | ⟨pendingBefore, notAbout⟩
    · subst requestedNow
      exact Runs.lastAbout_append_of_about rfl
    · rw [Runs.lastAbout_append_of_not_about notAbout]
      exact tracked.requested height peerID pendingBefore
  case answered =>
    intro before after peerID block split
    dsimp only at split
    rcases List.eq_nil_or_concat after with rfl | ⟨middle, last, rfl⟩
    · -- the block this handler reports received
      obtain ⟨rfl, reported⟩ := List.append_inj' split rfl
      exact tracked.requested _ _ (step.received peerID block (List.singleton_inj.mp reported))
    · -- a block reported received earlier in the run
      have reassociated :
          sent ++ [emitted] = (before ++ .scBlockReceived peerID block :: middle) ++ [last] := by
        rw [split]
        simp
      exact tracked.answered before middle peerID block (List.append_inj' reassociated rfl).1

/-- One turn of the routine keeps a run tracked, a reset only while no block is tracked. -/
theorem routineStep_tracked
    {state next : Scheduler × List Event}
    {input : Time × Event}
    (tracked : Tracked state)
    (resetSafe : input.2.isResetState = true → ∀ height, height ∉ state.1.blockStates)
    (stepped : routineStep state input = .ok next) :
    Tracked next := by
  obtain ⟨sc, sent⟩ := state
  obtain ⟨now, event⟩ := input
  obtain ⟨⟨handledSc, emitted⟩, handled, rfl⟩ := Runs.map_eq_ok stepped
  apply KeepsTrack.tracked _ tracked
  cases reset : event.isResetState
  · exact handle_keepsTrack tracked.bookkeeping reset handled
  · -- the reset is the one event that is not handled by handle_keepsTrack
    cases event
    case bcResetState latest =>
      exact (handleResetState_keepsTrack tracked.bookkeeping (resetSafe reset) now latest).of_eq
        (Except.ok.inj handled)
    all_goals cases reset

/-- A new scheduler tracks no block and has sent nothing. -/
theorem newScheduler_tracked (initHeight : UInt64) (startTime : Time) (fastSync : FastSyncConfig) :
    Tracked (newScheduler initHeight startTime fastSync, []) := by
  constructor
  · constructor <;> simp [newScheduler]
  · simp [newScheduler]
  · simp

/--
Every state of a run of the routine from a new scheduler, reset at most by
its first event, is tracked.
-/
theorem tracked_of_run
    {initHeight : UInt64}
    {startTime : Time}
    {fastSync : FastSyncConfig}
    {inputs : List (Time × Event)}
    {final : Scheduler × List Event}
    (resetFirstOnly : ∀ input ∈ inputs.tail, input.2.isResetState = false)
    (finished :
      Runs.run routineStep (newScheduler initHeight startTime fastSync, []) inputs = .ok final) :
    Tracked final := by
  cases inputs with
  | nil =>
      cases finished
      exact newScheduler_tracked initHeight startTime fastSync
  | cons first rest =>
      obtain ⟨next, stepped, restFinished⟩ := Runs.run_cons_eq_ok finished
      -- the first event may be a reset: the new scheduler tracks no block
      have afterFirst : Tracked next :=
        routineStep_tracked (newScheduler_tracked initHeight startTime fastSync)
          (fun _ _ => Std.TreeMap.not_mem_emptyc) stepped
      refine Runs.invariant_of_run_of_mem Tracked
        (fun state input next member tracked stepped => ?_) afterFirst restFinished
      refine routineStep_tracked tracked (fun reset => ?_) stepped
      rw [resetFirstOnly input member] at reset
      cases reset

/--
In every state of a run of the routine from a new scheduler, reset at most by
its first event and panicking at no processed block, the scheduler keeps its
bookkeeping; and the routine reports a block received from a peer only when
the last event it sent about the block's height is the block's request to
that peer.
-/
theorem scheduler_keeps_bookkeeping
    (initHeight : UInt64)
    (startTime : Time)
    (fastSync : FastSyncConfig)
    (inputs : List (Time × Event))
    (final : Scheduler × List Event)
    (resetFirstOnly : ∀ input ∈ inputs.tail, input.2.isResetState = false)
    (finished :
      Runs.run routineStep (newScheduler initHeight startTime fastSync, []) inputs = .ok final) :
    Bookkeeping final.1 ∧
      ∀ (before after : List Event) (peerID : PeerID) (block : Block),
        final.2 = before ++ .scBlockReceived peerID block :: after →
          Runs.lastAbout Event.aboutHeight before (UInt64.ofNat block.header.height) =
            some (.scBlockRequest peerID (UInt64.ofNat block.header.height)) := by
  have tracked := tracked_of_run resetFirstOnly finished
  exact ⟨tracked.bookkeeping, tracked.answered⟩

/-- A sync from one peer: a reset to the first block, the peer's range, a request and its block. -/
def syncInputs : List (Time × Event) :=
  [(⟨0⟩, .bcResetState GenesisBlock.state),
    (⟨0⟩, .bcAddNewPeer "peer"),
    (⟨0⟩, .bcStatusResponse ⟨0⟩ "peer" 1 2),
    (⟨1⟩, .rTrySchedule ⟨1⟩),
    (⟨2⟩, .bcBlockResponse ⟨2⟩ "peer" 10 GenesisBlock.block)]

/-- The configuration of the sync: two pending blocks, timeouts of a minute and 15 seconds. -/
def syncConfig : FastSyncConfig :=
  ⟨2, 60000000000, 15000000000, 0⟩

theorem scheduler_keeps_bookkeeping_sync :
    ∃ final,
      Runs.run routineStep (newScheduler 1 ⟨0⟩ syncConfig, []) syncInputs = .ok final ∧
        final.2 =
          [.noOp, .noOp, .noOp, .scBlockRequest "peer" 1, .scBlockReceived "peer" GenesisBlock.block] ∧
        (Bookkeeping final.1 ∧
          ∀ (before after : List Event) (peerID : PeerID) (block : Block),
            final.2 = before ++ .scBlockReceived peerID block :: after →
              Runs.lastAbout Event.aboutHeight before (UInt64.ofNat block.header.height) =
                some (.scBlockRequest peerID (UInt64.ofNat block.header.height))) := by
  refine ⟨_, rfl, rfl, ?_⟩
  exact scheduler_keeps_bookkeeping 1 ⟨0⟩ syncConfig syncInputs _ (by decide) rfl

end History

end Scheduler

end Blockchain

end Kardia
