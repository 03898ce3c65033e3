import Kardia.Block

namespace Kardia

namespace Blockchain

/-!
# The fast-sync scheduler

The model of blockchain/scheduler.go: the scheduler's peers and the four maps
it keeps of the blocks it syncs, its helpers, and scheduler.handle with the
ten handlers it dispatches to.  Heights are uint64 and wrap as in Go; times
are nanoseconds, and a time difference is their plain difference.

Every Go map is a Std.TreeMap and every loop over one is a fold in key order.
Each loop the scheduler runs is either local to its key (the loops of
removePeer), a maximum or a minimum (maxHeight, nextHeightToSchedule, the
maximum peer height of removePeer), or builds a list that is sorted or only
counted afterwards (prunablePeers, pendingFrom, getPeersWithHeight), so its
result does not depend on the order.

handleTrySchedule and handleTryPrunePeer read the wall clock through
time.Since, markProcessed and handleResetState through time.Now: handle takes
the clock's reading as an argument.  The only panic of the scheduler is a
processed block at another height than the scheduler's.
-/

/-- blockState. -/
inductive BlockState where
  | unknown
  | new
  | pending
  | received
  | processed
  deriving DecidableEq, Repr

/-- peerState. -/
inductive PeerState where
  | new
  | ready
  | removed
  deriving DecidableEq, Repr

/-- scPeer. -/
structure ScPeer where
  peerID : PeerID
  state : PeerState
  base : UInt64
  height : UInt64
  lastTouched : Time
  lastRate : Int
  deriving DecidableEq, Repr

/-- newScPeer. -/
def newScPeer (peerID : PeerID) : ScPeer :=
  ⟨peerID, .new, 0, 0, ⟨0⟩, 0⟩

/-- FastSyncConfig, the fields newScheduler reads; durations in nanoseconds. -/
structure FastSyncConfig where
  targetPending : Int
  syncTimeout : Int
  peerTimeout : Int
  minRecvRate : Int
  deriving DecidableEq, Repr

/--
The errors of the scheduler, each with the values its message formats:
"couldn't find peer %s", "tried to touch peer in state %s, must be Ready",
"cannot move peer height lower. from %d to %d", "cannot set peer base higher
than its height", "received block %d from peer %s without being requested",
"clock error: block %d received at %s but requested at %s", "block %d should
be in blockStateNew but is %s", "cannot find peer %s", "cannot schedule %d
from %s in %s", "cannot request height %d from peer %s that is at height %d",
"cannot request height %d for peer %s with base %d", "cannot find peer for
height %d", "peer was stopped", "peer %v with base %d height %d claims no
block for %d" and "unknown event %v"; and the reactor's "peer was pruned".
-/
inductive SchedulerError where
  | peerNotFound (peerID : PeerID)
  | touchNotReady (state : PeerState)
  | heightLower (fromHeight toHeight : UInt64)
  | baseAboveHeight
  | notRequested (height : UInt64) (peerID : PeerID)
  | clockError (height : UInt64) (received requested : Time)
  | notNew (height : UInt64) (state : BlockState)
  | cannotFindPeer (peerID : PeerID)
  | cannotSchedule (height : UInt64) (peerID : PeerID) (state : PeerState)
  | aboveHeight (height : UInt64) (peerID : PeerID) (peerHeight : UInt64)
  | belowBase (height : UInt64) (peerID : PeerID) (base : UInt64)
  | noPeerForHeight (height : UInt64)
  | peerStopped
  | noBlock (peerID : PeerID) (base height requested : UInt64)
  | unknownEvent
  | peerPruned
  deriving DecidableEq, Repr

/--
The events of the fast sync: those the scheduler handles and emits, and the
processor's timer event and its last event.  The emitted ones, like any
other event of the reactor, reach the default branch of handle.
-/
inductive Event where
  | bcResetState (state : LatestBlockState)
  | bcStatusResponse (time : Time) (peerID : PeerID) (base height : UInt64)
  | bcBlockResponse (time : Time) (peerID : PeerID) (size : UInt64) (block : Block)
  | bcNoBlockResponse (time : Time) (peerID : PeerID) (height : UInt64)
  | rTrySchedule (time : Time)
  | bcAddNewPeer (peerID : PeerID)
  | bcRemovePeer (peerID : PeerID)
  | rTryPrunePeer (time : Time)
  | pcBlockProcessed (height : UInt64) (peerID : PeerID)
  | pcBlockVerificationFailure (height : UInt64) (firstPeerID secondPeerID : PeerID)
  | noOp
  | scFinishedEv (reason : String)
  | scBlockRequest (peerID : PeerID) (height : UInt64)
  | scBlockReceived (peerID : PeerID) (block : Block)
  | scPeerError (peerID : PeerID) (reason : SchedulerError)
  | scPeersPruned (peers : List PeerID)
  | scSchedulerFail (reason : SchedulerError)
  | rProcessBlock
  | pcFinished (blocksSynced : Int) (kaiState : LatestBlockState)
  deriving DecidableEq, Repr

/-- The scheduler: its heights, its peers and the state of each block it syncs. -/
structure Scheduler where
  initHeight : UInt64
  height : UInt64
  lastAdvance : Time
  syncTimeout : Int
  peers : Std.TreeMap PeerID ScPeer
  peerTimeout : Int
  minRecvRate : Int
  targetPending : Int
  blockStates : Std.TreeMap UInt64 BlockState
  pendingBlocks : Std.TreeMap UInt64 PeerID
  pendingTime : Std.TreeMap UInt64 Time
  receivedBlocks : Std.TreeMap UInt64 PeerID

/-- newScheduler. -/
def newScheduler (initHeight : UInt64) (startTime : Time) (fastSync : FastSyncConfig) :
    Scheduler where
  initHeight := initHeight
  height := initHeight
  lastAdvance := startTime
  syncTimeout := fastSync.syncTimeout
  peers := ∅
  peerTimeout := fastSync.peerTimeout
  minRecvRate := fastSync.minRecvRate
  targetPending := fastSync.targetPending
  blockStates := ∅
  pendingBlocks := ∅
  pendingTime := ∅
  receivedBlocks := ∅

/-- math.MaxUint64. -/
def maxUint64 : UInt64 :=
  18446744073709551615

namespace Scheduler

/-- ensurePeer: the peer, added in state New when it is not known. -/
def ensurePeer (sc : Scheduler) (peerID : PeerID) : Scheduler × ScPeer :=
  match sc.peers[peerID]? with
  | some peer => (sc, peer)
  | none => ({ sc with peers := sc.peers.insert peerID (newScPeer peerID) }, newScPeer peerID)

/-- touchPeer. -/
def touchPeer (sc : Scheduler) (peerID : PeerID) (time : Time) :
    Except SchedulerError Scheduler :=
  match sc.peers[peerID]? with
  | none => .error (.peerNotFound peerID)
  | some peer =>
      if peer.state ≠ .ready then
        .error (.touchNotReady peer.state)
      else
        .ok { sc with peers := sc.peers.insert peerID { peer with lastTouched := time } }

/-- The body of removePeer's loop over the pending blocks: one from the peer goes back to New. -/
def resetPending (peerID : PeerID) (sc : Scheduler) (height : UInt64) (pendingPeerID : PeerID) :
    Scheduler :=
  if pendingPeerID = peerID then
    { sc with
      blockStates := sc.blockStates.insert height .new
      pendingTime := sc.pendingTime.erase height
      pendingBlocks := sc.pendingBlocks.erase height }
  else
    sc

/-- The body of removePeer's loop over the received blocks: one from the peer goes back to New. -/
def resetReceived (peerID : PeerID) (sc : Scheduler) (height : UInt64) (rcvPeerID : PeerID) :
    Scheduler :=
  if rcvPeerID = peerID then
    { sc with
      blockStates := sc.blockStates.insert height .new
      receivedBlocks := sc.receivedBlocks.erase height }
  else
    sc

/--
The loop of removePeer over the peers, with the removed one marked: the
greatest height of a ready peer other than the removed one, or 0.
-/
def maxOtherPeerHeight (peers : Std.TreeMap PeerID ScPeer) (peer : ScPeer) : UInt64 :=
  peers.foldl
    (fun maxPeerHeight _ otherPeer =>
      if otherPeer.state ≠ .ready then
        maxPeerHeight
      else if otherPeer.peerID ≠ peer.peerID ∧ otherPeer.height > maxPeerHeight then
        otherPeer.height
      else
        maxPeerHeight)
    0

/--
removePeer: the blocks pending from or received from the peer go back to
New, the peer is marked Removed, and the blocks above the greatest height of
the other ready peers are forgotten.
-/
def removePeer (sc : Scheduler) (peerID : PeerID) : Scheduler :=
  match sc.peers[peerID]? with
  | none => sc
  | some peer =>
      if peer.state = .removed then
        sc
      else
        let sc := sc.pendingBlocks.foldl (resetPending peerID) sc
        let sc := sc.receivedBlocks.foldl (resetReceived peerID) sc
        let peers := sc.peers.insert peerID { peer with state := .removed }
        let maxPeerHeight := maxOtherPeerHeight peers peer
        -- the last loop deletes every height above the maximum
        { sc with
          peers := peers
          blockStates := sc.blockStates.filter fun height _ => !(height > maxPeerHeight) }

/-- maxHeight: the greatest height of a ready peer, or the last processed height. -/
def maxHeight (sc : Scheduler) : UInt64 :=
  sc.peers.foldl
    (fun max _ peer =>
      if peer.state ≠ .ready then
        max
      else if max < peer.height then
        peer.height
      else
        max)
    (sc.height - 1)

/-- getStateAtHeight. -/
def getStateAtHeight (sc : Scheduler) (height : UInt64) : BlockState :=
  if height < sc.height then
    .processed
  else
    match sc.blockStates[height]? with
    | some state => state
    | none => .unknown

/-- setStateAtHeight. -/
def setStateAtHeight (sc : Scheduler) (height : UInt64) (state : BlockState) : Scheduler :=
  { sc with blockStates := sc.blockStates.insert height state }

/--
addNewBlocks: while fewer than targetPending blocks are tracked, every
unknown height from the scheduler's height on, below targetPending more and
up to the maximum peer height, becomes New.  The loop stops at the first
height above the maximum, which the loop body does not change.
-/
def addNewBlocks (sc : Scheduler) : Scheduler :=
  if (sc.blockStates.size : Int) ≥ sc.targetPending then
    sc
  else
    let bound := UInt64.ofInt sc.targetPending + sc.height
    let heights :=
      ((List.range' sc.height.toNat (bound.toNat - sc.height.toNat)).map UInt64.ofNat).takeWhile
        fun i => !(i > sc.maxHeight)
    heights.foldl
      (fun sc i =>
        if sc.getStateAtHeight i = .unknown then
          sc.setStateAtHeight i .new
        else
          sc)
      sc

/-- setPeerRange: the new range of a peer, or its removal and the error. -/
def setPeerRange (sc : Scheduler) (peerID : PeerID) (base height : UInt64) :
    Scheduler × Option SchedulerError :=
  let (sc, peer) := sc.ensurePeer peerID
  if peer.state = .removed then
    (sc, none)
  else if height < peer.height then
    (sc.removePeer peerID, some (.heightLower peer.height height))
  else if base > height then
    (sc.removePeer peerID, some .baseAboveHeight)
  else
    let peers := sc.peers.insert peerID { peer with base := base, height := height, state := .ready }
    ({ sc with peers := peers }.addNewBlocks, none)

/-- getPeersWithHeight: the ready peers whose range holds the height. -/
def getPeersWithHeight (sc : Scheduler) (height : UInt64) : List PeerID :=
  sc.peers.foldl
    (fun peers _ peer =>
      if peer.state ≠ .ready then
        peers
      else if peer.base ≤ height ∧ peer.height ≥ height then
        peers ++ [peer.peerID]
      else
        peers)
    []

/-- IsPrunable: some peer is at or below the height the scheduler started from. -/
def isPrunable (sc : Scheduler) : Bool :=
  sc.peers.foldl (fun found _ peer => found || peer.height ≤ sc.initHeight) false

/-- prunablePeers: the ready peers that timed out or are too slow, sorted by ID. -/
def prunablePeers (sc : Scheduler) (peerTimeout minRecvRate : Int) (now : Time) :
    List PeerID :=
  let prunable :=
    sc.peers.foldl
      (fun prunable peerID peer =>
        if peer.state ≠ .ready then
          prunable
        else if (now.nanos - peer.lastTouched.nanos > peerTimeout ∨
            peer.lastRate < minRecvRate) ∧ sc.isPrunable then
          prunable ++ [peerID]
        else
          prunable)
      []
  prunable.insertionSort (· < ·)

/--
markReceived: a block pending from the peer becomes Received from it.  The
peer exists and is ready by the contract of the caller, which touched it.
-/
def markReceived (sc : Scheduler) (peerID : PeerID) (height size : UInt64) (now : Time) :
    Except SchedulerError Scheduler :=
  if sc.getStateAtHeight height ≠ .pending ∨ sc.pendingBlocks.getD height "" ≠ peerID then
    .error (.notRequested height peerID)
  else
    let pendingTime := sc.pendingTime.getD height ⟨0⟩
    if height ∉ sc.pendingTime ∨ now.nanos - pendingTime.nanos ≤ 0 then
      .error (.clockError height pendingTime now)
    else
      .ok
        { sc with
          peers := sc.peers.modify peerID fun peer =>
            { peer with lastRate := size.toInt64.toInt.tdiv (now.nanos - pendingTime.nanos) }
          blockStates := sc.blockStates.insert height .received
          pendingBlocks := sc.pendingBlocks.erase height
          pendingTime := sc.pendingTime.erase height
          receivedBlocks := sc.receivedBlocks.insert height peerID }

/-- markPending: a New block in the range of a ready peer is requested from it. -/
def markPending (sc : Scheduler) (peerID : PeerID) (height : UInt64) (time : Time) :
    Except SchedulerError Scheduler :=
  let state := sc.getStateAtHeight height
  if state ≠ .new then
    .error (.notNew height state)
  else
    match sc.peers[peerID]? with
    | none => .error (.cannotFindPeer peerID)
    | some peer =>
        if peer.state ≠ .ready then
          .error (.cannotSchedule height peerID peer.state)
        else if height > peer.height then
          .error (.aboveHeight height peerID peer.height)
        else if height < peer.base then
          .error (.belowBase height peerID peer.base)
        else
          .ok
            { sc with
              blockStates := sc.blockStates.insert height .pending
              pendingBlocks := sc.pendingBlocks.insert height peerID
              pendingTime := sc.pendingTime.insert height time }

/--
markProcessed: the scheduler moves past the height and forgets it, whatever
its state.  Its error is always nil.
-/
def markProcessed (sc : Scheduler) (height : UInt64) (now : Time) : Scheduler :=
  { sc with
    lastAdvance := now
    height := height + 1
    pendingBlocks := sc.pendingBlocks.erase height
    pendingTime := sc.pendingTime.erase height
    receivedBlocks := sc.receivedBlocks.erase height
    blockStates := sc.blockStates.erase height }.addNewBlocks

/-- allBlocksProcessed. -/
def allBlocksProcessed (sc : Scheduler) : Bool :=
  if sc.peers.isEmpty then
    false
  else
    sc.height ≥ sc.maxHeight

/-- nextHeightToSchedule: the least New height, or 0 when there is none. -/
def nextHeightToSchedule (sc : Scheduler) : UInt64 :=
  let min :=
    sc.blockStates.foldl
      (fun min height state => if state = .new ∧ height < min then height else min)
      maxUint64
  if min = maxUint64 then 0 else min

/-- pendingFrom: the heights pending from a peer. -/
def pendingFrom (sc : Scheduler) (peerID : PeerID) : List UInt64 :=
  sc.pendingBlocks.foldl
    (fun heights height pendingPeerID =>
      if pendingPeerID = peerID then heights ++ [height] else heights)
    []

/--
selectPeer: among the peers that have the height, the least by ID of those
with the fewest pending requests.  The group of the fewest is never empty;
the code indexes it without a check.
-/
def selectPeer (sc : Scheduler) (height : UInt64) : Except SchedulerError PeerID :=
  let peers := sc.getPeersWithHeight height
  if peers.length = 0 then
    .error (.noPeerForHeight height)
  else
    let pendingFrom : Std.TreeMap Nat (List PeerID) :=
      peers.foldl
        (fun pendingFrom peerID =>
          let numPending := (sc.pendingFrom peerID).length
          pendingFrom.insert numPending (pendingFrom.getD numPending [] ++ [peerID]))
        ∅
    let minPending :=
      pendingFrom.foldl (fun minPending mp _ => if mp < minPending then mp else minPending)
        maxUint64.toNat
    match (pendingFrom.getD minPending []).insertionSort (· < ·) with
    | best :: _ => .ok best
    | [] => .error (.noPeerForHeight height)

/-! ## Handlers -/

/-- handleBlockResponse. -/
def handleBlockResponse (sc : Scheduler) (time : Time) (peerID : PeerID) (size : UInt64)
    (block : Block) : Scheduler × Event :=
  match sc.touchPeer peerID time with
  -- the peer does not exist or is not ready
  | .error _ => (sc, .noOp)
  | .ok sc =>
      match sc.markReceived peerID (UInt64.ofNat block.header.height) size time with
      | .error reason => (sc.removePeer peerID, .scPeerError peerID reason)
      | .ok sc => (sc, .scBlockReceived peerID block)

/-- handleNoBlockResponse. -/
def handleNoBlockResponse (sc : Scheduler) (peerID : PeerID) (height : UInt64) :
    Scheduler × Event :=
  match sc.peers[peerID]? with
  | none => (sc, .noOp)
  | some peer =>
      if peer.state = .removed then
        (sc, .noOp)
      else
        (sc.removePeer peerID, .scPeerError peerID (.noBlock peerID peer.base peer.height height))

/-- handleBlockProcessed: a panic for a block at another height. -/
def handleBlockProcessed (sc : Scheduler) (now : Time) (height : UInt64) :
    Except String (Scheduler × Event) :=
  if height ≠ sc.height then
    .error ("processed height " ++ toString height ++ ", but expected height " ++
      toString sc.height)
  else
    let sc := sc.markProcessed height now
    if sc.allBlocksProcessed then
      .ok (sc, .scFinishedEv "processed all blocks")
    else
      .ok (sc, .noOp)

/-- handleBlockProcessError. -/
def handleBlockProcessError (sc : Scheduler) (firstPeerID secondPeerID : PeerID) :
    Scheduler × Event :=
  let sc := sc.removePeer firstPeerID
  let sc := if firstPeerID ≠ secondPeerID then sc.removePeer secondPeerID else sc
  if sc.allBlocksProcessed then
    (sc, .scFinishedEv "error on last block")
  else
    (sc, .noOp)

/-- handleAddNewPeer. -/
def handleAddNewPeer (sc : Scheduler) (peerID : PeerID) : Scheduler × Event :=
  ((sc.ensurePeer peerID).1, .noOp)

/-- handleRemovePeer. -/
def handleRemovePeer (sc : Scheduler) (peerID : PeerID) : Scheduler × Event :=
  let sc := sc.removePeer peerID
  if sc.allBlocksProcessed then
    (sc, .scFinishedEv "removed peer")
  else
    (sc, .scPeerError peerID .peerStopped)

/--
handleTryPrunePeer: the peer that has not delivered the block at the
scheduler's height in time, and then every prunable peer, is removed.
-/
def handleTryPrunePeer (sc : Scheduler) (now time : Time) : Scheduler × Event :=
  let sc :=
    match sc.pendingTime[sc.height]? with
    | some timeHeightAsked =>
        if now.nanos - timeHeightAsked.nanos > sc.peerTimeout then
          sc.removePeer (sc.pendingBlocks.getD sc.height "")
        else
          sc
    | none => sc
  let prunablePeers := sc.prunablePeers sc.peerTimeout sc.minRecvRate time
  if prunablePeers.length = 0 then
    (sc, .noOp)
  else
    let sc := prunablePeers.foldl removePeer sc
    if sc.allBlocksProcessed then
      (sc, .scFinishedEv "after try prune")
    else
      (sc, .scPeersPruned prunablePeers)

/-- handleResetState: the scheduler starts again after the state's last block. -/
def handleResetState (sc : Scheduler) (now : Time) (state : LatestBlockState) :
    Scheduler × Event :=
  let initHeight := UInt64.ofNat state.lastBlockHeight + 1
  let initHeight := if initHeight = 1 then UInt64.ofNat state.initialHeight else initHeight
  ({ sc with initHeight := initHeight, height := initHeight, lastAdvance := now }.addNewBlocks,
    .noOp)

/-- handleTrySchedule: the next New block is requested from the best peer. -/
def handleTrySchedule (sc : Scheduler) (now time : Time) : Scheduler × Event :=
  if now.nanos - sc.lastAdvance.nanos > sc.syncTimeout then
    (sc, .scFinishedEv "timeout, no advance")
  else
    let nextHeight := sc.nextHeightToSchedule
    if nextHeight = 0 then
      (sc, .noOp)
    else
      match sc.selectPeer nextHeight with
      | .error reason => (sc, .scSchedulerFail reason)
      | .ok bestPeerID =>
          match sc.markPending bestPeerID nextHeight time with
          | .error reason => (sc, .scSchedulerFail reason)
          | .ok sc => (sc, .scBlockRequest bestPeerID nextHeight)

/-- handleStatusResponse. -/
def handleStatusResponse (sc : Scheduler) (peerID : PeerID) (base height : UInt64) :
    Scheduler × Event :=
  match sc.setPeerRange peerID base height with
  | (sc, some reason) => (sc, .scPeerError peerID reason)
  | (sc, none) => (sc, .noOp)

/--
scheduler.handle at a reading of the wall clock: the next state and the
event it emits, or the panic of a block processed at another height.
-/
def handle (sc : Scheduler) (now : Time) : Event → Except String (Scheduler × Event)
  | .bcResetState state => .ok (sc.handleResetState now state)
  | .bcStatusResponse _ peerID base height => .ok (sc.handleStatusResponse peerID base height)
  | .bcBlockResponse time peerID size block =>
      .ok (sc.handleBlockResponse time peerID size block)
  | .bcNoBlockResponse _ peerID height => .ok (sc.handleNoBlockResponse peerID height)
  | .rTrySchedule time => .ok (sc.handleTrySchedule now time)
  | .bcAddNewPeer peerID => .ok (sc.handleAddNewPeer peerID)
  | .bcRemovePeer peerID => .ok (sc.handleRemovePeer peerID)
  | .rTryPrunePeer time => .ok (sc.handleTryPrunePeer now time)
  | .pcBlockProcessed height _ => sc.handleBlockProcessed now height
  | .pcBlockVerificationFailure _ firstPeerID secondPeerID =>
      .ok (sc.handleBlockProcessError firstPeerID secondPeerID)
  | _ => .ok (sc, .scSchedulerFail .unknownEvent)

/--
One turn of the loop of Routine.start on the scheduler: the event is handled
at a clock reading and the event it emits is sent out, after those before.
A panic ends the routine.
-/
def routineStep (state : Scheduler × List Event) (input : Time × Event) :
    Except String (Scheduler × List Event) :=
  (state.1.handle input.1 input.2).map fun (sc, emitted) => (sc, state.2 ++ [emitted])

end Scheduler

end Blockchain

end Kardia
