import Kardia.Scheduler

namespace Kardia

namespace Blockchain

/-!
# The fast-sync processor

The model of blockchain/processor.go: the queue of the blocks the processor
waits to execute, keyed by height with the peer each came from, and
pcState.handle.  The processor executes the block after its state's last
block once the block after that has arrived, whose last commit must confirm
the first; when it does not, the blocks of both peers are purged.

The processor reaches the chain through its processorContext.  The model
keeps the context's state in pcState and takes the other methods as
parameters; newProcessorContext builds them from VerifyCommit and ApplyBlock.
saveBlock writes the block store, which nothing of the fast sync reads.
-/

/-- queueItem: a block and the peer that sent it. -/
structure QueueItem where
  block : Block
  peerID : PeerID
  deriving DecidableEq, Repr

/--
The methods of processorContext besides its state, each returning the panic
of the code it calls: the BlockID the processor computes from a block's hash
and its part set, VerifyCommit and ApplyBlock.
-/
structure ProcessorContext where
  blockID : Block → BlockID
  verifyCommit : LatestBlockState → String → BlockID → Nat → Option Commit →
    Except String (Option VerifyCommitError)
  applyBlock : LatestBlockState → BlockID → Block → Except String (LatestBlockState × Option String)

/-- newProcessorContext: the validators' VerifyCommit and the executor's ApplyBlock. -/
def newProcessorContext
    (scheme : SignatureScheme)
    (blockExec : BlockExecutor)
    (blockID : Block → BlockID) :
    ProcessorContext where
  blockID := blockID
  verifyCommit state := ValidatorSet.verifyCommit scheme state.validators
  applyBlock state blockID block :=
    (blockExec.applyBlock scheme state blockID block).map fun (newState, _, err) => (newState, err)

/-- pcState, with the state its context holds. -/
structure PcState where
  queue : Std.TreeMap Nat QueueItem
  draining : Bool
  blocksSynced : Int
  kaiState : LatestBlockState

/--
The panics of the processor, with the values their messages format:
"duplicate block %d (%X) enqueued by processor (sent by %v; existing block %X
from %v)", "failed to process committed block (%d:%X): %v", and a panic of
the code the context calls.
-/
inductive ProcessorPanic where
  | duplicateBlock (height : Nat) (block : Block) (peerID : PeerID) (existing : QueueItem)
  | failedToProcess (height : Nat) (block : Block) (reason : String)
  | context (message : String)
  deriving DecidableEq, Repr

/-- newPcState. -/
def newPcState (kaiState : LatestBlockState) : PcState :=
  ⟨∅, false, 0, kaiState⟩

namespace PcState

/-- height: the last block height of the context's state. -/
def height (state : PcState) : Nat :=
  state.kaiState.lastBlockHeight

/-- nextTwo: the blocks at the two heights after the state's, when both are queued. -/
def nextTwo (state : PcState) : Option (QueueItem × QueueItem) :=
  match state.queue[state.height + 1]?, state.queue[state.height + 2]? with
  | some first, some second => some (first, second)
  | _, _ => none

/-- synced: at most one block is queued. -/
def synced (state : PcState) : Bool :=
  state.queue.size ≤ 1

/-- enqueue: a panic when the queue holds a block at the height. -/
def enqueue (state : PcState) (peerID : PeerID) (block : Block) (height : Nat) :
    Except ProcessorPanic PcState :=
  match state.queue[height]? with
  | some item => .error (.duplicateBlock height block peerID item)
  | none => .ok { state with queue := state.queue.insert height ⟨block, peerID⟩ }

/-- purgePeer: every block from the peer leaves the queue. -/
def purgePeer (state : PcState) (peerID : PeerID) : PcState :=
  { state with queue := state.queue.filter fun _ item => item.peerID ≠ peerID }

/--
The rProcessBlock branch of handle: the first of the next two blocks is
applied when the second's last commit confirms it, else both peers are purged.
-/
def processBlock (context : ProcessorContext) (state : PcState) :
    Except ProcessorPanic (PcState × Event) :=
  let kaiState := state.kaiState
  match state.nextTwo with
  | none =>
      if state.draining then
        .ok (state, .pcFinished state.blocksSynced kaiState)
      else
        .ok (state, .noOp)
  | some (firstItem, secondItem) =>
      let first := firstItem.block
      let second := secondItem.block
      let firstID := context.blockID first
      match context.verifyCommit kaiState kaiState.chainID firstID first.header.height
          second.lastCommit with
      | .error message => .error (.context message)
      | .ok (some _) =>
          let state := state.purgePeer firstItem.peerID
          let state :=
            if firstItem.peerID ≠ secondItem.peerID then state.purgePeer secondItem.peerID
            else state
          .ok (state, .pcBlockVerificationFailure (UInt64.ofNat first.header.height)
            firstItem.peerID secondItem.peerID)
      | .ok none =>
          match context.applyBlock kaiState firstID first with
          | .error message => .error (.context message)
          | .ok (_, some reason) => .error (.failedToProcess first.header.height first reason)
          | .ok (kaiState, none) =>
              .ok ({ state with
                      kaiState := kaiState
                      queue := state.queue.erase first.header.height
                      blocksSynced := state.blocksSynced + 1 },
                .pcBlockProcessed (UInt64.ofNat first.header.height) firstItem.peerID)

/--
pcState.handle: the next state and the event emitted, or the processor's
panic.  A received block is never nil in the model.
-/
def handle (context : ProcessorContext) (state : PcState) :
    Event → Except ProcessorPanic (PcState × Event)
  | .bcResetState kaiState => .ok ({ state with kaiState := kaiState }, .noOp)
  | .scFinishedEv _ =>
      if state.synced then
        .ok (state, .pcFinished state.blocksSynced state.kaiState)
      else
        .ok ({ state with draining := true }, .noOp)
  | .scPeerError peerID _ => .ok (state.purgePeer peerID, .noOp)
  | .scBlockReceived peerID block =>
      if block.header.height > state.height then
        (state.enqueue peerID block block.header.height).map fun state => (state, .noOp)
      else
        .ok (state, .noOp)
  | .rProcessBlock => state.processBlock context
  | _ => .ok (state, .noOp)

/-! ## The queue through one event -/

variable {context : ProcessorContext} {state next : PcState}

/-- purgePeer keeps exactly the queued blocks of other peers. -/
theorem purgePeer_queue (peerID : PeerID) (height : Nat) :
    (state.purgePeer peerID).queue[height]? =
      (state.queue[height]?).filter fun item => item.peerID ≠ peerID := by
  unfold purgePeer
  rw [Std.TreeMap.getElem?_filter']

/-- enqueue panics exactly when the queue holds a block at the height. -/
theorem enqueue_panics_iff {peerID : PeerID} {block : Block} {height : Nat} :
    (∃ panic, state.enqueue peerID block height = .error panic) ↔ height ∈ state.queue := by
  unfold enqueue
  rw [← Std.TreeMap.isSome_getElem?_iff_mem]
  cases state.queue[height]? with
  | none => simp
  | some item => simp

/--
A received block makes the processor panic exactly when it is above the
processor's height and the queue holds a block at its height.
-/
theorem handle_scBlockReceived_panics_iff {peerID : PeerID} {block : Block} :
    (∃ panic, state.handle context (.scBlockReceived peerID block) = .error panic) ↔
      state.height < block.header.height ∧ block.header.height ∈ state.queue := by
  simp only [handle]
  by_cases above : block.header.height > state.height
  · rw [if_pos above, ← enqueue_panics_iff]
    cases state.enqueue peerID block block.header.height with
    | ok queued => simp [Except.map]
    | error panic => simp [Except.map, above]
  · rw [if_neg above]
    simp only [reduceCtorEq, exists_false, false_iff, not_and]
    exact fun below => absurd below above

/--
A queued block stays queued through every event the processor handles but a
purge of its peer and rProcessBlock.
-/
theorem handle_keeps_queued
    {event emitted : Event}
    {height : Nat}
    {item : QueueItem}
    (queued : state.queue[height]? = some item)
    (notPurged : ∀ reason, event ≠ .scPeerError item.peerID reason)
    (notProcessed : event ≠ .rProcessBlock)
    (handled : state.handle context event = .ok (next, emitted)) :
    next.queue[height]? = some item := by
  cases event
  case scPeerError peerID reason =>
    cases handled
    have other : item.peerID ≠ peerID := fun same => notPurged reason (by rw [same])
    rw [purgePeer_queue, queued]
    simp [other]
  case scBlockReceived peerID block =>
    simp only [handle] at handled
    split_ifs at handled
    · -- the block is enqueued at another height: the queue holds this one
      unfold enqueue at handled
      split at handled
      · cases handled
      · rename_i free
        cases handled
        have otherHeight : block.header.height ≠ height := by
          intro same
          rw [same, queued] at free
          cases free
        rw [Std.TreeMap.getElem?_insert, if_neg (by simpa [compare_eq_iff_eq] using otherHeight)]
        exact queued
    · cases handled
      exact queued
  case rProcessBlock => exact absurd rfl notProcessed
  case scFinishedEv reason =>
    simp only [handle] at handled
    split_ifs at handled <;> cases handled <;> exact queued
  case bcResetState kaiState =>
    cases handled
    exact queued
  all_goals
    cases handled
    exact queued

end PcState

end Blockchain

end Kardia
