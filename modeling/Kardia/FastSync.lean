import Kardia.Processor
import Kardia.SchedulerInvariant

namespace Kardia

namespace Blockchain

/-!
# The fast sync: scheduler, processor and the demux between them

The model of the event loop of blockchain/reactor.go.  The scheduler and the
processor each run as a routine with a queue of events to handle and a
channel of the events it emitted; the demux sends the events of peers and
tickers to the routines and passes what one routine emitted to the other.
Every queue and channel is a list in the order of sending, and each action
of the system moves one event: a send, a routine handling the first event of
its queue, or the demux reading the first event of a channel.  Any
interleaving of the actions is a run.

The demux forwards a received block and a peer error to the processor, and
turns the peers of scPeersPruned into one peer error each, so that the
processor purges their blocks.  handleTryPrunePeer first removes the peer
that has not delivered the block at the scheduler's height in time, and that
peer is in no scPeersPruned: the scheduler schedules the blocks it received
from that peer again, while the processor keeps them queued, and enqueues the
second copy with a panic.
-/

/--
The fast sync: the two routines' states, their queues and output channels,
whether the scheduler was stopped and whether the demux has ended.
-/
structure FastSync where
  scheduler : Scheduler
  processor : PcState
  schedulerQueue : List Event
  schedulerOut : List Event
  processorQueue : List Event
  processorOut : List Event
  schedulerStopped : Bool
  ended : Bool

/--
What happens next: an event of a peer reaches the demux, a ticker fires, a
routine handles the first event of its queue at a reading of the clock, or
the demux reads the first event a routine emitted.
-/
inductive Action where
  | peerEvent (event : Event)
  | trySchedule (time : Time)
  | tryPrunePeer (time : Time)
  | processBlock
  | schedulerHandles (now : Time)
  | processorHandles
  | readScheduler
  | readProcessor
  deriving DecidableEq, Repr

/-- A panic of either routine, which ends the node. -/
inductive FastSyncPanic where
  | scheduler (message : String)
  | processor (panic : ProcessorPanic)
  deriving DecidableEq, Repr

/-! ## The peer that timed out -/

namespace Scheduler

variable {sc : Scheduler}

/-- prunablePeers lists only ready peers. -/
theorem ready_of_mem_prunablePeers
    {peerTimeout minRecvRate : Int}
    {now : Time}
    {peerID : PeerID}
    (member : peerID ∈ sc.prunablePeers peerTimeout minRecvRate now) :
    ∃ peer, sc.peers[peerID]? = some peer ∧ peer.state = .ready := by
  unfold prunablePeers at member
  rw [(List.perm_insertionSort _ _).mem_iff, Std.TreeMap.foldl_eq_foldl_toList] at member
  -- every peer the loop appends is an entry of the map in state Ready
  refine Runs.invariant_of_foldl
    (fun prunable => ∀ listed ∈ prunable, ∃ peer, sc.peers[listed]? = some peer ∧ peer.state = .ready)
    (fun prunable entry entryMember allReady => ?_) (by simp) peerID member
  split_ifs with notReady
  · exact allReady
  · intro listed listedMember
    rcases List.mem_append.mp listedMember with before | appended
    · exact allReady listed before
    · rw [List.mem_singleton.mp appended]
      exact ⟨entry.2, Std.TreeMap.mem_toList_iff_getElem?_eq_some.mp entryMember, not_not.mp notReady⟩
  · exact allReady

/-- After removePeer the peer is not ready, whether it was known, removed or active. -/
theorem removePeer_not_ready
    {peerID : PeerID}
    {peer : ScPeer}
    (found : (sc.removePeer peerID).peers[peerID]? = some peer) :
    peer.state ≠ .ready := by
  cases known : sc.peers[peerID]? with
  | none =>
      rw [show sc.removePeer peerID = sc by simp [removePeer, known], known] at found
      cases found
  | some before =>
      by_cases removed : before.state = .removed
      · rw [show sc.removePeer peerID = sc by simp [removePeer, known, removed], known] at found
        cases found
        simp [removed]
      · rw [removePeer_peers known removed, Std.TreeMap.getElem?_insert_self] at found
        cases found
        simp

/--
When the block at the scheduler's height timed out, handleTryPrunePeer
removes the peer it is pending from, and no scPeersPruned it emits names
that peer.
-/
theorem handleTryPrunePeer_unreported
    {now time asked : Time}
    {pruned : List PeerID}
    (askedAt : sc.pendingTime[sc.height]? = some asked)
    (late : now.nanos - asked.nanos > sc.peerTimeout)
    (reported : (sc.handleTryPrunePeer now time).2 = .scPeersPruned pruned) :
    sc.pendingBlocks.getD sc.height "" ∉ pruned := by
  unfold handleTryPrunePeer at reported
  simp only [askedAt, if_pos late] at reported
  split_ifs at reported
  cases reported
  intro member
  obtain ⟨peer, found, ready⟩ := ready_of_mem_prunablePeers member
  exact removePeer_not_ready found ready

end Scheduler

namespace FastSync

/--
newReactor and startSync without a state: a scheduler from the height after
the state's last block, or its initial height, and a processor on the state.
-/
def newFastSync (state : LatestBlockState) (startTime : Time) (fastSync : FastSyncConfig) :
    FastSync :=
  let initHeight := state.lastBlockHeight + 1
  let initHeight := if initHeight = 1 then state.initialHeight else initHeight
  { scheduler := newScheduler (UInt64.ofNat initHeight) startTime fastSync
    processor := newPcState state
    schedulerQueue := []
    schedulerOut := []
    processorQueue := []
    processorOut := []
    schedulerStopped := false
    ended := false }

/-- Routine.send to the scheduler, which drops the event once the scheduler is stopped. -/
def sendScheduler (fs : FastSync) (event : Event) : FastSync :=
  if fs.schedulerStopped then fs else { fs with schedulerQueue := fs.schedulerQueue ++ [event] }

/-- Routine.send to the processor. -/
def sendProcessor (fs : FastSync) (event : Event) : FastSync :=
  { fs with processorQueue := fs.processorQueue ++ [event] }

/-- The demux's case for an event of a peer: the five kinds the scheduler handles go to it. -/
def receivePeerEvent (fs : FastSync) (event : Event) : FastSync :=
  match event with
  | .bcStatusResponse .. | .bcAddNewPeer _ | .bcRemovePeer _ | .bcBlockResponse ..
  | .bcNoBlockResponse .. => fs.sendScheduler event
  | _ => fs

/--
The demux's case for an event the scheduler emitted: the events it sends the
processor, and whether it stops the scheduler.  Block requests go to peers,
and failures and other events are only logged.
-/
def routeSchedulerEvent : Event → List Event × Bool
  | .scBlockReceived peerID block => ([.scBlockReceived peerID block], false)
  | .scPeerError peerID reason => ([.scPeerError peerID reason], false)
  | .scFinishedEv reason => ([.scFinishedEv reason], true)
  | .scPeersPruned peers => (peers.map fun peerID => .scPeerError peerID .peerPruned, false)
  | _ => ([], false)

/-- Routine.stop on the scheduler: its queue is disposed of and later sends are dropped. -/
def stopScheduler (fs : FastSync) : FastSync :=
  { fs with schedulerQueue := [], schedulerStopped := true }

/-- The demux reads an event the scheduler emitted. -/
def readSchedulerEvent (fs : FastSync) (event : Event) : FastSync :=
  let (sent, stop) := routeSchedulerEvent event
  let fs := sent.foldl sendProcessor fs
  if stop then fs.stopScheduler else fs

/--
The demux reads an event the processor emitted: a processed block and a
failed verification go to the scheduler, and pcFinished ends the sync.
-/
def readProcessorEvent (fs : FastSync) (event : Event) : FastSync :=
  match event with
  | .pcBlockProcessed .. | .pcBlockVerificationFailure .. => fs.sendScheduler event
  | .pcFinished .. => { fs with ended := true }
  | _ => fs

/-- One action of the fast sync, or the panic of a routine; after the end nothing happens. -/
def step (context : ProcessorContext) (fs : FastSync) (action : Action) :
    Except FastSyncPanic FastSync :=
  if fs.ended then
    .ok fs
  else
    match action with
    | .peerEvent event => .ok (fs.receivePeerEvent event)
    | .trySchedule time => .ok (fs.sendScheduler (.rTrySchedule time))
    | .tryPrunePeer time => .ok (fs.sendScheduler (.rTryPrunePeer time))
    | .processBlock => .ok (fs.sendProcessor .rProcessBlock)
    | .schedulerHandles now =>
        match fs.schedulerQueue with
        | [] => .ok fs
        | event :: rest =>
            match fs.scheduler.handle now event with
            | .error message => .error (.scheduler message)
            | .ok (sc, emitted) =>
                .ok { fs with
                  scheduler := sc
                  schedulerQueue := rest
                  schedulerOut := fs.schedulerOut ++ [emitted] }
    | .processorHandles =>
        match fs.processorQueue with
        | [] => .ok fs
        | event :: rest =>
            match fs.processor.handle context event with
            | .error panic => .error (.processor panic)
            | .ok (processor, emitted) =>
                .ok { fs with
                  processor := processor
                  processorQueue := rest
                  processorOut := fs.processorOut ++ [emitted] }
    | .readScheduler =>
        match fs.schedulerOut with
        | [] => .ok fs
        | event :: rest => .ok ({ fs with schedulerOut := rest }.readSchedulerEvent event)
    | .readProcessor =>
        match fs.processorOut with
        | [] => .ok fs
        | event :: rest => .ok ({ fs with processorOut := rest }.readProcessorEvent event)

/-! ## The context of the processor -/

section Context

variable {context other : ProcessorContext}

/-- The processor's context is read only for rProcessBlock. -/
theorem PcState.handle_context_irrelevant
    (state : PcState)
    {event : Event}
    (notProcess : event ≠ .rProcessBlock) :
    state.handle context event = state.handle other event := by
  cases event
  case rProcessBlock => exact absurd rfl notProcess
  all_goals rfl

/-- The demux sends the processor no rProcessBlock of the scheduler's. -/
theorem rProcessBlock_not_routed (event : Event) :
    Event.rProcessBlock ∉ (routeSchedulerEvent event).1 := by
  cases event
  case scPeersPruned peers => simp [routeSchedulerEvent]
  all_goals simp [routeSchedulerEvent]

theorem foldl_sendProcessor_processorQueue (sent : List Event) (fs : FastSync) :
    (sent.foldl sendProcessor fs).processorQueue = fs.processorQueue ++ sent := by
  induction sent generalizing fs with
  | nil => simp
  | cons event rest inductionHypothesis =>
      rw [List.foldl_cons, inductionHypothesis]
      simp [sendProcessor]

theorem readSchedulerEvent_processorQueue (fs : FastSync) (event : Event) :
    (fs.readSchedulerEvent event).processorQueue =
      fs.processorQueue ++ (routeSchedulerEvent event).1 := by
  unfold readSchedulerEvent
  generalize routeSchedulerEvent event = routed
  obtain ⟨sent, stop⟩ := routed
  dsimp only
  split_ifs <;> simp [stopScheduler, foldl_sendProcessor_processorQueue]

theorem sendScheduler_processorQueue (fs : FastSync) (event : Event) :
    (fs.sendScheduler event).processorQueue = fs.processorQueue := by
  unfold sendScheduler
  split_ifs <;> rfl

theorem receivePeerEvent_processorQueue (fs : FastSync) (event : Event) :
    (fs.receivePeerEvent event).processorQueue = fs.processorQueue := by
  unfold receivePeerEvent
  split <;> simp only [sendScheduler_processorQueue]

theorem readProcessorEvent_processorQueue (fs : FastSync) (event : Event) :
    (fs.readProcessorEvent event).processorQueue = fs.processorQueue := by
  unfold readProcessorEvent
  split <;> simp only [sendScheduler_processorQueue]

/-- While no rProcessBlock waits for the processor, a step does not read the context. -/
theorem step_context_irrelevant
    {fs : FastSync}
    (awaits : Event.rProcessBlock ∉ fs.processorQueue)
    (action : Action) :
    step context fs action = step other fs action := by
  unfold step
  split_ifs
  · rfl
  cases action
  case processorHandles =>
    dsimp only
    split
    · rfl
    · rename_i event rest queued
      have notProcess : event ≠ .rProcessBlock := by
        rintro rfl
        exact awaits (by simp [queued])
      rw [PcState.handle_context_irrelevant fs.processor notProcess]
  all_goals rfl

/-- Without an rProcessBlock tick, no rProcessBlock ever waits for the processor. -/
theorem step_awaits
    {fs next : FastSync}
    {action : Action}
    (noTick : action ≠ .processBlock)
    (awaits : Event.rProcessBlock ∉ fs.processorQueue)
    (stepped : step context fs action = .ok next) :
    Event.rProcessBlock ∉ next.processorQueue := by
  unfold step at stepped
  split_ifs at stepped
  · cases stepped
    exact awaits
  cases action
  case processBlock => exact absurd rfl noTick
  case peerEvent event =>
    cases stepped
    rwa [receivePeerEvent_processorQueue]
  case trySchedule time =>
    cases stepped
    rwa [sendScheduler_processorQueue]
  case tryPrunePeer time =>
    cases stepped
    rwa [sendScheduler_processorQueue]
  case schedulerHandles now =>
    dsimp only at stepped
    split at stepped
    · cases stepped
      exact awaits
    · split at stepped
      · cases stepped
      · cases stepped
        exact awaits
  case processorHandles =>
    dsimp only at stepped
    split at stepped
    · cases stepped
      exact awaits
    · rename_i event rest queued
      split at stepped
      · cases stepped
      · cases stepped
        exact fun waiting => awaits (by simp [queued, waiting])
  case readScheduler =>
    dsimp only at stepped
    split at stepped <;> cases stepped
    · exact awaits
    · rw [readSchedulerEvent_processorQueue, List.mem_append, not_or]
      exact ⟨awaits, rProcessBlock_not_routed _⟩
  case readProcessor =>
    dsimp only at stepped
    split at stepped <;> cases stepped
    · exact awaits
    · rwa [readProcessorEvent_processorQueue]

/--
A run without rProcessBlock ticks, from a state where no rProcessBlock waits
for the processor, is the same run whatever the processor's context.
-/
theorem run_context_irrelevant
    {inputs : List Action}
    (noTicks : Action.processBlock ∉ inputs)
    {start : FastSync}
    (awaits : Event.rProcessBlock ∉ start.processorQueue) :
    Runs.run (step context) start inputs = Runs.run (step other) start inputs := by
  induction inputs generalizing start with
  | nil => rfl
  | cons action rest inductionHypothesis =>
      rw [Runs.run_cons, Runs.run_cons, step_context_irrelevant awaits action]
      cases stepped : step other start action with
      | error panic => rfl
      | ok next =>
          have noTick : action ≠ .processBlock := fun same => noTicks (by simp [same])
          exact inductionHypothesis (fun member => noTicks (List.mem_cons_of_mem action member))
            (step_awaits noTick awaits stepped)

end Context

/-! ## A timed-out peer's block enqueued twice -/

namespace TimedOutPeer

/-- A block at height 2. -/
def block : Block :=
  { GenesisBlock.block with header := { GenesisBlock.block.header with height := 2 } }

/-- A context that confirms every commit and applies every block leaving the state. -/
def context : ProcessorContext :=
  ⟨fun _ => BlockID.zero, fun _ _ _ _ _ => .ok none, fun state _ _ => .ok (state, none)⟩

/--
Peer p serves heights 1 and 2, is asked for both and delivers block 2; peer
q reports the same range; at 20 s the request for height 1 has timed out and
handleTryPrunePeer removes p; the scheduler asks q for heights 1 and 2, and
q delivers block 2.  Every emitted event is read by the demux in turn.
-/
def inputs : List Action :=
  [.peerEvent (.bcStatusResponse ⟨0⟩ "p" 1 2), .schedulerHandles ⟨0⟩, .readScheduler,
    .trySchedule ⟨1⟩, .schedulerHandles ⟨1⟩, .readScheduler,
    .trySchedule ⟨1⟩, .schedulerHandles ⟨1⟩, .readScheduler,
    .peerEvent (.bcBlockResponse ⟨2⟩ "p" 10 block), .schedulerHandles ⟨2⟩, .readScheduler,
    .processorHandles, .readProcessor,
    .peerEvent (.bcStatusResponse ⟨3⟩ "q" 1 2), .schedulerHandles ⟨3⟩, .readScheduler,
    .tryPrunePeer ⟨20000000000⟩, .schedulerHandles ⟨20000000000⟩, .readScheduler,
    .trySchedule ⟨20000000001⟩, .schedulerHandles ⟨20000000001⟩, .readScheduler,
    .trySchedule ⟨20000000002⟩, .schedulerHandles ⟨20000000002⟩, .readScheduler,
    .peerEvent (.bcBlockResponse ⟨20000000003⟩ "q" 10 block), .schedulerHandles ⟨20000000003⟩,
    .readScheduler]

end TimedOutPeer

open TimedOutPeer in
/--
With any processor context, the run reaches a state where q's block 2, which
the scheduler reported received, waits for the processor while the processor
still holds p's block 2; the processor's next step panics.
-/
theorem timed_out_peer_block_enqueued_twice (context : ProcessorContext) :
    ∃ beforeLast,
      Runs.run (step context) (newFastSync GenesisBlock.state ⟨0⟩ Scheduler.syncConfig) inputs =
          .ok beforeLast ∧
        beforeLast.processorQueue = [.scBlockReceived "q" block] ∧
        beforeLast.processor.queue[2]? = some ⟨block, "p"⟩ ∧
        step context beforeLast .processorHandles =
          .error (.processor (.duplicateBlock 2 block "q" ⟨block, "p"⟩)) := by
  rw [@run_context_irrelevant context TimedOutPeer.context inputs (by decide) _ (by simp [newFastSync])]
  -- the run evaluated by the kernel, since TreeMap.filter does not reduce in the elaborator
  have evaluated :
      (match Runs.run (step TimedOutPeer.context)
          (newFastSync GenesisBlock.state ⟨0⟩ Scheduler.syncConfig) inputs with
        | .ok fs =>
            fs.processorQueue == [.scBlockReceived "q" block] &&
              fs.processor.queue[2]? == some ⟨block, "p"⟩ &&
              fs.processor.height == 0 && !fs.ended
        | .error _ => false) = true := by
    decide +kernel
  split at evaluated
  · rename_i fs ran
    simp only [Bool.and_eq_true, beq_iff_eq, Bool.not_eq_eq_eq_not, Bool.not_true] at evaluated
    obtain ⟨⟨⟨queued, held⟩, atGenesis⟩, running⟩ := evaluated
    refine ⟨fs, ran, queued, held, ?_⟩
    have atTwo : block.header.height = 2 := rfl
    have above : fs.processor.height < 2 := by
      rw [atGenesis]
      decide
    simp only [step, running, Bool.false_eq_true, if_false, queued, PcState.handle, atTwo,
      gt_iff_lt, above, if_true, PcState.enqueue, held]
    rfl
  · cases evaluated

end FastSync

end Blockchain

end Kardia
