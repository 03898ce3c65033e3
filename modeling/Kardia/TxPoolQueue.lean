import Mathlib

/-!
# Truncating the transaction pool's queue

When more transactions are queued than GlobalQueue allows, truncateQueue sorts
the non-local accounts with queued transactions by heartbeat and drops
transactions account by account, taking accounts from the end of the sorted
list: whole accounts while the overflow covers them, then the highest nonces of
the next.  The sort is ascending, so the accounts it empties first are those
with the newest heartbeat, not the oldest.
-/

namespace Kardia.TxPool

/-- addressByHeartbeat, with the heartbeat as a time stamp. -/
structure AddressByHeartbeat (Address : Type) where
  address : Address
  heartbeat : Nat
  deriving DecidableEq, Repr

/-- pool.queue: the queued transactions of each account, lowest nonce first. -/
abbrev Queue (Address Tx : Type) := List (Address × List Tx)

section Truncate

variable {Address Tx : Type} [DecidableEq Address]

def queuedCount (queue : Queue Address Tx) : Nat :=
  (queue.map fun entry => entry.2.length).sum

/--
sort.Sort on addressesByHeartbeat, whose Less is heartbeat.Before: ascending.
sort.Sort may order equal heartbeats either way; the model keeps their order.
-/
def sortByHeartbeat (addresses : List (AddressByHeartbeat Address)) :
    List (AddressByHeartbeat Address) :=
  addresses.insertionSort fun a b => a.heartbeat ≤ b.heartbeat

/-- removeTx of every queued transaction of an account: its queue entry goes. -/
def dropAccount (addr : Address) (queue : Queue Address Tx) : Queue Address Tx :=
  queue.filter fun entry => entry.1 ≠ addr

/-- removeTx of the last count transactions of an account's flattened list. -/
def dropLast (addr : Address) (count : Nat) (queue : Queue Address Tx) : Queue Address Tx :=
  queue.map fun entry => if entry.1 = addr then (entry.1, entry.2.take (entry.2.length - count)) else entry

/--
The drop loop of truncateQueue over the sorted accounts read from the end, so
that each step takes addresses[len(addresses)-1].
-/
def dropLoop : Nat → List (AddressByHeartbeat Address) → Queue Address Tx → Queue Address Tx
  | 0, _, queue => queue
  | _, [], queue => queue
  | drop + 1, addr :: addresses, queue =>
    let list := (queue.lookup addr.address).getD []
    if list.length ≤ drop + 1 then
      dropLoop (drop + 1 - list.length) addresses (dropAccount addr.address queue)
    else dropLast addr.address (drop + 1) queue

/-- TxPool.truncateQueue, with the local accounts and the heartbeats of the pool. -/
def truncateQueue (globalQueue : Nat) (isLocal : Address → Bool) (beats : Address → Nat)
    (queue : Queue Address Tx) : Queue Address Tx :=
  let queued := queuedCount queue
  if queued ≤ globalQueue then queue
  else
    let addresses := sortByHeartbeat
      ((queue.filter fun entry => !isLocal entry.1).map fun entry => ⟨entry.1, beats entry.1⟩)
    dropLoop (queued - globalQueue) addresses.reverse queue

end Truncate

/--
Two remote accounts with one queued transaction each and room for one: account
0, whose heartbeat is older, keeps its transaction, and account 1, whose
heartbeat is newer, loses it.
-/
theorem truncateQueue_drops_newest_heartbeat :
    truncateQueue 1 (fun _ => false) (fun addr : Nat => addr + 1) [(0, [0]), (1, [0])] = [(0, [0])] ∧
      (fun addr : Nat => addr + 1) 0 < (fun addr : Nat => addr + 1) 1 := by
  decide

end Kardia.TxPool
