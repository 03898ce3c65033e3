import Kardia.Types
import Kardia.Runs
import Kardia.SortSearch

namespace Kardia

namespace State

/-!
# The state database and its journal

StateDB of `kai/state`: the cache of state objects over the committed state,
the per-transaction refund, logs, preimages and transient storage, and the
journal that RevertToSnapshot replays backwards.  Every modification the
journal covers appends one entry with what it overwrote; Snapshot records the
journal's length under a fresh revision id, and RevertToSnapshot finds the
revision with sort.Search, undoes the entries after it from the last to the
first, and drops the revision and every later one.

Go maps are functions with Function.update; a byte slice is a list of bytes
and a nil slice the empty list.  A state object is a value: Go mutates it
through a pointer that the cache holds, and the model writes the changed
object back into the cache.  The committed state behind the cache (the
account trie, the snapshot tree and the code store) is one read-only
Database.  The access list, the dirty-address counts of the journal,
stateObjectsDirty and the snapshot caches snapAccounts and snapStorage are
read by Finalise and Commit only and are left out, with the two journal
entries of the access list.
-/

/-- types.EmptyCodeHash, the Keccak-256 hash of no bytes. -/
def emptyCodeHash : Hash :=
  ⟨0xc5d2460186f7233c927e7db2dcc703c0e500b653ca82273b7bfad8045d85a470⟩

/-- types.EmptyRootHash, the root of the empty trie. -/
def emptyRootHash : Hash :=
  ⟨0x56e81f171bcc55a6ff8345e692c0f86e5b48e01b996cadc001622fb5e363b421⟩

/-- types.StateAccount: the consensus fields of an account. -/
structure StateAccount where
  nonce : UInt64
  balance : Int
  root : Hash
  codeHash : Hash
  deriving DecidableEq, Repr

/--
The committed state a StateDB reads through: the account at an address (the
snapshot tree or the account trie), the slots of a storage trie by its root,
and contract code by its hash.  The empty trie holds no slot.
-/
structure Database where
  account : Address → Option StateAccount
  storage : Hash → Hash → Hash
  contractCode : Hash → List UInt8
  storage_emptyRoot : ∀ key, storage emptyRootHash key = Hash.zero

/-- The committed state of the empty root: no accounts. -/
def Database.empty : Database where
  account := fun _ => none
  storage := fun _ _ => Hash.zero
  contractCode := fun _ => []
  storage_emptyRoot := fun _ => rfl

/-- types.Log, with the fields AddLog sets. -/
structure Log where
  address : Address
  topics : List Hash
  data : List UInt8
  txHash : Hash
  txIndex : Nat
  index : UInt64
  deriving DecidableEq, Repr

/-- stateObject: an account being modified, with its storage and code caches. -/
structure StateObject where
  address : Address
  data : StateAccount
  code : Option (List UInt8)
  originStorage : Hash → Option Hash
  pendingStorage : Hash → Option Hash
  dirtyStorage : Hash → Option Hash
  dirtyCode : Bool
  suicided : Bool
  deleted : Bool

namespace StateObject

/-- newObject: a fresh object over the account's data, the zero root read as the empty trie. -/
def newObject (address : Address) (data : StateAccount) : StateObject where
  address := address
  data := { data with root := if data.root = Hash.zero then emptyRootHash else data.root }
  code := none
  originStorage := fun _ => none
  pendingStorage := fun _ => none
  dirtyStorage := fun _ => none
  dirtyCode := false
  suicided := false
  deleted := false

/-- empty: EIP-161 emptiness, no nonce, no balance and no code. -/
def empty (obj : StateObject) : Bool :=
  obj.data.nonce == 0 && obj.data.balance == 0 && obj.data.codeHash == emptyCodeHash

/--
GetCommittedState: the pending write, the cached original, zero for an
object destructed in this block, or the slot of the storage trie, which is
cached as the original.
-/
def getCommittedState (db : Database) (destructed : Bool) (obj : StateObject) (key : Hash) :
    Hash × StateObject :=
  match obj.pendingStorage key with
  | some value => (value, obj)
  | none =>
      match obj.originStorage key with
      | some value => (value, obj)
      | none =>
          if destructed then
            (Hash.zero, obj)
          else
            let value := db.storage obj.data.root key
            (value, { obj with originStorage := Function.update obj.originStorage key (some value) })

/-- GetState: the value written in this transaction, or the committed one. -/
def getState (db : Database) (destructed : Bool) (obj : StateObject) (key : Hash) :
    Hash × StateObject :=
  match obj.dirtyStorage key with
  | some value => (value, obj)
  | none => obj.getCommittedState db destructed key

/-- Code: the cached code, none for the empty code hash, or the code store's, then cached. -/
def Code (db : Database) (obj : StateObject) : List UInt8 × StateObject :=
  match obj.code with
  | some code => (code, obj)
  | none =>
      if obj.data.codeHash = emptyCodeHash then
        ([], obj)
      else
        let code := db.contractCode obj.data.codeHash
        (code, { obj with code := some code })

/-- setState: the unjournaled write of a slot. -/
def setState (obj : StateObject) (key value : Hash) : StateObject :=
  { obj with dirtyStorage := Function.update obj.dirtyStorage key (some value) }

/-- setBalance. -/
def setBalance (obj : StateObject) (amount : Int) : StateObject :=
  { obj with data := { obj.data with balance := amount } }

/-- setNonce. -/
def setNonce (obj : StateObject) (nonce : UInt64) : StateObject :=
  { obj with data := { obj.data with nonce := nonce } }

/-- setCode. -/
def setCode (obj : StateObject) (codeHash : Hash) (code : List UInt8) : StateObject :=
  { obj with code := some code, data := { obj.data with codeHash := codeHash }, dirtyCode := true }

/-- markSuicided. -/
def markSuicided (obj : StateObject) : StateObject :=
  { obj with suicided := true }

end StateObject

/-- The entries of the journal, each with what its modification overwrote. -/
inductive JournalEntry where
  | createObjectChange (account : Address)
  | resetObjectChange (account : Address) (prev : StateObject) (prevdestruct : Bool)
  | suicideChange (account : Address) (prev : Bool) (prevbalance : Int)
  | balanceChange (account : Address) (prev : Int)
  | nonceChange (account : Address) (prev : UInt64)
  | storageChange (account : Address) (key prevalue : Hash)
  | codeChange (account : Address) (prevcode : List UInt8) (prevhash : Hash)
  | refundChange (prev : UInt64)
  | addLogChange (txhash : Hash)
  | addPreimageChange (hash : Hash)
  | touchChange (account : Address)
  | transientStorageChange (account : Address) (key prevalue : Hash)

/-- revision: a snapshot id and the length of the journal when it was taken. -/
structure Revision where
  id : Int
  journalIndex : Nat
  deriving DecidableEq, Repr

/-- Revisions in the order Snapshot records them: ids increase, journal lengths do not decrease. -/
def Revision.Ordered (earlier later : Revision) : Prop :=
  earlier.id < later.id ∧ earlier.journalIndex ≤ later.journalIndex

/--
StateDB.  Its cache holds every object under the object's own address, and
its valid revisions are ordered, issued before the next id and within the
journal: every StateDB the package builds is so.
-/
structure StateDB where
  stateObjects : Address → Option StateObject
  stateObjectsDestruct : Address → Bool
  refund : UInt64
  thash : Hash
  txIndex : Nat
  logs : Hash → List Log
  logSize : UInt64
  preimages : Hash → Option (List UInt8)
  transientStorage : Address → Hash → Hash
  journal : List JournalEntry
  validRevisions : List Revision
  nextRevisionId : Int
  objects_keyed : ∀ addr obj, stateObjects addr = some obj → obj.address = addr
  revisions_ordered : validRevisions.Pairwise Revision.Ordered
  revisions_issued : ∀ revision ∈ validRevisions, revision.id < nextRevisionId
  revisions_within : ∀ revision ∈ validRevisions, revision.journalIndex ≤ journal.length

section Cache

variable {objects : Address → Option StateObject}

theorem keyed_update_some
    (keyed : ∀ addr obj, objects addr = some obj → obj.address = addr)
    (object : StateObject) :
    ∀ addr obj, Function.update objects object.address (some object) addr = some obj →
      obj.address = addr := by
  intro addr obj found
  by_cases same : addr = object.address
  · subst same
    simp only [Function.update_self, Option.some.injEq] at found
    rw [← found]
  · rw [Function.update_of_ne same] at found
    exact keyed addr obj found

theorem keyed_update_none
    (keyed : ∀ addr obj, objects addr = some obj → obj.address = addr)
    (account : Address) :
    ∀ addr obj, Function.update objects account none addr = some obj → obj.address = addr := by
  intro addr obj found
  by_cases same : addr = account
  · subst same
    simp at found
  · rw [Function.update_of_ne same] at found
    exact keyed addr obj found

end Cache

section Revisions

variable {revisions : List Revision}

/-- A revision recorded now comes after every valid one. -/
theorem ordered_append_snapshot
    {next : Int}
    {length : Nat}
    (ordered : revisions.Pairwise Revision.Ordered)
    (issued : ∀ revision ∈ revisions, revision.id < next)
    (within : ∀ revision ∈ revisions, revision.journalIndex ≤ length) :
    (revisions ++ [({ id := next, journalIndex := length } : Revision)]).Pairwise
      Revision.Ordered := by
  rw [List.pairwise_append]
  refine ⟨ordered, List.pairwise_singleton _ _, ?_⟩
  intro revision member later laterMember
  rw [List.mem_singleton] at laterMember
  subst laterMember
  exact ⟨issued revision member, within revision member⟩

/-- The revision Snapshot records is issued before the next id. -/
theorem issued_append_snapshot
    {next : Int}
    {length : Nat}
    (issued : ∀ revision ∈ revisions, revision.id < next) :
    ∀ revision ∈ revisions ++ [({ id := next, journalIndex := length } : Revision)],
      revision.id < next + 1 := by
  intro revision member
  rcases List.mem_append.mp member with earlier | now
  · exact lt_trans (issued revision earlier) (Int.lt_succ next)
  · rw [List.mem_singleton.mp now]
    exact Int.lt_succ next

/-- The revision Snapshot records lies within the journal. -/
theorem within_append_snapshot
    {next : Int}
    {length : Nat}
    (within : ∀ revision ∈ revisions, revision.journalIndex ≤ length) :
    ∀ revision ∈ revisions ++ [({ id := next, journalIndex := length } : Revision)],
      revision.journalIndex ≤ length := by
  intro revision member
  rcases List.mem_append.mp member with earlier | now
  · exact within revision earlier
  · rw [List.mem_singleton.mp now]

/-- The revisions before the one at an index lie within its journal length. -/
theorem journalIndex_le_of_mem_take
    (ordered : revisions.Pairwise Revision.Ordered)
    {index : Nat}
    {target : Revision}
    (found : revisions[index]? = some target)
    {revision : Revision}
    (member : revision ∈ revisions.take index) :
    revision.journalIndex ≤ target.journalIndex := by
  have split : revisions = revisions.take index ++ revisions.drop index :=
    (List.take_append_drop index revisions).symm
  have targetMember : target ∈ revisions.drop index := by
    rw [List.mem_iff_getElem?]
    exact ⟨0, by simpa using found⟩
  rw [split, List.pairwise_append] at ordered
  exact (ordered.2.2 revision member target targetMember).2

end Revisions

namespace StateDB

/-- New: a StateDB over the committed state, its caches, logs and journal empty. -/
def new : StateDB where
  stateObjects := fun _ => none
  stateObjectsDestruct := fun _ => false
  refund := 0
  thash := Hash.zero
  txIndex := 0
  logs := fun _ => []
  logSize := 0
  preimages := fun _ => none
  transientStorage := fun _ _ => Hash.zero
  journal := []
  validRevisions := []
  nextRevisionId := 0
  objects_keyed := fun _ _ absent => by cases absent
  revisions_ordered := List.Pairwise.nil
  revisions_issued := fun _ member => by cases member
  revisions_within := fun _ member => by cases member

/-- s.setStateObject(object): the object stored under its own address. -/
def setStateObject (s : StateDB) (object : StateObject) : StateDB :=
  { s with
    stateObjects := Function.update s.stateObjects object.address (some object)
    objects_keyed := keyed_update_some s.objects_keyed object }

/-- delete(s.stateObjects, addr). -/
def dropStateObject (s : StateDB) (addr : Address) : StateDB :=
  { s with
    stateObjects := Function.update s.stateObjects addr none
    objects_keyed := keyed_update_none s.objects_keyed addr }

/-- journal.append. -/
def journalAppend (s : StateDB) (entry : JournalEntry) : StateDB :=
  { s with
    journal := s.journal ++ [entry]
    revisions_within := fun revision member =>
      le_trans (s.revisions_within revision member) (by simp) }

/--
getDeletedStateObject: the cached object, even a deleted one, or the
account of the committed state, cached as a new object.
-/
def getDeletedStateObject (db : Database) (s : StateDB) (addr : Address) :
    Option StateObject × StateDB :=
  match s.stateObjects addr with
  | some obj => (some obj, s)
  | none =>
      match db.account addr with
      | none => (none, s)
      | some data =>
          let obj := StateObject.newObject addr data
          (some obj, s.setStateObject obj)

/-- getStateObject: the object at the address unless it is deleted. -/
def getStateObject (db : Database) (s : StateDB) (addr : Address) :
    Option StateObject × StateDB :=
  match s.getDeletedStateObject db addr with
  | (some obj, s) => if !obj.deleted then (some obj, s) else (none, s)
  | (none, s) => (none, s)

/--
createObject: a new object at the address.  Over no account it journals the
creation; over an existing or deleted one it marks the address destructed
and journals the object it replaces.  It returns the replaced object unless
that was deleted.
-/
def createObject (db : Database) (s : StateDB) (addr : Address) :
    StateObject × Option StateObject × StateDB :=
  let (prev, s) := s.getDeletedStateObject db addr
  -- the nil CodeHash of types.StateAccount{} becomes EmptyCodeHash in newObject
  let newobj := StateObject.newObject addr ⟨0, 0, Hash.zero, emptyCodeHash⟩
  let s :=
    match prev with
    | none => s.journalAppend (.createObjectChange addr)
    | some prev =>
        let prevdestruct := s.stateObjectsDestruct prev.address
        let s :=
          if !prevdestruct then
            { s with
              stateObjectsDestruct := Function.update s.stateObjectsDestruct prev.address true }
          else
            s
        s.journalAppend (.resetObjectChange addr prev prevdestruct)
  let s := s.setStateObject newobj
  match prev with
  | some prev => if !prev.deleted then (newobj, some prev, s) else (newobj, none, s)
  | none => (newobj, none, s)

/-- GetOrNewStateObject: the live object at the address, or a new one. -/
def getOrNewStateObject (db : Database) (s : StateDB) (addr : Address) : StateObject × StateDB :=
  match s.getStateObject db addr with
  | (some obj, s) => (obj, s)
  | (none, s) =>
      let (obj, _, s) := s.createObject db addr
      (obj, s)

/-- CreateAccount: a new object that keeps the balance of the live account it replaces. -/
def createAccount (db : Database) (s : StateDB) (addr : Address) : StateDB :=
  let (newObj, prev, s) := s.createObject db addr
  match prev with
  | some prev => s.setStateObject (newObj.setBalance prev.data.balance)
  | none => s

/-- setTransientState: the unjournaled write of transient storage. -/
def setTransientState (s : StateDB) (addr : Address) (key value : Hash) : StateDB :=
  { s with
    transientStorage :=
      Function.update s.transientStorage addr (Function.update (s.transientStorage addr) key value) }

end StateDB

namespace StateObject

/-- SetBalance: the old balance is journaled. -/
def SetBalance (obj : StateObject) (s : StateDB) (amount : Int) : StateDB :=
  (s.journalAppend (.balanceChange obj.address obj.data.balance)).setStateObject
    (obj.setBalance amount)

/-- touch: an entry that changes nothing, for the deletion of empty accounts. -/
def touch (obj : StateObject) (s : StateDB) : StateDB :=
  s.journalAppend (.touchChange obj.address)

/-- AddBalance: a zero amount only touches an empty account. -/
def AddBalance (obj : StateObject) (s : StateDB) (amount : Int) : StateDB :=
  if amount = 0 then
    if obj.empty then obj.touch s else s
  else
    obj.SetBalance s (obj.data.balance + amount)

/-- SubBalance: a zero amount changes nothing. -/
def SubBalance (obj : StateObject) (s : StateDB) (amount : Int) : StateDB :=
  if amount = 0 then s else obj.SetBalance s (obj.data.balance - amount)

/-- SetNonce: the old nonce is journaled. -/
def SetNonce (obj : StateObject) (s : StateDB) (nonce : UInt64) : StateDB :=
  (s.journalAppend (.nonceChange obj.address obj.data.nonce)).setStateObject (obj.setNonce nonce)

/-- SetCode: the old code, loaded first, and the old code hash are journaled. -/
def SetCode (db : Database) (obj : StateObject) (s : StateDB) (codeHash : Hash)
    (code : List UInt8) : StateDB :=
  let (prevcode, obj) := obj.Code db
  (s.journalAppend (.codeChange obj.address prevcode obj.data.codeHash)).setStateObject
    (obj.setCode codeHash code)

/-- SetState: a write of the value the slot holds changes nothing but the read cache. -/
def SetState (db : Database) (obj : StateObject) (s : StateDB) (key value : Hash) : StateDB :=
  let (prev, obj) := obj.getState db (s.stateObjectsDestruct obj.address) key
  if prev = value then
    s.setStateObject obj
  else
    (s.journalAppend (.storageChange obj.address key prev)).setStateObject (obj.setState key value)

end StateObject

namespace StateDB

variable (db : Database)

/-- AddBalance. -/
def addBalance (s : StateDB) (addr : Address) (amount : Int) : StateDB :=
  let (obj, s) := s.getOrNewStateObject db addr
  obj.AddBalance s amount

/-- SubBalance. -/
def subBalance (s : StateDB) (addr : Address) (amount : Int) : StateDB :=
  let (obj, s) := s.getOrNewStateObject db addr
  obj.SubBalance s amount

/-- SetBalance. -/
def setBalance (s : StateDB) (addr : Address) (amount : Int) : StateDB :=
  let (obj, s) := s.getOrNewStateObject db addr
  obj.SetBalance s amount

/-- SetNonce. -/
def setNonce (s : StateDB) (addr : Address) (nonce : UInt64) : StateDB :=
  let (obj, s) := s.getOrNewStateObject db addr
  obj.SetNonce s nonce

/-- SetCode, with the code hash crypto.Keccak256Hash(code). -/
def setCode (keccak256Hash : List UInt8 → Hash) (s : StateDB) (addr : Address)
    (code : List UInt8) : StateDB :=
  let (obj, s) := s.getOrNewStateObject db addr
  obj.SetCode db s (keccak256Hash code) code

/-- SetState. -/
def setState (s : StateDB) (addr : Address) (key value : Hash) : StateDB :=
  let (obj, s) := s.getOrNewStateObject db addr
  obj.SetState db s key value

/-- Suicide: a live account is marked and its balance cleared, the old ones journaled. -/
def suicide (s : StateDB) (addr : Address) : Bool × StateDB :=
  match s.getStateObject db addr with
  | (none, s) => (false, s)
  | (some obj, s) =>
      let s := s.journalAppend (.suicideChange addr obj.suicided obj.data.balance)
      (true, s.setStateObject (obj.markSuicided.setBalance 0))

/-- AddRefund: uint64 addition. -/
def addRefund (s : StateDB) (gas : UInt64) : StateDB :=
  let s := s.journalAppend (.refundChange s.refund)
  { s with refund := s.refund + gas }

/-- SubRefund: a panic when the counter would go below zero. -/
def subRefund (s : StateDB) (gas : UInt64) : Except String StateDB :=
  let s := s.journalAppend (.refundChange s.refund)
  if gas > s.refund then
    .error "Refund counter below zero"
  else
    .ok { s with refund := s.refund - gas }

/-- AddLog: the log is stamped with the transaction and its index in the block. -/
def addLog (s : StateDB) (log : Log) : StateDB :=
  let s := s.journalAppend (.addLogChange s.thash)
  let log := { log with txHash := s.thash, txIndex := s.txIndex, index := s.logSize }
  { s with
    logs := Function.update s.logs s.thash (s.logs s.thash ++ [log])
    logSize := s.logSize + 1 }

/-- AddPreimage: only the first preimage of a hash is kept and journaled. -/
def addPreimage (s : StateDB) (hash : Hash) (preimage : List UInt8) : StateDB :=
  match s.preimages hash with
  | some _ => s
  | none =>
      let s := s.journalAppend (.addPreimageChange hash)
      { s with preimages := Function.update s.preimages hash (some preimage) }

/-- GetTransientState. -/
def getTransientState (s : StateDB) (addr : Address) (key : Hash) : Hash :=
  s.transientStorage addr key

/-- SetTransientState: a write of the value the slot holds is skipped. -/
def SetTransientState (s : StateDB) (addr : Address) (key value : Hash) : StateDB :=
  let prev := s.getTransientState addr key
  if prev = value then
    s
  else
    (s.journalAppend (.transientStorageChange addr key prev)).setTransientState addr key value

/-- s.getStateObject(addr).f(..): a method of the live object, a nil dereference without one. -/
def modifyStateObject (s : StateDB) (addr : Address) (modify : StateObject → StateObject) :
    Except String StateDB :=
  match s.getStateObject db addr with
  | (some obj, s) => .ok (s.setStateObject (modify obj))
  | (none, _) => .error "nil pointer dereference"

end StateDB

namespace JournalEntry

/-- revert: the undo of one entry, with the unjournaled setters. -/
def revert (db : Database) : JournalEntry → StateDB → Except String StateDB
  | .createObjectChange account, s => .ok (s.dropStateObject account)
  | .resetObjectChange _ prev prevdestruct, s =>
      let s := s.setStateObject prev
      if !prevdestruct then
        .ok { s with
          stateObjectsDestruct := Function.update s.stateObjectsDestruct prev.address false }
      else
        .ok s
  | .suicideChange account prev prevbalance, s =>
      match s.getStateObject db account with
      | (some obj, s) => .ok (s.setStateObject { obj.setBalance prevbalance with suicided := prev })
      | (none, s) => .ok s
  | .touchChange _, s => .ok s
  | .balanceChange account prev, s => s.modifyStateObject db account (·.setBalance prev)
  | .nonceChange account prev, s => s.modifyStateObject db account (·.setNonce prev)
  | .codeChange account prevcode prevhash, s =>
      s.modifyStateObject db account (·.setCode prevhash prevcode)
  | .storageChange account key prevalue, s =>
      s.modifyStateObject db account (·.setState key prevalue)
  | .transientStorageChange account key prevalue, s =>
      .ok (s.setTransientState account key prevalue)
  | .refundChange prev, s => .ok { s with refund := prev }
  | .addLogChange txhash, s =>
      let logs := s.logs txhash
      if logs.length = 1 then
        .ok { s with logs := Function.update s.logs txhash [], logSize := s.logSize - 1 }
      else if logs.length = 0 then
        -- logs[:len(logs)-1] of no logs is out of range
        .error "slice bounds out of range"
      else
        .ok { s with logs := Function.update s.logs txhash logs.dropLast, logSize := s.logSize - 1 }
  | .addPreimageChange hash, s => .ok { s with preimages := Function.update s.preimages hash none }

end JournalEntry

namespace StateDB

/-- The loop of journal.revert: the entries undone from the last to the first. -/
def revertEntries (db : Database) (entries : List JournalEntry) (s : StateDB) :
    Except String StateDB :=
  Runs.run (fun s entry => entry.revert db s) s entries.reverse

/-- Snapshot: a fresh revision id for the current length of the journal. -/
def snapshot (s : StateDB) : Int × StateDB :=
  (s.nextRevisionId,
    { s with
      nextRevisionId := s.nextRevisionId + 1
      validRevisions := s.validRevisions ++ [⟨s.nextRevisionId, s.journal.length⟩]
      revisions_ordered :=
        ordered_append_snapshot s.revisions_ordered s.revisions_issued s.revisions_within
      revisions_issued := issued_append_snapshot s.revisions_issued
      revisions_within := within_append_snapshot s.revisions_within })

/--
The journal cut to the revision at an index and the revisions cut before it.
Go truncates the journal in journal.revert and the revisions after it; they
are one update here, since between the two the later revisions point past
the journal.
-/
def truncateTo (s : StateDB) (index : Nat) (target : Revision)
    (found : s.validRevisions[index]? = some target) : StateDB :=
  { s with
    journal := s.journal.take target.journalIndex
    validRevisions := s.validRevisions.take index
    revisions_ordered := s.revisions_ordered.sublist (List.take_sublist _ _)
    revisions_issued := fun revision member =>
      s.revisions_issued revision (List.mem_of_mem_take member)
    revisions_within := by
      intro revision member
      have targetWithin : target.journalIndex ≤ s.journal.length :=
        s.revisions_within target (List.mem_of_getElem? found)
      rw [List.length_take, min_eq_left targetWithin]
      exact journalIndex_le_of_mem_take s.revisions_ordered found member }

/--
The data of the first state with the journal and the revisions of the
second: the undo of journal entries leaves the journal and the revisions as
they are, and RevertToSnapshot then cuts them.
-/
def withRevisions (data bookkeeping : StateDB) : StateDB :=
  { data with
    journal := bookkeeping.journal
    validRevisions := bookkeeping.validRevisions
    nextRevisionId := bookkeeping.nextRevisionId
    revisions_ordered := bookkeeping.revisions_ordered
    revisions_issued := bookkeeping.revisions_issued
    revisions_within := bookkeeping.revisions_within }

/--
RevertToSnapshot: the journal undone to a valid revision, which is consumed
with every later one.
-/
def revertToSnapshot (db : Database) (s : StateDB) (revid : Int) : Except String StateDB :=
  let idx := SortSearch.search s.validRevisions.length fun i =>
    decide ((s.validRevisions.getD i ⟨0, 0⟩).id ≥ revid)
  match found : s.validRevisions[idx]? with
  | none => .error "revision id cannot be reverted"
  | some target =>
      if target.id ≠ revid then
        .error "revision id cannot be reverted"
      else
        (s.revertEntries db (s.journal.drop target.journalIndex)).map
          (·.withRevisions (s.truncateTo idx target found))

/-! ## Queries -/

section Queries

variable (db : Database)

/-- Exist: a live object, suicided or not, is at the address. -/
def exist (s : StateDB) (addr : Address) : Bool × StateDB :=
  let (obj, s) := s.getStateObject db addr
  (obj.isSome, s)

/-- Empty: no live object, or an empty one. -/
def empty (s : StateDB) (addr : Address) : Bool × StateDB :=
  match s.getStateObject db addr with
  | (some obj, s) => (obj.empty, s)
  | (none, s) => (true, s)

/-- GetBalance: zero without a live object. -/
def getBalance (s : StateDB) (addr : Address) : Int × StateDB :=
  match s.getStateObject db addr with
  | (some obj, s) => (obj.data.balance, s)
  | (none, s) => (0, s)

/-- GetNonce: zero without a live object. -/
def getNonce (s : StateDB) (addr : Address) : UInt64 × StateDB :=
  match s.getStateObject db addr with
  | (some obj, s) => (obj.data.nonce, s)
  | (none, s) => (0, s)

/-- GetCode: the object's code, loaded into its cache; none without a live object. -/
def getCode (s : StateDB) (addr : Address) : List UInt8 × StateDB :=
  match s.getStateObject db addr with
  | (some obj, s) =>
      let (code, obj) := obj.Code db
      (code, s.setStateObject obj)
  | (none, s) => ([], s)

/-- GetCodeHash: the zero hash without a live object. -/
def getCodeHash (s : StateDB) (addr : Address) : Hash × StateDB :=
  match s.getStateObject db addr with
  | (some obj, s) => (obj.data.codeHash, s)
  | (none, s) => (Hash.zero, s)

/-- GetState: the slot of the live object, its read cached; zero without one. -/
def getState (s : StateDB) (addr : Address) (key : Hash) : Hash × StateDB :=
  match s.getStateObject db addr with
  | (some obj, s) =>
      let (value, obj) := obj.getState db (s.stateObjectsDestruct obj.address) key
      (value, s.setStateObject obj)
  | (none, s) => (Hash.zero, s)

/-- HasSuicided: false without a live object. -/
def hasSuicided (s : StateDB) (addr : Address) : Bool × StateDB :=
  match s.getStateObject db addr with
  | (some obj, s) => (obj.suicided, s)
  | (none, s) => (false, s)

end Queries

/-- GetRefund. -/
def getRefund (s : StateDB) : UInt64 :=
  s.refund

/-- GetLogs: the logs of a transaction (their block fields are not modelled). -/
def getLogs (s : StateDB) (hash : Hash) : List Log :=
  s.logs hash

end StateDB

/-- The modifications of a StateDB that its journal covers, and Snapshot and RevertToSnapshot. -/
inductive Call where
  | createAccount (addr : Address)
  | addBalance (addr : Address) (amount : Int)
  | subBalance (addr : Address) (amount : Int)
  | setBalance (addr : Address) (amount : Int)
  | setNonce (addr : Address) (nonce : UInt64)
  | setCode (addr : Address) (code : List UInt8)
  | setState (addr : Address) (key value : Hash)
  | suicide (addr : Address)
  | addRefund (gas : UInt64)
  | subRefund (gas : UInt64)
  | addLog (log : Log)
  | addPreimage (hash : Hash) (preimage : List UInt8)
  | setTransientState (addr : Address) (key value : Hash)
  | snapshot
  | revertToSnapshot (revid : Int)

/-- One call on a StateDB; a panic is an error. -/
def Call.apply (db : Database) (keccak256Hash : List UInt8 → Hash) (s : StateDB) :
    Call → Except String StateDB
  | .createAccount addr => .ok (s.createAccount db addr)
  | .addBalance addr amount => .ok (s.addBalance db addr amount)
  | .subBalance addr amount => .ok (s.subBalance db addr amount)
  | .setBalance addr amount => .ok (s.setBalance db addr amount)
  | .setNonce addr nonce => .ok (s.setNonce db addr nonce)
  | .setCode addr code => .ok (s.setCode db keccak256Hash addr code)
  | .setState addr key value => .ok (s.setState db addr key value)
  | .suicide addr => .ok (s.suicide db addr).2
  | .addRefund gas => .ok (s.addRefund gas)
  | .subRefund gas => s.subRefund gas
  | .addLog log => .ok (s.addLog log)
  | .addPreimage hash preimage => .ok (s.addPreimage hash preimage)
  | .setTransientState addr key value => .ok (s.SetTransientState addr key value)
  | .snapshot => .ok s.snapshot.2
  | .revertToSnapshot revid => s.revertToSnapshot db revid

end State

end Kardia
