import Kardia.StateDB

namespace Kardia

namespace State

/-!
# The world state a StateDB stands for

A StateDB caches objects loaded from the committed state, and objects cache
the slots and the code they read; none of it can be seen through the
queries.  The world a StateDB stands for is what the queries read: for every
address the account, deleted or not, with its code and every slot as
GetCode and GetState return them; the destructed addresses, which decide
what a revived object's slots read; and the refund, logs, preimages and
transient storage.

Loading an object or a slot into a cache leaves the world as it was, and
every modification and the undo of every journal entry acts on the world by
a function of the world alone.  The journal's correctness is proved over
this refinement.
-/

/-- An account as the queries read it. -/
@[ext]
structure Account where
  nonce : UInt64
  balance : Int
  codeHash : Hash
  code : List UInt8
  storage : Hash → Hash
  suicided : Bool
  deleted : Bool

/-- The world state: the accounts, the destructed addresses and the per-transaction data. -/
@[ext]
structure World where
  accounts : Address → Option Account
  destructed : Address → Bool
  refund : UInt64
  thash : Hash
  txIndex : Nat
  logs : Hash → List Log
  logSize : UInt64
  preimages : Hash → Option (List UInt8)
  transientStorage : Address → Hash → Hash

namespace World

/-- The account of a new object: no nonce, balance or code, and every slot zero. -/
def fresh : Account :=
  ⟨0, 0, emptyCodeHash, [], fun _ => Hash.zero, false, false⟩

/-- The live account at an address: one that is not deleted. -/
def live (w : World) (addr : Address) : Option Account :=
  (w.accounts addr).filter fun account => !account.deleted

/-- A change of the account at an address. -/
def modify (w : World) (addr : Address) (change : Account → Account) : World :=
  { w with accounts := Function.update w.accounts addr ((w.accounts addr).map change) }

/-- createObject: a fresh account, and the address destructed if it had one. -/
def createObject (w : World) (addr : Address) : World :=
  { w with
    accounts := Function.update w.accounts addr (some fresh)
    destructed :=
      if (w.accounts addr).isSome then Function.update w.destructed addr true else w.destructed }

/-- GetOrNewStateObject: a fresh account where none is live. -/
def getOrNew (w : World) (addr : Address) : World :=
  if (w.live addr).isSome then w else w.createObject addr

/-- CreateAccount: a fresh account with the balance of the live one it replaces. -/
def createAccount (w : World) (addr : Address) : World :=
  match w.live addr with
  | some prev => (w.createObject addr).modify addr fun account => { account with balance := prev.balance }
  | none => w.createObject addr

/-- SetBalance. -/
def setBalance (w : World) (addr : Address) (amount : Int) : World :=
  (w.getOrNew addr).modify addr fun account => { account with balance := amount }

/-- AddBalance. -/
def addBalance (w : World) (addr : Address) (amount : Int) : World :=
  if amount = 0 then
    w.getOrNew addr
  else
    (w.getOrNew addr).modify addr fun account => { account with balance := account.balance + amount }

/-- SubBalance. -/
def subBalance (w : World) (addr : Address) (amount : Int) : World :=
  if amount = 0 then
    w.getOrNew addr
  else
    (w.getOrNew addr).modify addr fun account => { account with balance := account.balance - amount }

/-- SetNonce. -/
def setNonce (w : World) (addr : Address) (nonce : UInt64) : World :=
  (w.getOrNew addr).modify addr fun account => { account with nonce := nonce }

/-- SetCode. -/
def setCode (w : World) (addr : Address) (codeHash : Hash) (code : List UInt8) : World :=
  (w.getOrNew addr).modify addr fun account => { account with codeHash := codeHash, code := code }

/-- SetState. -/
def setState (w : World) (addr : Address) (key value : Hash) : World :=
  (w.getOrNew addr).modify addr fun account =>
    { account with storage := Function.update account.storage key value }

/-- Suicide. -/
def suicide (w : World) (addr : Address) : World :=
  match w.live addr with
  | some _ => w.modify addr fun account => { account with suicided := true, balance := 0 }
  | none => w

/-- AddRefund. -/
def addRefund (w : World) (gas : UInt64) : World :=
  { w with refund := w.refund + gas }

/-- SubRefund. -/
def subRefund (w : World) (gas : UInt64) : Except String World :=
  if gas > w.refund then .error "Refund counter below zero" else .ok { w with refund := w.refund - gas }

/-- AddLog. -/
def addLog (w : World) (log : Log) : World :=
  { w with
    logs := Function.update w.logs w.thash
      (w.logs w.thash ++ [{ log with txHash := w.thash, txIndex := w.txIndex, index := w.logSize }])
    logSize := w.logSize + 1 }

/-- AddPreimage. -/
def addPreimage (w : World) (hash : Hash) (preimage : List UInt8) : World :=
  match w.preimages hash with
  | some _ => w
  | none => { w with preimages := Function.update w.preimages hash (some preimage) }

/-- SetTransientState. -/
def setTransientState (w : World) (addr : Address) (key value : Hash) : World :=
  { w with
    transientStorage :=
      Function.update w.transientStorage addr (Function.update (w.transientStorage addr) key value) }

/-- A change of the live account at an address, a nil dereference without one. -/
def modifyLive (w : World) (addr : Address) (change : Account → Account) : Except String World :=
  match w.live addr with
  | some _ => .ok (w.modify addr change)
  | none => .error "nil pointer dereference"

/-! The queries, as they read the world. -/

/-- Exist. -/
def exist (w : World) (addr : Address) : Bool :=
  (w.live addr).isSome

/-- Empty: no live account, or one without nonce, balance and code. -/
def empty (w : World) (addr : Address) : Bool :=
  match w.live addr with
  | some account =>
      account.nonce == 0 && account.balance == 0 && account.codeHash == emptyCodeHash
  | none => true

/-- GetBalance. -/
def getBalance (w : World) (addr : Address) : Int :=
  match w.live addr with
  | some account => account.balance
  | none => 0

/-- GetNonce. -/
def getNonce (w : World) (addr : Address) : UInt64 :=
  match w.live addr with
  | some account => account.nonce
  | none => 0

/-- GetCode. -/
def getCode (w : World) (addr : Address) : List UInt8 :=
  match w.live addr with
  | some account => account.code
  | none => []

/-- GetCodeHash. -/
def getCodeHash (w : World) (addr : Address) : Hash :=
  match w.live addr with
  | some account => account.codeHash
  | none => Hash.zero

/-- GetState. -/
def getState (w : World) (addr : Address) (key : Hash) : Hash :=
  match w.live addr with
  | some account => account.storage key
  | none => Hash.zero

/-- HasSuicided. -/
def hasSuicided (w : World) (addr : Address) : Bool :=
  match w.live addr with
  | some account => account.suicided
  | none => false

variable {w : World} {addr : Address} {account : Account}

theorem accounts_of_live (live : w.live addr = some account) : w.accounts addr = some account :=
  (Option.filter_eq_some_iff.mp live).1

theorem live_of_accounts (found : w.accounts addr = some account) (kept : account.deleted = false) :
    w.live addr = some account := by
  simp [live, found, Option.filter_some, kept]

theorem deleted_of_live (live : w.live addr = some account) : account.deleted = false := by
  have kept := (Option.filter_eq_some_iff.mp live).2
  simpa using kept

/-- A change that fixes the account at an address leaves the world. -/
theorem modify_eq_self {change : Account → Account}
    (fixes : ∀ account, w.accounts addr = some account → change account = account) :
    w.modify addr change = w := by
  have same : (w.accounts addr).map change = w.accounts addr := by
    cases found : w.accounts addr with
    | none => rfl
    | some account => rw [Option.map_some, fixes account found]
  unfold modify
  rw [same, Function.update_eq_self]

theorem modify_modify (first second : Account → Account) :
    (w.modify addr first).modify addr second = w.modify addr (second ∘ first) := by
  simp [modify, Option.map_map]

theorem accounts_modify_self (change : Account → Account) :
    (w.modify addr change).accounts addr = (w.accounts addr).map change := by
  simp [modify]

/-- A change of the account at an address depends only on what it does to that account. -/
theorem modify_congr
    {first second : Account → Account}
    (agree : ∀ account, w.accounts addr = some account → first account = second account) :
    w.modify addr first = w.modify addr second := by
  unfold modify
  cases found : w.accounts addr with
  | none => rfl
  | some account => rw [Option.map_some, Option.map_some, agree account found]

/-- A change of an account followed by a change back leaves the world. -/
theorem modify_modify_of_back
    {first second : Account → Account}
    (found : w.accounts addr = some account)
    (back : second (first account) = account) :
    (w.modify addr first).modify addr second = w := by
  rw [modify_modify]
  apply modify_eq_self
  intro other found'
  rw [found, Option.some.injEq] at found'
  subst found'
  exact back

/-- The change of a live account that keeps it live is undone by a change back. -/
theorem modifyLive_modify
    {first second : Account → Account}
    (live : w.live addr = some account)
    (keepsLive : (first account).deleted = false)
    (back : second (first account) = account) :
    (w.modify addr first).modifyLive addr second = .ok w := by
  have changed : (w.modify addr first).live addr = some (first account) := by
    apply live_of_accounts _ keepsLive
    rw [accounts_modify_self, accounts_of_live live, Option.map_some]
  simp only [modifyLive, changed]
  rw [modify_modify_of_back (accounts_of_live live) back]

end World

variable (db : Database)

namespace StateObject

/-- The account an object stands for, its slots read with its destructed flag. -/
def account (destructed : Bool) (obj : StateObject) : Account where
  nonce := obj.data.nonce
  balance := obj.data.balance
  codeHash := obj.data.codeHash
  code := (obj.Code db).1
  storage := fun key => (obj.getState db destructed key).1
  suicided := obj.suicided
  deleted := obj.deleted

variable {db}

/-- A read of a slot changes the object's read cache only. -/
theorem getState_snd (destructed : Bool) (obj : StateObject) (key : Hash) :
    ∃ origin, (obj.getState db destructed key).2 = { obj with originStorage := origin } := by
  unfold getState getCommittedState
  split
  · exact ⟨obj.originStorage, rfl⟩
  split
  · exact ⟨obj.originStorage, rfl⟩
  split
  · exact ⟨obj.originStorage, rfl⟩
  split_ifs
  · exact ⟨obj.originStorage, rfl⟩
  · exact ⟨_, rfl⟩

/-- The value GetState returns: the dirty, the pending or the original slot, else the trie's. -/
theorem getState_fst (destructed : Bool) (obj : StateObject) (key : Hash) :
    (obj.getState db destructed key).1 =
      (obj.dirtyStorage key <|> obj.pendingStorage key <|> obj.originStorage key).getD
        (if destructed then Hash.zero else db.storage obj.data.root key) := by
  unfold getState getCommittedState
  cases obj.dirtyStorage key with
  | some value => rfl
  | none =>
      cases obj.pendingStorage key with
      | some value => rfl
      | none =>
          cases obj.originStorage key with
          | some value => rfl
          | none =>
              split_ifs <;> rfl

/-- A slot read after a read of some slot reads as before: the cache holds what was read. -/
theorem getState_fst_getState_snd (destructed : Bool) (obj : StateObject) (key other : Hash) :
    ((obj.getState db destructed key).2.getState db destructed other).1 =
      (obj.getState db destructed other).1 := by
  rw [getState_fst, getState_fst]
  unfold getState getCommittedState
  cases dirty : obj.dirtyStorage key with
  | some value => rfl
  | none =>
      cases pending : obj.pendingStorage key with
      | some value => rfl
      | none =>
          cases origin : obj.originStorage key with
          | some value => rfl
          | none =>
              by_cases destroyed : destructed
              · simp only [destroyed, if_true]
              · -- the read cached the trie's slot as the original
                by_cases same : other = key
                · subst same
                  simp [dirty, pending, origin, destroyed]
                · simp [destroyed, Function.update_of_ne same]

/-- The code Code returns: the cached code, none for the empty code hash, else the store's. -/
theorem Code_fst (obj : StateObject) :
    (obj.Code db).1 =
      obj.code.getD
        (if obj.data.codeHash = emptyCodeHash then [] else db.contractCode obj.data.codeHash) := by
  unfold Code
  cases obj.code with
  | some code => rfl
  | none => split_ifs <;> rfl

/-- A read of a slot leaves the account an object stands for. -/
theorem account_getState_snd (destructed : Bool) (obj : StateObject) (key : Hash) :
    (obj.getState db destructed key).2.account db destructed = obj.account db destructed := by
  obtain ⟨origin, cached⟩ := @getState_snd db destructed obj key
  have storage := @getState_fst_getState_snd db destructed obj key
  rw [cached] at storage ⊢
  unfold account
  congr 1
  · simp only [Code_fst]
  · funext other
    exact storage other

/-- A load of the code changes the code cache only, to the code it returns. -/
theorem Code_snd (obj : StateObject) :
    (obj.Code db).2 = obj ∨ (obj.Code db).2 = { obj with code := some (obj.Code db).1 } := by
  unfold Code
  split
  · exact Or.inl rfl
  split_ifs
  · exact Or.inl rfl
  · exact Or.inr rfl

/-- A load of the code leaves the account an object stands for. -/
theorem account_Code_snd (destructed : Bool) (obj : StateObject) :
    (obj.Code db).2.account db destructed = obj.account db destructed := by
  rcases Code_snd obj with same | cached
  · rw [same]
  · rw [cached]
    unfold account
    congr 1
    funext key
    simp only [getState_fst]

variable {destructed : Bool} {obj : StateObject}

@[simp] theorem account_setBalance (amount : Int) :
    (obj.setBalance amount).account db destructed =
      { obj.account db destructed with balance := amount } := by
  simp only [account, setBalance, Code_fst, getState_fst]

@[simp] theorem account_setNonce (nonce : UInt64) :
    (obj.setNonce nonce).account db destructed =
      { obj.account db destructed with nonce := nonce } := by
  simp only [account, setNonce, Code_fst, getState_fst]

@[simp] theorem account_setCode (codeHash : Hash) (code : List UInt8) :
    (obj.setCode codeHash code).account db destructed =
      { obj.account db destructed with codeHash := codeHash, code := code } := by
  simp only [account, setCode, Code_fst, getState_fst, Option.getD_some]

@[simp] theorem account_setState (key value : Hash) :
    (obj.setState key value).account db destructed =
      { obj.account db destructed with
        storage := Function.update (obj.account db destructed).storage key value } := by
  simp only [account, setState, Code_fst, getState_fst, Account.mk.injEq, true_and, and_true]
  funext other
  by_cases same : other = key
  · subst same
    simp
  · simp [Function.update_of_ne same]

@[simp] theorem account_markSuicided :
    obj.markSuicided.account db destructed = { obj.account db destructed with suicided := true } := by
  simp only [account, markSuicided, Code_fst, getState_fst]

@[simp] theorem newObject_address (address : Address) (data : StateAccount) :
    (newObject address data).address = address :=
  rfl

/-- A new object over no account stands for the fresh account: no slot reads anything but zero. -/
@[simp] theorem account_newObject_empty (address : Address) :
    (newObject address ⟨0, 0, Hash.zero, emptyCodeHash⟩).account db destructed = World.fresh := by
  simp only [account, newObject, World.fresh, Code_fst, getState_fst, if_true, Account.mk.injEq,
    true_and, and_true]
  refine ⟨rfl, ?_⟩
  funext key
  cases destructed
  · simp [db.storage_emptyRoot]
  · rfl

end StateObject

namespace StateDB

/-- The world a StateDB stands for. -/
def world (s : StateDB) : World where
  accounts := fun addr =>
    (s.getDeletedStateObject db addr).1.map (·.account db (s.stateObjectsDestruct addr))
  destructed := s.stateObjectsDestruct
  refund := s.refund
  thash := s.thash
  txIndex := s.txIndex
  logs := s.logs
  logSize := s.logSize
  preimages := s.preimages
  transientStorage := s.transientStorage

variable {db}

/-- The object getDeletedStateObject finds: the cached one, or the committed account's. -/
theorem getDeletedStateObject_fst (s : StateDB) (addr : Address) :
    (s.getDeletedStateObject db addr).1 =
      match s.stateObjects addr with
      | some obj => some obj
      | none => (db.account addr).map (StateObject.newObject addr) := by
  unfold getDeletedStateObject
  cases s.stateObjects addr with
  | some obj => rfl
  | none => cases db.account addr <;> rfl

/-- The object getDeletedStateObject finds is the one of its address. -/
theorem getDeletedStateObject_address
    {s : StateDB}
    {addr : Address}
    {obj : StateObject}
    (found : (s.getDeletedStateObject db addr).1 = some obj) :
    obj.address = addr := by
  rw [getDeletedStateObject_fst] at found
  split at found
  · rename_i cached
    cases found
    exact s.objects_keyed addr _ cached
  · obtain ⟨data, -, rfl⟩ := Option.map_eq_some_iff.mp found
    rfl

/-- Storing an object sets the account of its address to the one it stands for. -/
theorem world_setStateObject (s : StateDB) (obj : StateObject) :
    (s.setStateObject obj).world db =
      { s.world db with
        accounts :=
          Function.update (s.world db).accounts obj.address
            (some (obj.account db (s.stateObjectsDestruct obj.address))) } := by
  unfold world
  congr 1
  funext addr
  by_cases same : addr = obj.address
  · subst same
    simp [getDeletedStateObject_fst, setStateObject]
  · simp only [getDeletedStateObject_fst, setStateObject, Function.update_of_ne same]

/-- Loading an object into the cache leaves the world. -/
theorem world_getDeletedStateObject_snd (s : StateDB) (addr : Address) :
    (s.getDeletedStateObject db addr).2.world db = s.world db := by
  unfold getDeletedStateObject
  split
  · rfl
  · rename_i uncached
    split
    · rfl
    · rename_i data loaded
      rw [world_setStateObject]
      -- the account of the address was already the loaded object's
      have before : (s.world db).accounts addr =
          some ((StateObject.newObject addr data).account db (s.stateObjectsDestruct addr)) := by
        simp [world, getDeletedStateObject_fst, uncached, loaded]
      rw [show (StateObject.newObject addr data).address = addr from rfl, ← before,
        Function.update_eq_self]

/-- What getDeletedStateObject finds stands for the world's account at the address. -/
theorem getDeletedStateObject_account (s : StateDB) (addr : Address) :
    (s.getDeletedStateObject db addr).1.map (·.account db (s.stateObjectsDestruct addr)) =
      (s.world db).accounts addr :=
  rfl

/-- Loading an object changes the cache of objects only. -/
theorem getDeletedStateObject_snd (s : StateDB) (addr : Address) :
    ∃ (objects : Address → Option StateObject)
      (keyed : ∀ addr obj, objects addr = some obj → obj.address = addr),
      (s.getDeletedStateObject db addr).2 =
        { s with stateObjects := objects, objects_keyed := keyed } := by
  unfold getDeletedStateObject
  split
  · exact ⟨s.stateObjects, s.objects_keyed, rfl⟩
  · split
    · exact ⟨s.stateObjects, s.objects_keyed, rfl⟩
    · exact ⟨_, keyed_update_some s.objects_keyed _, rfl⟩

/-- getStateObject: what getDeletedStateObject finds, unless it is deleted. -/
theorem getStateObject_eq (s : StateDB) (addr : Address) :
    s.getStateObject db addr =
      ((s.getDeletedStateObject db addr).1.filter (fun obj => !obj.deleted),
        (s.getDeletedStateObject db addr).2) := by
  unfold getStateObject
  rcases s.getDeletedStateObject db addr with ⟨_ | obj, loaded⟩
  · rfl
  · simp only [Option.filter_some]
    split_ifs <;> rfl

/-- The object getStateObject finds stands for the live account at the address. -/
theorem getStateObject_account (s : StateDB) (addr : Address) :
    (s.getStateObject db addr).1.map (·.account db (s.stateObjectsDestruct addr)) =
      (s.world db).live addr := by
  rw [getStateObject_eq, World.live, ← getDeletedStateObject_account]
  cases (s.getDeletedStateObject db addr).1 with
  | none => rfl
  | some obj =>
      -- the account an object stands for is deleted just when the object is
      cases deleted : obj.deleted <;> simp [StateObject.account, Option.filter_some, deleted]

@[simp] theorem world_destructed (s : StateDB) : (s.world db).destructed = s.stateObjectsDestruct :=
  rfl

/-- The world read off the fields: the cache, the committed state and the per-transaction data. -/
theorem world_eq (s : StateDB) :
    s.world db =
      { accounts := fun addr =>
          (match s.stateObjects addr with
            | some obj => some obj
            | none => (db.account addr).map (StateObject.newObject addr)).map
            (StateObject.account db (s.stateObjectsDestruct addr))
        destructed := s.stateObjectsDestruct
        refund := s.refund
        thash := s.thash
        txIndex := s.txIndex
        logs := s.logs
        logSize := s.logSize
        preimages := s.preimages
        transientStorage := s.transientStorage } := by
  simp only [world, getDeletedStateObject_fst]

theorem world_journalAppend (s : StateDB) (entry : JournalEntry) :
    (s.journalAppend entry).world db = s.world db := by
  rw [world_eq, world_eq]
  rfl

theorem world_getStateObject_snd (s : StateDB) (addr : Address) :
    (s.getStateObject db addr).2.world db = s.world db := by
  rw [getStateObject_eq]
  exact world_getDeletedStateObject_snd s addr

/-- The object a state holds for the live account at an address. -/
def Holds (db : Database) (s : StateDB) (addr : Address) (obj : StateObject) : Prop :=
  obj.address = addr ∧ (s.world db).live addr = some (obj.account db (s.stateObjectsDestruct addr))

/-- The object getStateObject finds is held by the state it leaves. -/
theorem holds_getStateObject
    {s : StateDB}
    {addr : Address}
    {obj : StateObject}
    (found : (s.getStateObject db addr).1 = some obj) :
    (s.getStateObject db addr).2.Holds db addr obj := by
  have unchanged := @world_getStateObject_snd db s addr
  have live := @getStateObject_account db s addr
  have destruct : (s.getStateObject db addr).2.stateObjectsDestruct = s.stateObjectsDestruct :=
    congrArg World.destructed unchanged
  rw [found, Option.map_some] at live
  refine ⟨?_, by rw [unchanged, destruct, live]⟩
  rw [getStateObject_eq] at found
  exact getDeletedStateObject_address (Option.filter_eq_some_iff.mp found).1

/-- Storing a changed copy of the object held at an address changes the account there. -/
theorem world_setStateObject_modify
    {s : StateDB}
    {addr : Address}
    {obj : StateObject}
    (holds : s.Holds db addr obj)
    (changed : StateObject)
    (address : changed.address = addr)
    {change : Account → Account}
    (account : changed.account db (s.stateObjectsDestruct addr) =
      change (obj.account db (s.stateObjectsDestruct addr))) :
    (s.setStateObject changed).world db = (s.world db).modify addr change := by
  rw [world_setStateObject, address, account]
  simp only [World.modify, World.accounts_of_live holds.2, Option.map_some]

/-- A change of the destructed flag of an address changes how its account's slots read. -/
theorem world_setDestruct (s : StateDB) (addr : Address) (flag : Bool) :
    ({ s with stateObjectsDestruct := Function.update s.stateObjectsDestruct addr flag }).world db =
      { s.world db with
        accounts :=
          Function.update (s.world db).accounts addr
            ((s.getDeletedStateObject db addr).1.map (·.account db flag))
        destructed := Function.update s.stateObjectsDestruct addr flag } := by
  rw [world_eq, world_eq, getDeletedStateObject_fst]
  congr 1
  funext other
  by_cases same : other = addr
  · subst same
    simp
  · simp [Function.update_of_ne same]

theorem getDeletedStateObject_of_none
    {s : StateDB}
    {addr : Address}
    (absent : (s.getDeletedStateObject db addr).1 = none) :
    s.getDeletedStateObject db addr = (none, s) := by
  revert absent
  unfold getDeletedStateObject
  cases s.stateObjects addr with
  | some obj => simp
  | none => cases db.account addr <;> simp

/-- createObject over no account: the creation is journaled and the new object stored. -/
theorem createObject_of_none
    {s : StateDB}
    {addr : Address}
    (absent : (s.getDeletedStateObject db addr).1 = none) :
    s.createObject db addr =
      (StateObject.newObject addr ⟨0, 0, Hash.zero, emptyCodeHash⟩, none,
        (s.journalAppend (.createObjectChange addr)).setStateObject
          (StateObject.newObject addr ⟨0, 0, Hash.zero, emptyCodeHash⟩)) := by
  unfold createObject
  rw [getDeletedStateObject_of_none absent]

/--
createObject over an object, deleted or not: the address is marked
destructed, the replaced object and its old flag are journaled, and the new
object stored.
-/
theorem createObject_of_some
    {s loaded : StateDB}
    {addr : Address}
    {prev : StateObject}
    (found : s.getDeletedStateObject db addr = (some prev, loaded)) :
    s.createObject db addr =
      (StateObject.newObject addr ⟨0, 0, Hash.zero, emptyCodeHash⟩,
        (some prev).filter (fun obj => !obj.deleted),
        ((if !loaded.stateObjectsDestruct addr then
            { loaded with
              stateObjectsDestruct := Function.update loaded.stateObjectsDestruct addr true }
          else
            loaded).journalAppend
            (.resetObjectChange addr prev (loaded.stateObjectsDestruct addr))).setStateObject
          (StateObject.newObject addr ⟨0, 0, Hash.zero, emptyCodeHash⟩)) := by
  have address : prev.address = addr := getDeletedStateObject_address (congrArg Prod.fst found)
  unfold createObject
  rw [found]
  dsimp only
  rw [address, Option.filter_some]
  split_ifs <;> rfl

theorem createObject_fst (s : StateDB) (addr : Address) :
    (s.createObject db addr).1 = StateObject.newObject addr ⟨0, 0, Hash.zero, emptyCodeHash⟩ := by
  rcases found : s.getDeletedStateObject db addr with ⟨_ | prev, loaded⟩
  · rw [createObject_of_none (by rw [found])]
  · rw [createObject_of_some found]

/-- The object createObject replaces is the one getStateObject finds. -/
theorem createObject_prev (s : StateDB) (addr : Address) :
    (s.createObject db addr).2.1 = (s.getStateObject db addr).1 := by
  rw [getStateObject_eq]
  rcases found : s.getDeletedStateObject db addr with ⟨_ | prev, loaded⟩
  · rw [createObject_of_none (by rw [found])]
    rfl
  · rw [createObject_of_some found]

/-- createObject refines World.createObject. -/
theorem world_createObject (s : StateDB) (addr : Address) :
    (s.createObject db addr).2.2.world db = (s.world db).createObject addr := by
  have unchanged := @world_getDeletedStateObject_snd db s addr
  have account := @getDeletedStateObject_account db s addr
  rcases found : s.getDeletedStateObject db addr with ⟨_ | prev, loaded⟩
  · -- no account: the destructed flags stay
    rw [found] at account
    rw [createObject_of_none (by rw [found])]
    simp [world_setStateObject, world_journalAppend, World.createObject, ← account]
  · -- the address is marked destructed, unless it already was
    rw [found] at unchanged account
    dsimp only at unchanged account
    rw [← unchanged] at account ⊢
    rw [createObject_of_some found]
    simp only [world_setStateObject, world_journalAppend, StateObject.newObject_address,
      StateObject.account_newObject_empty]
    split_ifs with marked
    · simp only [world_setDestruct, Function.update_idem]
      simp [World.createObject, ← account]
    · have already : Function.update loaded.stateObjectsDestruct addr true =
          loaded.stateObjectsDestruct :=
        Function.update_eq_self_iff.mpr (by simpa using marked)
      simp [World.createObject, ← account, already]

/-- The new object createObject stores is held for the fresh account. -/
theorem holds_createObject (s : StateDB) (addr : Address) :
    (s.createObject db addr).2.2.Holds db addr (s.createObject db addr).1 := by
  rw [Holds, world_createObject, createObject_fst]
  refine ⟨rfl, ?_⟩
  apply World.live_of_accounts _ rfl
  simp [World.createObject]

theorem holds_journalAppend
    {s : StateDB}
    {addr : Address}
    {obj : StateObject}
    (holds : s.Holds db addr obj)
    (entry : JournalEntry) :
    (s.journalAppend entry).Holds db addr obj := by
  rw [Holds, world_journalAppend]
  exact holds

/-- GetOrNewStateObject refines World.getOrNew. -/
theorem world_getOrNewStateObject (s : StateDB) (addr : Address) :
    (s.getOrNewStateObject db addr).2.world db = (s.world db).getOrNew addr := by
  have unchanged := @world_getStateObject_snd db s addr
  have live := @getStateObject_account db s addr
  unfold getOrNewStateObject
  rcases found : s.getStateObject db addr with ⟨_ | obj, loaded⟩
  · -- no live account: a new object is created
    rw [found] at unchanged live
    dsimp only at unchanged live ⊢
    rw [world_createObject, unchanged, World.getOrNew, ← live]
    rfl
  · rw [found] at unchanged live
    dsimp only at unchanged live ⊢
    rw [unchanged, World.getOrNew, ← live]
    rfl

/-- The object GetOrNewStateObject returns is held by the state it leaves. -/
theorem holds_getOrNewStateObject (s : StateDB) (addr : Address) :
    (s.getOrNewStateObject db addr).2.Holds db addr (s.getOrNewStateObject db addr).1 := by
  have holds := @holds_getStateObject db s addr
  unfold getOrNewStateObject
  rcases found : s.getStateObject db addr with ⟨_ | obj, loaded⟩
  · exact holds_createObject loaded addr
  · rw [found] at holds
    exact holds rfl

end StateDB

namespace StateObject

variable {db} {s : StateDB} {addr : Address} {obj : StateObject}

/-- Storing a changed copy of the held object after a journal entry changes its account. -/
theorem world_journal_store
    (holds : s.Holds db addr obj)
    (entry : JournalEntry)
    (changed : StateObject)
    (address : changed.address = addr)
    {change : Account → Account}
    (account : changed.account db (s.stateObjectsDestruct addr) =
      change (obj.account db (s.stateObjectsDestruct addr))) :
    ((s.journalAppend entry).setStateObject changed).world db = (s.world db).modify addr change := by
  rw [StateDB.world_setStateObject_modify (StateDB.holds_journalAppend holds entry) changed
    address account, StateDB.world_journalAppend]

theorem world_SetBalance (holds : s.Holds db addr obj) (amount : Int) :
    (obj.SetBalance s amount).world db =
      (s.world db).modify addr fun account => { account with balance := amount } := by
  unfold SetBalance
  exact world_journal_store holds _ (obj.setBalance amount) holds.1 (account_setBalance amount)

theorem world_AddBalance (holds : s.Holds db addr obj) (amount : Int) :
    (obj.AddBalance s amount).world db =
      if amount = 0 then s.world db
      else (s.world db).modify addr fun account => { account with balance := account.balance + amount } := by
  unfold AddBalance
  split_ifs
  · -- a touch changes nothing but the journal
    exact StateDB.world_journalAppend s _
  · rfl
  · unfold SetBalance
    exact world_journal_store holds _ (obj.setBalance (obj.data.balance + amount)) holds.1
      (by rw [account_setBalance]; rfl)

theorem world_SubBalance (holds : s.Holds db addr obj) (amount : Int) :
    (obj.SubBalance s amount).world db =
      if amount = 0 then s.world db
      else (s.world db).modify addr fun account => { account with balance := account.balance - amount } := by
  unfold SubBalance
  split_ifs
  · rfl
  · unfold SetBalance
    exact world_journal_store holds _ (obj.setBalance (obj.data.balance - amount)) holds.1
      (by rw [account_setBalance]; rfl)

theorem world_SetNonce (holds : s.Holds db addr obj) (nonce : UInt64) :
    (obj.SetNonce s nonce).world db =
      (s.world db).modify addr fun account => { account with nonce := nonce } := by
  unfold SetNonce
  exact world_journal_store holds _ (obj.setNonce nonce) holds.1 (account_setNonce nonce)

/-- An object with its code loaded is held where the object was. -/
theorem holds_Code_snd (holds : s.Holds db addr obj) : s.Holds db addr (obj.Code db).2 := by
  refine ⟨?_, by rw [account_Code_snd]; exact holds.2⟩
  rcases Code_snd obj with same | cached
  · rw [same]; exact holds.1
  · rw [cached]; exact holds.1

theorem world_SetCode (holds : s.Holds db addr obj) (codeHash : Hash) (code : List UInt8) :
    (obj.SetCode db s codeHash code).world db =
      (s.world db).modify addr fun account => { account with codeHash := codeHash, code := code } := by
  have loaded := holds_Code_snd holds
  unfold SetCode
  exact world_journal_store loaded _ ((obj.Code db).2.setCode codeHash code) loaded.1
    (account_setCode codeHash code)

/-- The held object with a slot read into its cache is held where the object was. -/
theorem holds_getState_snd (holds : s.Holds db addr obj) (key : Hash) :
    s.Holds db addr (obj.getState db (s.stateObjectsDestruct addr) key).2 := by
  obtain ⟨origin, cached⟩ := @getState_snd db (s.stateObjectsDestruct addr) obj key
  refine ⟨by rw [cached]; exact holds.1, ?_⟩
  rw [account_getState_snd]
  exact holds.2

theorem world_SetState (holds : s.Holds db addr obj) (key value : Hash) :
    (obj.SetState db s key value).world db =
      (s.world db).modify addr fun account =>
        { account with storage := Function.update account.storage key value } := by
  have loaded := holds_getState_snd holds key
  have kept := @account_getState_snd db (s.stateObjectsDestruct addr) obj key
  have read : (obj.account db (s.stateObjectsDestruct addr)).storage key =
      (obj.getState db (s.stateObjectsDestruct addr) key).1 := rfl
  unfold SetState
  rw [holds.1]
  generalize obj.getState db (s.stateObjectsDestruct addr) key = result at loaded kept read
  obtain ⟨prev, cached⟩ := result
  dsimp only at loaded kept read ⊢
  split_ifs with same
  · -- the slot already holds the value: only the read cache is stored
    refine StateDB.world_setStateObject_modify holds cached loaded.1 ?_
    rw [kept, ← same, ← read, Function.update_eq_self]
  · refine world_journal_store holds _ (cached.setState key value) loaded.1 ?_
    rw [account_setState, kept]

end StateObject

namespace StateDB

variable {db}

theorem world_addBalance (s : StateDB) (addr : Address) (amount : Int) :
    (s.addBalance db addr amount).world db = (s.world db).addBalance addr amount := by
  show ((s.getOrNewStateObject db addr).1.AddBalance (s.getOrNewStateObject db addr).2 amount).world db = _
  rw [StateObject.world_AddBalance (holds_getOrNewStateObject s addr), world_getOrNewStateObject,
    World.addBalance]

theorem world_subBalance (s : StateDB) (addr : Address) (amount : Int) :
    (s.subBalance db addr amount).world db = (s.world db).subBalance addr amount := by
  show ((s.getOrNewStateObject db addr).1.SubBalance (s.getOrNewStateObject db addr).2 amount).world db = _
  rw [StateObject.world_SubBalance (holds_getOrNewStateObject s addr), world_getOrNewStateObject,
    World.subBalance]

theorem world_setBalance (s : StateDB) (addr : Address) (amount : Int) :
    (s.setBalance db addr amount).world db = (s.world db).setBalance addr amount := by
  show ((s.getOrNewStateObject db addr).1.SetBalance (s.getOrNewStateObject db addr).2 amount).world db = _
  rw [StateObject.world_SetBalance (holds_getOrNewStateObject s addr), world_getOrNewStateObject,
    World.setBalance]

theorem world_setNonce (s : StateDB) (addr : Address) (nonce : UInt64) :
    (s.setNonce db addr nonce).world db = (s.world db).setNonce addr nonce := by
  show ((s.getOrNewStateObject db addr).1.SetNonce (s.getOrNewStateObject db addr).2 nonce).world db = _
  rw [StateObject.world_SetNonce (holds_getOrNewStateObject s addr), world_getOrNewStateObject,
    World.setNonce]

theorem world_setCode (keccak256Hash : List UInt8 → Hash) (s : StateDB) (addr : Address)
    (code : List UInt8) :
    (s.setCode db keccak256Hash addr code).world db =
      (s.world db).setCode addr (keccak256Hash code) code := by
  show ((s.getOrNewStateObject db addr).1.SetCode db (s.getOrNewStateObject db addr).2
    (keccak256Hash code) code).world db = _
  rw [StateObject.world_SetCode (holds_getOrNewStateObject s addr), world_getOrNewStateObject,
    World.setCode]

theorem world_setState (s : StateDB) (addr : Address) (key value : Hash) :
    (s.setState db addr key value).world db = (s.world db).setState addr key value := by
  show ((s.getOrNewStateObject db addr).1.SetState db (s.getOrNewStateObject db addr).2
    key value).world db = _
  rw [StateObject.world_SetState (holds_getOrNewStateObject s addr), world_getOrNewStateObject,
    World.setState]

/-- CreateAccount refines World.createAccount: the balance is carried over unjournaled. -/
theorem world_createAccount (s : StateDB) (addr : Address) :
    (s.createAccount db addr).world db = (s.world db).createAccount addr := by
  have created := @world_createObject db s addr
  have holds := @holds_createObject db s addr
  have live := @getStateObject_account db s addr
  rw [← createObject_prev] at live
  unfold createAccount World.createAccount
  generalize s.createObject db addr = result at created holds live
  obtain ⟨newObj, prev, t⟩ := result
  dsimp only at created holds live ⊢
  rw [← live]
  cases prev with
  | none => exact created
  | some prev =>
      dsimp only [Option.map_some]
      rw [← created]
      exact world_setStateObject_modify holds (newObj.setBalance prev.data.balance) holds.1
        (StateObject.account_setBalance _)

theorem world_suicide (s : StateDB) (addr : Address) :
    (s.suicide db addr).2.world db = (s.world db).suicide addr := by
  have holds := @holds_getStateObject db s addr
  have unchanged := @world_getStateObject_snd db s addr
  have live := @getStateObject_account db s addr
  unfold suicide World.suicide
  rcases found : s.getStateObject db addr with ⟨_ | obj, t⟩
  · rw [found] at unchanged live
    rw [← live]
    exact unchanged
  · rw [found] at holds unchanged live
    rw [← live]
    dsimp only [Option.map_some]
    rw [← unchanged]
    exact StateObject.world_journal_store (holds rfl) _ (obj.markSuicided.setBalance 0) (holds rfl).1
      (by simp only [StateObject.account_setBalance, StateObject.account_markSuicided])

theorem world_addRefund (s : StateDB) (gas : UInt64) :
    (s.addRefund gas).world db = (s.world db).addRefund gas := by
  rw [world_eq, world_eq]
  rfl

theorem world_subRefund (s : StateDB) (gas : UInt64) :
    (s.subRefund gas).map (world db) = (s.world db).subRefund gas := by
  unfold subRefund World.subRefund journalAppend
  rw [show (s.world db).refund = s.refund from rfl]
  dsimp only
  split_ifs
  · rfl
  · refine congrArg Except.ok ?_
    rw [world_eq, world_eq]

theorem world_addLog (s : StateDB) (log : Log) :
    (s.addLog log).world db = (s.world db).addLog log := by
  rw [world_eq, world_eq]
  rfl

theorem world_addPreimage (s : StateDB) (hash : Hash) (preimage : List UInt8) :
    (s.addPreimage hash preimage).world db = (s.world db).addPreimage hash preimage := by
  unfold addPreimage World.addPreimage
  rw [show (s.world db).preimages = s.preimages from rfl]
  cases s.preimages hash with
  | some _ => rfl
  | none => rw [world_eq, world_eq]; rfl

theorem world_SetTransientState (s : StateDB) (addr : Address) (key value : Hash) :
    (s.SetTransientState addr key value).world db = (s.world db).setTransientState addr key value := by
  unfold SetTransientState
  dsimp only
  split_ifs with same
  · -- a write of the value the slot holds
    have slot : Function.update (s.transientStorage addr) key value = s.transientStorage addr :=
      Function.update_eq_self_iff.mpr same.symm
    rw [World.setTransientState, show (s.world db).transientStorage = s.transientStorage from rfl,
      slot, Function.update_eq_self]
    rfl
  · rw [world_eq, world_eq]
    rfl

/-! ## The queries read the world -/

theorem exist_fst (s : StateDB) (addr : Address) :
    (s.exist db addr).1 = (s.world db).exist addr := by
  rw [World.exist, ← getStateObject_account, Option.isSome_map]
  rfl

theorem empty_fst (s : StateDB) (addr : Address) :
    (s.empty db addr).1 = (s.world db).empty addr := by
  unfold empty World.empty
  rw [← getStateObject_account]
  rcases s.getStateObject db addr with ⟨_ | obj, t⟩ <;> rfl

theorem getBalance_fst (s : StateDB) (addr : Address) :
    (s.getBalance db addr).1 = (s.world db).getBalance addr := by
  unfold getBalance World.getBalance
  rw [← getStateObject_account]
  rcases s.getStateObject db addr with ⟨_ | obj, t⟩ <;> rfl

theorem getNonce_fst (s : StateDB) (addr : Address) :
    (s.getNonce db addr).1 = (s.world db).getNonce addr := by
  unfold getNonce World.getNonce
  rw [← getStateObject_account]
  rcases s.getStateObject db addr with ⟨_ | obj, t⟩ <;> rfl

theorem getCode_fst (s : StateDB) (addr : Address) :
    (s.getCode db addr).1 = (s.world db).getCode addr := by
  unfold getCode World.getCode
  rw [← getStateObject_account]
  rcases s.getStateObject db addr with ⟨_ | obj, t⟩ <;> rfl

theorem getCodeHash_fst (s : StateDB) (addr : Address) :
    (s.getCodeHash db addr).1 = (s.world db).getCodeHash addr := by
  unfold getCodeHash World.getCodeHash
  rw [← getStateObject_account]
  rcases s.getStateObject db addr with ⟨_ | obj, t⟩ <;> rfl

theorem hasSuicided_fst (s : StateDB) (addr : Address) :
    (s.hasSuicided db addr).1 = (s.world db).hasSuicided addr := by
  unfold hasSuicided World.hasSuicided
  rw [← getStateObject_account]
  rcases s.getStateObject db addr with ⟨_ | obj, t⟩ <;> rfl

/-- GetState reads the slot with the flag of the loaded state, which loading leaves. -/
theorem getState_fst (s : StateDB) (addr : Address) (key : Hash) :
    (s.getState db addr key).1 = (s.world db).getState addr key := by
  have holds := @holds_getStateObject db s addr
  have destruct : (s.getStateObject db addr).2.stateObjectsDestruct = s.stateObjectsDestruct :=
    congrArg World.destructed (world_getStateObject_snd s addr)
  unfold getState World.getState
  rw [← getStateObject_account]
  rcases found : s.getStateObject db addr with ⟨_ | obj, t⟩
  · rfl
  · rw [found] at holds destruct
    dsimp only at holds destruct ⊢
    rw [(holds rfl).1, destruct]
    rfl

end StateDB


/-- The account the committed state holds at an address, read with the address's destructed flag. -/
def World.committed (w : World) (addr : Address) : Option Account :=
  (db.account addr).map fun data =>
    (StateObject.newObject addr data).account db (w.destructed addr)

namespace JournalEntry

/-- What the undo of an entry does to the world. -/
def undo : JournalEntry → World → Except String World
  | .createObjectChange account, w =>
      .ok { w with accounts := Function.update w.accounts account (w.committed db account) }
  | .resetObjectChange _ prev prevdestruct, w =>
      let destructed :=
        if !prevdestruct then Function.update w.destructed prev.address false else w.destructed
      .ok { w with
        accounts :=
          Function.update w.accounts prev.address
            (some (prev.account db (destructed prev.address)))
        destructed := destructed }
  | .suicideChange account prev prevbalance, w =>
      match w.live account with
      | some _ =>
          .ok (w.modify account fun acct => { acct with balance := prevbalance, suicided := prev })
      | none => .ok w
  | .touchChange _, w => .ok w
  | .balanceChange account prev, w => w.modifyLive account fun acct => { acct with balance := prev }
  | .nonceChange account prev, w => w.modifyLive account fun acct => { acct with nonce := prev }
  | .codeChange account prevcode prevhash, w =>
      w.modifyLive account fun acct => { acct with codeHash := prevhash, code := prevcode }
  | .storageChange account key prevalue, w =>
      w.modifyLive account fun acct => { acct with storage := Function.update acct.storage key prevalue }
  | .transientStorageChange account key prevalue, w => .ok (w.setTransientState account key prevalue)
  | .refundChange prev, w => .ok { w with refund := prev }
  | .addLogChange txhash, w =>
      let logs := w.logs txhash
      if logs.length = 1 then
        .ok { w with logs := Function.update w.logs txhash [], logSize := w.logSize - 1 }
      else if logs.length = 0 then
        .error "slice bounds out of range"
      else
        .ok { w with logs := Function.update w.logs txhash logs.dropLast, logSize := w.logSize - 1 }
  | .addPreimageChange hash, w => .ok { w with preimages := Function.update w.preimages hash none }

end JournalEntry

namespace StateDB

variable {db}

/-- Dropping the cached object reads the address from the committed state again. -/
theorem world_dropStateObject (s : StateDB) (addr : Address) :
    (s.dropStateObject addr).world db =
      { s.world db with
        accounts := Function.update (s.world db).accounts addr ((s.world db).committed db addr) } := by
  rw [world_eq, world_eq]
  congr 1
  funext other
  by_cases same : other = addr
  · subst same
    simp [dropStateObject, World.committed, Option.map_map, Function.comp_def]
  · simp [dropStateObject, Function.update_of_ne same]

/-- A method of the live object at an address refines the change of its account. -/
theorem world_modifyStateObject
    (s : StateDB)
    (addr : Address)
    {modify : StateObject → StateObject}
    {change : Account → Account}
    (address : ∀ obj, (modify obj).address = obj.address)
    (account : ∀ obj destructed, (modify obj).account db destructed = change (obj.account db destructed)) :
    (s.modifyStateObject db addr modify).map (world db) = (s.world db).modifyLive addr change := by
  have holds := @holds_getStateObject db s addr
  have unchanged := @world_getStateObject_snd db s addr
  unfold modifyStateObject World.modifyLive
  rw [← getStateObject_account]
  rcases found : s.getStateObject db addr with ⟨_ | obj, t⟩
  · rfl
  · rw [found] at holds unchanged
    dsimp only at holds unchanged ⊢
    refine congrArg Except.ok ?_
    rw [← unchanged]
    exact world_setStateObject_modify (holds rfl) (modify obj)
      ((address obj).trans (holds rfl).1) (account obj _)

end StateDB

namespace JournalEntry

variable {db}

/-- The account of an object with its balance and suicided flag restored. -/
theorem account_restoreSuicided (obj : StateObject) (destructed : Bool) (prev : Bool)
    (prevbalance : Int) :
    ({ obj.setBalance prevbalance with suicided := prev } : StateObject).account db destructed =
      { obj.account db destructed with balance := prevbalance, suicided := prev } := by
  simp only [StateObject.account, StateObject.setBalance, StateObject.Code_fst,
    StateObject.getState_fst]

/-- The revert of every entry refines its undo on the world. -/
theorem world_revert (entry : JournalEntry) (s : StateDB) :
    (entry.revert db s).map (StateDB.world db) = entry.undo db (s.world db) := by
  cases entry with
  | createObjectChange account =>
      exact congrArg Except.ok (StateDB.world_dropStateObject s account)
  | resetObjectChange account prev prevdestruct =>
      -- the replaced object is stored back, and the address unmarked if it was not destructed
      cases prevdestruct with
      | false =>
          refine congrArg Except.ok ?_
          show ({ s.setStateObject prev with
            stateObjectsDestruct :=
              Function.update (s.setStateObject prev).stateObjectsDestruct prev.address false }).world db = _
          rw [StateDB.world_setDestruct, StateDB.world_setStateObject, StateDB.getDeletedStateObject_fst]
          simp [StateDB.setStateObject]
      | true =>
          refine congrArg Except.ok ?_
          show (s.setStateObject prev).world db = _
          rw [StateDB.world_setStateObject]
          rfl
  | suicideChange account prev prevbalance =>
      have holds := @StateDB.holds_getStateObject db s account
      have unchanged := @StateDB.world_getStateObject_snd db s account
      dsimp only [revert, undo]
      rw [← StateDB.getStateObject_account]
      rcases found : s.getStateObject db account with ⟨_ | obj, t⟩
      · rw [found] at unchanged
        exact congrArg Except.ok unchanged
      · rw [found] at holds unchanged
        dsimp only at holds unchanged ⊢
        refine congrArg Except.ok ?_
        rw [← unchanged]
        exact StateDB.world_setStateObject_modify (holds rfl)
          { obj.setBalance prevbalance with suicided := prev } (holds rfl).1
          (account_restoreSuicided obj _ prev prevbalance)
  | touchChange account => rfl
  | balanceChange account prev =>
      exact StateDB.world_modifyStateObject s account (fun _ => rfl)
        fun _ _ => StateObject.account_setBalance prev
  | nonceChange account prev =>
      exact StateDB.world_modifyStateObject s account (fun _ => rfl)
        fun _ _ => StateObject.account_setNonce prev
  | codeChange account prevcode prevhash =>
      exact StateDB.world_modifyStateObject s account (fun _ => rfl)
        fun _ _ => StateObject.account_setCode prevhash prevcode
  | storageChange account key prevalue =>
      exact StateDB.world_modifyStateObject s account (fun _ => rfl)
        fun _ _ => StateObject.account_setState key prevalue
  | transientStorageChange account key prevalue =>
      refine congrArg Except.ok ?_
      rw [StateDB.world_eq, StateDB.world_eq]
      rfl
  | refundChange prev =>
      refine congrArg Except.ok ?_
      rw [StateDB.world_eq, StateDB.world_eq]
  | addLogChange txhash =>
      dsimp only [revert, undo]
      rw [show (s.world db).logs = s.logs from rfl]
      split_ifs
      · refine congrArg Except.ok ?_
        rw [StateDB.world_eq, StateDB.world_eq]
      · rfl
      · refine congrArg Except.ok ?_
        rw [StateDB.world_eq, StateDB.world_eq]
  | addPreimageChange hash =>
      refine congrArg Except.ok ?_
      rw [StateDB.world_eq, StateDB.world_eq]

end JournalEntry

/-- The undo of entries from the last to the first, on the world. -/
def undoAll (entries : List JournalEntry) (w : World) : Except String World :=
  Runs.run (fun w entry => entry.undo db w) w entries.reverse

variable {db}

/-- The later entries are undone first. -/
theorem undoAll_append (first second : List JournalEntry) (w : World) :
    undoAll db (first ++ second) w = (undoAll db second w).bind (undoAll db first) := by
  unfold undoAll
  rw [List.reverse_append, Runs.run_append]

theorem undoAll_singleton (entry : JournalEntry) (w : World) :
    undoAll db [entry] w = entry.undo db w := by
  unfold undoAll
  rw [List.reverse_singleton, Runs.run_cons]
  cases entry.undo db w <;> rfl

/-- The loop of journal.revert refines the undo of the entries on the world. -/
theorem StateDB.world_revertEntries (entries : List JournalEntry) (s : StateDB) :
    (s.revertEntries db entries).map (StateDB.world db) = undoAll db entries (s.world db) :=
  Runs.map_run (fun state entry => JournalEntry.world_revert entry state) s entries.reverse

end State

end Kardia
