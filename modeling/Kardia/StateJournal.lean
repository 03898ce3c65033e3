import Kardia.StateWorld

namespace Kardia

namespace State

/-!
# The journal reverts exactly

Every modification of a StateDB appends to the journal what it overwrites,
and the undo of those entries, last first, gives back the world from before
the modification.  A state that extends the journal of an earlier one so is
Undone back to it; the relation composes, so a sequence of modifications is
undone by the undo of all their entries.

RevertToSnapshot finds the revision by binary search over the valid
revisions, whose ids increase, undoes the journal back to the revision's
length and drops the revision with every later one.  A revision taken after
a snapshot points into the entries appended since, so a nested revert leaves
a state still Undone back to the snapshot.  Reverting to the snapshot then
restores every query, and consumes the snapshot.
-/

/-! ## The undo of each entry on the world -/

namespace JournalEntry

variable {db : Database} {w : World} {addr : Address} {account : Account}

theorem undo_balanceChange (live : w.live addr = some account) (amount : Int) :
    (balanceChange addr account.balance).undo db
      (w.modify addr fun acct => { acct with balance := amount }) = .ok w :=
  World.modifyLive_modify live (World.deleted_of_live live :) rfl

theorem undo_nonceChange (live : w.live addr = some account) (nonce : UInt64) :
    (nonceChange addr account.nonce).undo db
      (w.modify addr fun acct => { acct with nonce := nonce }) = .ok w :=
  World.modifyLive_modify live (World.deleted_of_live live :) rfl

theorem undo_codeChange (live : w.live addr = some account) (codeHash : Hash) (code : List UInt8) :
    (codeChange addr account.code account.codeHash).undo db
      (w.modify addr fun acct => { acct with codeHash := codeHash, code := code }) = .ok w :=
  World.modifyLive_modify live (World.deleted_of_live live :) rfl

theorem undo_storageChange (live : w.live addr = some account) (key value : Hash) :
    (storageChange addr key (account.storage key)).undo db
      (w.modify addr fun acct => { acct with storage := Function.update acct.storage key value }) =
      .ok w :=
  World.modifyLive_modify live (World.deleted_of_live live :) (by simp)

theorem undo_suicideChange (live : w.live addr = some account) :
    (suicideChange addr account.suicided account.balance).undo db
      (w.modify addr fun acct => { acct with suicided := true, balance := 0 }) = .ok w := by
  have found := World.accounts_of_live live
  have marked : (w.modify addr fun acct => { acct with suicided := true, balance := 0 }).live addr =
      some { account with suicided := true, balance := 0 } := by
    refine World.live_of_accounts ?_ ?_
    · rw [World.accounts_modify_self, found, Option.map_some]
    · exact (World.deleted_of_live live :)
  simp only [undo, marked]
  rw [World.modify_modify_of_back found rfl]

theorem undo_refundChange (gas : UInt64) :
    (refundChange w.refund).undo db (w.addRefund gas) = .ok w :=
  rfl

theorem undo_refundChange_sub {lowered : World} (gas : UInt64)
    (subtracted : w.subRefund gas = .ok lowered) :
    (refundChange w.refund).undo db lowered = .ok w := by
  unfold World.subRefund at subtracted
  split_ifs at subtracted
  cases subtracted
  rfl

theorem undo_addLogChange (log : Log) :
    (addLogChange w.thash).undo db (w.addLog log) = .ok w := by
  have restored : w.logSize + 1 - 1 = w.logSize := UInt64.add_sub_cancel _ _
  simp only [undo, World.addLog, Function.update_self, List.length_append, List.length_singleton]
  split_ifs with single empty
  · -- the log was the first of the transaction
    have none : w.logs w.thash = [] := List.length_eq_zero_iff.mp (by omega)
    rw [Function.update_idem, ← none, Function.update_eq_self, restored]
  · omega
  · rw [Function.update_idem, List.dropLast_concat, Function.update_eq_self, restored]

theorem undo_addPreimageChange (hash : Hash) (preimage : List UInt8)
    (absent : w.preimages hash = none) :
    (addPreimageChange hash).undo db
      { w with preimages := Function.update w.preimages hash (some preimage) } = .ok w := by
  simp only [undo, Function.update_idem]
  rw [← absent, Function.update_eq_self]

theorem undo_transientStorageChange (key value : Hash) :
    (transientStorageChange addr key (w.transientStorage addr key)).undo db
      (w.setTransientState addr key value) = .ok w := by
  simp only [undo, World.setTransientState, Function.update_self, Function.update_idem,
    Function.update_eq_self]

/-- The undo of a creation over no account, on any account the address was given since. -/
theorem undo_createObjectChange
    (absent : w.accounts addr = none)
    (uncommitted : w.committed db addr = none)
    (created : Option Account) :
    (createObjectChange addr).undo db
      { w with accounts := Function.update w.accounts addr created } = .ok w := by
  have same : ({ w with accounts := Function.update w.accounts addr created } : World).committed db addr =
      w.committed db addr := rfl
  simp only [undo, same, uncommitted, Function.update_idem]
  rw [← absent, Function.update_eq_self]

/--
The undo of a creation over an object, on any account the address was given
since and the address marked destructed: the object and its old flag return.
-/
theorem undo_resetObjectChange
    {prev : StateObject}
    (address : prev.address = addr)
    (found : w.accounts addr = some (prev.account db (w.destructed addr)))
    (created : Option Account) :
    (resetObjectChange addr prev (w.destructed addr)).undo db
      { w with
        accounts := Function.update w.accounts addr created
        destructed := Function.update w.destructed addr true } = .ok w := by
  subst address
  cases flag : w.destructed prev.address with
  | false =>
      -- the flag is cleared again
      have cleared : Function.update w.destructed prev.address false = w.destructed := by
        rw [Function.update_eq_self_iff, flag]
      simp only [undo, flag, Bool.not_false, if_true, Function.update_idem, cleared]
      rw [← flag, ← found, Function.update_eq_self]
  | true =>
      have kept : Function.update w.destructed prev.address true = w.destructed := by
        rw [Function.update_eq_self_iff, flag]
      simp only [undo, flag, Bool.not_true, Bool.false_eq_true, if_false, Function.update_idem, kept]
      rw [← flag, ← found, Function.update_eq_self]

end JournalEntry

/-! ## States undone back to earlier ones -/

/--
The journal of a later state extends that of an earlier one by entries whose
undo, on the later world, gives the earlier world.
-/
def JournalsBack (db : Database) (s t : StateDB) : Prop :=
  ∃ entries, t.journal = s.journal ++ entries ∧ undoAll db entries (t.world db) = .ok (s.world db)

namespace JournalsBack

variable {db : Database} {s t u : StateDB}

theorem refl (s : StateDB) : JournalsBack db s s :=
  ⟨[], (List.append_nil _).symm, rfl⟩

theorem trans (first : JournalsBack db s t) (second : JournalsBack db t u) :
    JournalsBack db s u := by
  obtain ⟨entries, journal, undone⟩ := first
  obtain ⟨entries', journal', undone'⟩ := second
  refine ⟨entries ++ entries', ?_, ?_⟩
  · rw [journal', journal, List.append_assoc]
  · -- the later entries are undone first, back to the middle state
    rw [undoAll_append, undone']
    exact undone

end JournalsBack

/-- A later state that keeps the revisions of an earlier one and journals back to it. -/
structure Undone (db : Database) (s t : StateDB) : Prop where
  revisions : t.validRevisions = s.validRevisions
  nextRevisionId : t.nextRevisionId = s.nextRevisionId
  back : JournalsBack db s t

namespace Undone

variable {db : Database} {s t u : StateDB}

theorem refl (s : StateDB) : Undone db s s :=
  ⟨rfl, rfl, JournalsBack.refl s⟩

theorem trans (first : Undone db s t) (second : Undone db t u) : Undone db s u :=
  ⟨second.revisions.trans first.revisions, second.nextRevisionId.trans first.nextRevisionId,
    first.back.trans second.back⟩

/-- A state that differs from another in its caches only is undone back to it. -/
theorem of_world
    (revisions : t.validRevisions = s.validRevisions)
    (next : t.nextRevisionId = s.nextRevisionId)
    (journal : t.journal = s.journal)
    (world : t.world db = s.world db) :
    Undone db s t :=
  ⟨revisions, next, [], by rw [journal, List.append_nil], by rw [world]; rfl⟩

/-- A state one entry further, whose undo restores the world. -/
theorem single
    {entry : JournalEntry}
    (revisions : t.validRevisions = s.validRevisions)
    (next : t.nextRevisionId = s.nextRevisionId)
    (journal : t.journal = s.journal ++ [entry])
    (undo : entry.undo db (t.world db) = .ok (s.world db)) :
    Undone db s t :=
  ⟨revisions, next, [entry], journal, by rw [undoAll_singleton]; exact undo⟩

end Undone

/-! ## The objects -/

namespace StateDB

variable {db : Database}

theorem undone_getDeletedStateObject (s : StateDB) (addr : Address) :
    Undone db s (s.getDeletedStateObject db addr).2 := by
  obtain ⟨objects, keyed, loaded⟩ := @getDeletedStateObject_snd db s addr
  have world := @world_getDeletedStateObject_snd db s addr
  rw [loaded] at world ⊢
  exact Undone.of_world rfl rfl rfl world

theorem undone_getStateObject (s : StateDB) (addr : Address) :
    Undone db s (s.getStateObject db addr).2 := by
  rw [getStateObject_eq]
  exact undone_getDeletedStateObject s addr

/--
createObject appends one entry, whose undo gives back the world from before
whatever account the address was given after the creation.
-/
theorem createObject_journal (s : StateDB) (addr : Address) :
    ∃ entry,
      (s.createObject db addr).2.2.journal = s.journal ++ [entry] ∧
      (s.createObject db addr).2.2.validRevisions = s.validRevisions ∧
      (s.createObject db addr).2.2.nextRevisionId = s.nextRevisionId ∧
      ∀ created,
        entry.undo db
          { (s.world db).createObject addr with
            accounts := Function.update ((s.world db).createObject addr).accounts addr created } =
          .ok (s.world db) := by
  have account := @getDeletedStateObject_account db s addr
  obtain ⟨objects, keyed, loadedEq⟩ := @getDeletedStateObject_snd db s addr
  rcases found : s.getDeletedStateObject db addr with ⟨_ | prev, loaded⟩
  · -- over no account: the creation is journaled
    have absent : (s.getDeletedStateObject db addr).1 = none := by rw [found]
    have accounts : (s.world db).accounts addr = none := by rw [← account, absent]; rfl
    have uncommitted : (s.world db).committed db addr = none := by
      rw [getDeletedStateObject_fst] at absent
      split at absent
      · cases absent
      · simp [World.committed, Option.map_eq_none_iff.mp absent]
    rw [createObject_of_none absent]
    refine ⟨.createObjectChange addr, rfl, rfl, rfl, fun created => ?_⟩
    simp only [World.createObject, accounts, Option.isSome_none, Bool.false_eq_true, if_false,
      Function.update_idem]
    exact JournalEntry.undo_createObjectChange accounts uncommitted created
  · -- over an object: the object is journaled with the address's destructed flag
    have address : prev.address = addr := getDeletedStateObject_address (congrArg Prod.fst found)
    rw [found] at account loadedEq
    dsimp only at account loadedEq
    subst loadedEq
    rw [createObject_of_some found]
    refine ⟨.resetObjectChange addr prev (s.stateObjectsDestruct addr), ?_, ?_, ?_, fun created => ?_⟩
    · split_ifs <;> rfl
    · split_ifs <;> rfl
    · split_ifs <;> rfl
    · simp only [World.createObject, ← account, Function.update_idem]
      exact JournalEntry.undo_resetObjectChange address account.symm created

theorem undone_createObject (s : StateDB) (addr : Address) :
    Undone db s (s.createObject db addr).2.2 := by
  obtain ⟨entry, journal, revisions, next, undo⟩ := @createObject_journal db s addr
  apply Undone.single revisions next journal
  have fresh : ((s.world db).createObject addr).accounts addr = some World.fresh := by
    simp [World.createObject]
  rw [world_createObject, ← undo (some World.fresh), ← fresh, Function.update_eq_self]

theorem undone_getOrNewStateObject (s : StateDB) (addr : Address) :
    Undone db s (s.getOrNewStateObject db addr).2 := by
  have loaded := @undone_getStateObject db s addr
  unfold getOrNewStateObject
  rcases found : s.getStateObject db addr with ⟨_ | obj, t⟩
  · rw [found] at loaded
    exact loaded.trans (undone_createObject t addr)
  · rw [found] at loaded
    exact loaded

end StateDB

/-! ## The methods of an object -/

namespace StateObject

variable {db : Database} {s : StateDB} {addr : Address} {obj : StateObject}

theorem Code_snd_data (obj : StateObject) : (obj.Code db).2.data = obj.data := by
  rcases Code_snd obj with same | cached
  · rw [same]
  · rw [cached]

theorem Code_snd_address (obj : StateObject) : (obj.Code db).2.address = obj.address := by
  rcases Code_snd obj with same | cached
  · rw [same]
  · rw [cached]

theorem undone_SetBalance (holds : s.Holds db addr obj) (amount : Int) :
    Undone db s (obj.SetBalance s amount) := by
  refine Undone.single rfl rfl rfl ?_
  rw [world_SetBalance holds, holds.1]
  exact JournalEntry.undo_balanceChange holds.2 amount

/-- A touch journals an entry whose undo changes nothing. -/
theorem undone_touch (obj : StateObject) (s : StateDB) : Undone db s (obj.touch s) :=
  Undone.single rfl rfl rfl (by rw [touch, StateDB.world_journalAppend]; rfl)

theorem undone_AddBalance (holds : s.Holds db addr obj) (amount : Int) :
    Undone db s (obj.AddBalance s amount) := by
  unfold AddBalance
  split_ifs
  · exact undone_touch obj s
  · exact Undone.refl s
  · exact undone_SetBalance holds _

theorem undone_SubBalance (holds : s.Holds db addr obj) (amount : Int) :
    Undone db s (obj.SubBalance s amount) := by
  unfold SubBalance
  split_ifs
  · exact Undone.refl s
  · exact undone_SetBalance holds _

theorem undone_SetNonce (holds : s.Holds db addr obj) (nonce : UInt64) :
    Undone db s (obj.SetNonce s nonce) := by
  refine Undone.single rfl rfl rfl ?_
  rw [world_SetNonce holds, holds.1]
  exact JournalEntry.undo_nonceChange holds.2 nonce

/-- SetCode journals the code it loads first, which is the code the account has. -/
theorem undone_SetCode (holds : s.Holds db addr obj) (codeHash : Hash) (code : List UInt8) :
    Undone db s (obj.SetCode db s codeHash code) := by
  refine Undone.single rfl rfl
    (show _ = s.journal ++
      [.codeChange (obj.Code db).2.address (obj.Code db).1 (obj.Code db).2.data.codeHash] from rfl) ?_
  rw [world_SetCode holds, Code_snd_address, Code_snd_data, holds.1]
  exact JournalEntry.undo_codeChange holds.2 codeHash code

/-- SetState journals the slot it reads first, unless it already holds the value. -/
theorem undone_SetState (holds : s.Holds db addr obj) (key value : Hash) :
    Undone db s (obj.SetState db s key value) := by
  have world := world_SetState holds key value
  have loaded := holds_getState_snd holds key
  have read : (obj.account db (s.stateObjectsDestruct addr)).storage key =
      (obj.getState db (s.stateObjectsDestruct addr) key).1 := rfl
  unfold SetState at world ⊢
  rw [holds.1] at world ⊢
  generalize obj.getState db (s.stateObjectsDestruct addr) key = result at world loaded read
  obtain ⟨prev, cached⟩ := result
  dsimp only at world loaded read ⊢
  split_ifs at world ⊢ with same
  · -- only the read cache is stored
    refine Undone.of_world rfl rfl rfl ?_
    rw [world]
    apply World.modify_eq_self
    intro account found
    rw [World.accounts_of_live holds.2, Option.some.injEq] at found
    subst found
    rw [Function.update_eq_self_iff.mpr (read.trans same).symm]
  · refine Undone.single rfl rfl rfl ?_
    rw [world, loaded.1, ← read]
    exact JournalEntry.undo_storageChange holds.2 key value

end StateObject

/-! ## The modifications of a StateDB -/

namespace StateDB

variable {db : Database}

theorem undone_addBalance (s : StateDB) (addr : Address) (amount : Int) :
    Undone db s (s.addBalance db addr amount) :=
  (undone_getOrNewStateObject s addr).trans
    (StateObject.undone_AddBalance (holds_getOrNewStateObject s addr) amount)

theorem undone_subBalance (s : StateDB) (addr : Address) (amount : Int) :
    Undone db s (s.subBalance db addr amount) :=
  (undone_getOrNewStateObject s addr).trans
    (StateObject.undone_SubBalance (holds_getOrNewStateObject s addr) amount)

theorem undone_setBalance (s : StateDB) (addr : Address) (amount : Int) :
    Undone db s (s.setBalance db addr amount) :=
  (undone_getOrNewStateObject s addr).trans
    (StateObject.undone_SetBalance (holds_getOrNewStateObject s addr) amount)

theorem undone_setNonce (s : StateDB) (addr : Address) (nonce : UInt64) :
    Undone db s (s.setNonce db addr nonce) :=
  (undone_getOrNewStateObject s addr).trans
    (StateObject.undone_SetNonce (holds_getOrNewStateObject s addr) nonce)

theorem undone_setCode (keccak256Hash : List UInt8 → Hash) (s : StateDB) (addr : Address)
    (code : List UInt8) :
    Undone db s (s.setCode db keccak256Hash addr code) :=
  (undone_getOrNewStateObject s addr).trans
    (StateObject.undone_SetCode (holds_getOrNewStateObject s addr) (keccak256Hash code) code)

theorem undone_setState (s : StateDB) (addr : Address) (key value : Hash) :
    Undone db s (s.setState db addr key value) :=
  (undone_getOrNewStateObject s addr).trans
    (StateObject.undone_SetState (holds_getOrNewStateObject s addr) key value)

/-- CreateAccount journals nothing beyond createObject: the carried balance goes with its entry. -/
theorem createAccount_bookkeeping (s : StateDB) (addr : Address) :
    (s.createAccount db addr).journal = (s.createObject db addr).2.2.journal ∧
      (s.createAccount db addr).validRevisions = (s.createObject db addr).2.2.validRevisions ∧
      (s.createAccount db addr).nextRevisionId = (s.createObject db addr).2.2.nextRevisionId := by
  unfold createAccount
  generalize s.createObject db addr = result
  obtain ⟨newObj, prev, t⟩ := result
  cases prev <;> exact ⟨rfl, rfl, rfl⟩

theorem undone_createAccount (s : StateDB) (addr : Address) :
    Undone db s (s.createAccount db addr) := by
  obtain ⟨entry, journal, revisions, next, undo⟩ := @createObject_journal db s addr
  obtain ⟨journal', revisions', next'⟩ := @createAccount_bookkeeping db s addr
  apply Undone.single (revisions'.trans revisions) (next'.trans next) (journal'.trans journal)
  rw [world_createAccount, World.createAccount]
  split
  · exact undo _
  · rw [← undo (((s.world db).createObject addr).accounts addr), Function.update_eq_self]

theorem undone_suicide (s : StateDB) (addr : Address) : Undone db s (s.suicide db addr).2 := by
  have loaded := @undone_getStateObject db s addr
  have holds := @holds_getStateObject db s addr
  unfold suicide
  rcases found : s.getStateObject db addr with ⟨_ | obj, t⟩
  · rw [found] at loaded
    exact loaded
  · rw [found] at loaded holds
    refine loaded.trans (Undone.single rfl rfl rfl ?_)
    have stored :
        ((t.journalAppend (.suicideChange addr obj.suicided obj.data.balance)).setStateObject
            (obj.markSuicided.setBalance 0)).world db =
          (t.world db).modify addr fun account => { account with suicided := true, balance := 0 } :=
      StateObject.world_journal_store (holds rfl) _ (obj.markSuicided.setBalance 0) (holds rfl).1
        (by simp only [StateObject.account_setBalance, StateObject.account_markSuicided])
    rw [stored]
    exact JournalEntry.undo_suicideChange (holds rfl).2

theorem undone_addRefund (s : StateDB) (gas : UInt64) : Undone db s (s.addRefund gas) :=
  Undone.single rfl rfl rfl (by rw [world_addRefund]; exact JournalEntry.undo_refundChange gas)

theorem undone_subRefund {s t : StateDB} {gas : UInt64} (subtracted : s.subRefund gas = .ok t) :
    Undone db s t := by
  have world := @world_subRefund db s gas
  rw [subtracted] at world
  unfold subRefund at subtracted
  dsimp only at subtracted
  split_ifs at subtracted
  cases subtracted
  exact Undone.single rfl rfl rfl (JournalEntry.undo_refundChange_sub gas world.symm)

theorem undone_addLog (s : StateDB) (log : Log) : Undone db s (s.addLog log) :=
  Undone.single rfl rfl rfl (by rw [world_addLog]; exact JournalEntry.undo_addLogChange log)

theorem undone_addPreimage (s : StateDB) (hash : Hash) (preimage : List UInt8) :
    Undone db s (s.addPreimage hash preimage) := by
  have world := @world_addPreimage db s hash preimage
  cases absent : s.preimages hash with
  | some kept =>
      -- only the first preimage of a hash is kept
      have same : s.addPreimage hash preimage = s := by
        unfold addPreimage
        rw [absent]
      rw [same]
      exact Undone.refl s
  | none =>
      have added : s.addPreimage hash preimage =
          { s.journalAppend (.addPreimageChange hash) with
            preimages := Function.update s.preimages hash (some preimage) } := by
        unfold addPreimage
        rw [absent]
        rfl
      apply Undone.single (by rw [added]; rfl) (by rw [added]; rfl) (by rw [added]; rfl)
      rw [world, World.addPreimage, show (s.world db).preimages hash = none from absent]
      exact JournalEntry.undo_addPreimageChange hash preimage absent

theorem undone_SetTransientState (s : StateDB) (addr : Address) (key value : Hash) :
    Undone db s (s.SetTransientState addr key value) := by
  have world := @world_SetTransientState db s addr key value
  by_cases same : s.getTransientState addr key = value
  · -- a write of the value the slot holds is skipped
    have unchanged : s.SetTransientState addr key value = s := by
      unfold SetTransientState
      exact if_pos same
    rw [unchanged]
    exact Undone.refl s
  · have written : s.SetTransientState addr key value =
        (s.journalAppend (.transientStorageChange addr key (s.getTransientState addr key))).setTransientState
          addr key value := by
      unfold SetTransientState
      exact if_neg same
    apply Undone.single (by rw [written]; rfl) (by rw [written]; rfl) (by rw [written]; rfl)
    rw [world]
    exact JournalEntry.undo_transientStorageChange key value

end StateDB

/-- Snapshot and RevertToSnapshot move the revisions; every other call is journaled. -/
def Call.journaled : Call → Bool
  | .snapshot => false
  | .revertToSnapshot _ => false
  | _ => true

/-- Every journaled call is undone back to the state before it. -/
theorem Call.undone_apply
    {db : Database}
    {keccak256Hash : List UInt8 → Hash}
    {s t : StateDB}
    {call : Call}
    (journaled : call.journaled = true)
    (applied : call.apply db keccak256Hash s = .ok t) :
    Undone db s t := by
  cases call with
  | createAccount addr =>
      cases applied
      exact StateDB.undone_createAccount s addr
  | addBalance addr amount =>
      cases applied
      exact StateDB.undone_addBalance s addr amount
  | subBalance addr amount =>
      cases applied
      exact StateDB.undone_subBalance s addr amount
  | setBalance addr amount =>
      cases applied
      exact StateDB.undone_setBalance s addr amount
  | setNonce addr nonce =>
      cases applied
      exact StateDB.undone_setNonce s addr nonce
  | setCode addr code =>
      cases applied
      exact StateDB.undone_setCode keccak256Hash s addr code
  | setState addr key value =>
      cases applied
      exact StateDB.undone_setState s addr key value
  | suicide addr =>
      cases applied
      exact StateDB.undone_suicide s addr
  | addRefund gas =>
      cases applied
      exact StateDB.undone_addRefund s gas
  | subRefund gas => exact StateDB.undone_subRefund applied
  | addLog log =>
      cases applied
      exact StateDB.undone_addLog s log
  | addPreimage hash preimage =>
      cases applied
      exact StateDB.undone_addPreimage s hash preimage
  | setTransientState addr key value =>
      cases applied
      exact StateDB.undone_SetTransientState s addr key value
  | snapshot => cases journaled
  | revertToSnapshot revid => cases journaled

/-! ## Finding and reverting to a revision -/

namespace StateDB

variable {db : Database} {s : StateDB}

theorem world_withRevisions (data bookkeeping : StateDB) :
    (data.withRevisions bookkeeping).world db = data.world db := by
  rw [world_eq, world_eq]
  rfl

/-- Of two valid revisions, the one earlier in the list is the older. -/
theorem ordered_of_getElem?
    {i j : Nat}
    {earlier later : Revision}
    (before : i < j)
    (first : s.validRevisions[i]? = some earlier)
    (second : s.validRevisions[j]? = some later) :
    earlier.Ordered later := by
  obtain ⟨iBound, atFirst⟩ := List.getElem?_eq_some_iff.mp first
  obtain ⟨jBound, atSecond⟩ := List.getElem?_eq_some_iff.mp second
  have ordered := List.pairwise_iff_getElem.mp s.revisions_ordered i j iBound jBound before
  rw [atFirst, atSecond] at ordered
  exact ordered

/-- The predicate sort.Search is given holds from the first revision with a large enough id on. -/
theorem search_monotone (s : StateDB) (revid : Int) :
    SortSearch.MonotoneBelow s.validRevisions.length
      fun i => decide ((s.validRevisions.getD i ⟨0, 0⟩).id ≥ revid) := by
  intro k l le bound holds
  rw [decide_eq_true_iff, List.getD_eq_getElem?_getD] at holds ⊢
  obtain ⟨later, second⟩ : ∃ later, s.validRevisions[l]? = some later :=
    Option.isSome_iff_exists.mp (by simp [bound])
  obtain ⟨earlier, first⟩ : ∃ earlier, s.validRevisions[k]? = some earlier :=
    Option.isSome_iff_exists.mp (by simp; omega)
  rw [first, Option.getD_some] at holds
  rw [second, Option.getD_some]
  rcases Nat.lt_or_eq_of_le le with before | same
  · exact le_trans holds (le_of_lt (ordered_of_getElem? before first second).1)
  · subst same
    rw [first, Option.some.injEq] at second
    rw [← second]
    exact holds

/-- sort.Search over the valid revisions finds a revision by its id. -/
theorem search_revision
    {index : Nat}
    {target : Revision}
    (found : s.validRevisions[index]? = some target) :
    SortSearch.search s.validRevisions.length
        (fun i => decide ((s.validRevisions.getD i ⟨0, 0⟩).id ≥ target.id)) = index := by
  obtain ⟨bound, -⟩ := List.getElem?_eq_some_iff.mp found
  apply SortSearch.search_eq_of_first (search_monotone s target.id) bound
  · simp [List.getD_eq_getElem?_getD, found]
  · intro k before
    obtain ⟨earlier, first⟩ : ∃ earlier, s.validRevisions[k]? = some earlier :=
      Option.isSome_iff_exists.mp (by simp; omega)
    have older := (ordered_of_getElem? before first found).1
    simp only [List.getD_eq_getElem?_getD, first, Option.getD_some, decide_eq_false_iff_not]
    omega

/-- A successful RevertToSnapshot undid the journal back to a valid revision of the id. -/
theorem revertToSnapshot_eq_ok
    {t : StateDB}
    {revid : Int}
    (reverted : s.revertToSnapshot db revid = .ok t) :
    ∃ index target, s.validRevisions[index]? = some target ∧ target.id = revid ∧
      ∃ data, s.revertEntries db (s.journal.drop target.journalIndex) = .ok data ∧
        t.journal = s.journal.take target.journalIndex ∧
        t.validRevisions = s.validRevisions.take index ∧
        t.world db = data.world db := by
  unfold revertToSnapshot at reverted
  dsimp only at reverted
  split at reverted
  · cases reverted
  · rename_i target found
    split_ifs at reverted with mismatch
    obtain ⟨data, undone, rfl⟩ := Runs.map_eq_ok reverted
    exact ⟨_, target, found, not_not.mp mismatch, data, undone, rfl, rfl, world_withRevisions _ _⟩

/-- RevertToSnapshot to the id of a valid revision undoes the journal back to it. -/
theorem revertToSnapshot_of_found
    {index : Nat}
    {target : Revision}
    (found : s.validRevisions[index]? = some target)
    {data : StateDB}
    (undone : s.revertEntries db (s.journal.drop target.journalIndex) = .ok data) :
    ∃ t, s.revertToSnapshot db target.id = .ok t ∧
      t.journal = s.journal.take target.journalIndex ∧
      t.validRevisions = s.validRevisions.take index ∧
      t.world db = data.world db := by
  have searched := search_revision found
  unfold revertToSnapshot
  dsimp only
  split
  · rename_i missing
    rw [searched, found] at missing
    cases missing
  · rename_i target' found'
    have same : some target = some target' := by rw [← found, ← searched, found']
    cases same
    rw [if_neg (not_not.mpr rfl), undone]
    refine ⟨_, rfl, rfl, ?_, world_withRevisions _ _⟩
    show s.validRevisions.take _ = _
    rw [searched]

/-- RevertToSnapshot to an id no valid revision reaches panics. -/
theorem revertToSnapshot_of_all_before
    {revid : Int}
    (before : ∀ revision ∈ s.validRevisions, revision.id < revid) :
    ∃ failure, s.revertToSnapshot db revid = .error failure := by
  unfold revertToSnapshot
  dsimp only
  split
  · exact ⟨_, rfl⟩
  · rename_i target found
    rw [if_pos (ne_of_lt (before target (List.mem_of_getElem? found)))]
    exact ⟨_, rfl⟩

theorem world_snapshot (s : StateDB) : s.snapshot.2.world db = s.world db := by
  rw [world_eq, world_eq]
  rfl

end StateDB

/-! ## What the queries see -/

/-- Two states answer every query alike. -/
structure SameQueries (db : Database) (s t : StateDB) : Prop where
  exist : ∀ addr, (s.exist db addr).1 = (t.exist db addr).1
  empty : ∀ addr, (s.empty db addr).1 = (t.empty db addr).1
  getBalance : ∀ addr, (s.getBalance db addr).1 = (t.getBalance db addr).1
  getNonce : ∀ addr, (s.getNonce db addr).1 = (t.getNonce db addr).1
  getCode : ∀ addr, (s.getCode db addr).1 = (t.getCode db addr).1
  getCodeHash : ∀ addr, (s.getCodeHash db addr).1 = (t.getCodeHash db addr).1
  getState : ∀ addr key, (s.getState db addr key).1 = (t.getState db addr key).1
  hasSuicided : ∀ addr, (s.hasSuicided db addr).1 = (t.hasSuicided db addr).1
  getRefund : s.getRefund = t.getRefund
  getTransientState : ∀ addr key, s.getTransientState addr key = t.getTransientState addr key
  getLogs : ∀ hash, s.getLogs hash = t.getLogs hash
  logSize : s.logSize = t.logSize
  preimages : s.preimages = t.preimages

/-- States that stand for one world answer every query alike. -/
theorem sameQueries_of_world {db : Database} {s t : StateDB} (same : s.world db = t.world db) :
    SameQueries db s t where
  exist addr := by rw [StateDB.exist_fst, StateDB.exist_fst, same]
  empty addr := by rw [StateDB.empty_fst, StateDB.empty_fst, same]
  getBalance addr := by rw [StateDB.getBalance_fst, StateDB.getBalance_fst, same]
  getNonce addr := by rw [StateDB.getNonce_fst, StateDB.getNonce_fst, same]
  getCode addr := by rw [StateDB.getCode_fst, StateDB.getCode_fst, same]
  getCodeHash addr := by rw [StateDB.getCodeHash_fst, StateDB.getCodeHash_fst, same]
  getState addr key := by rw [StateDB.getState_fst, StateDB.getState_fst, same]
  hasSuicided addr := by rw [StateDB.hasSuicided_fst, StateDB.hasSuicided_fst, same]
  getRefund := congrArg World.refund same
  getTransientState addr key := congrFun (congrFun (congrArg World.transientStorage same) addr) key
  getLogs hash := congrFun (congrArg World.logs same) hash
  logSize := congrArg World.logSize same
  preimages := congrArg World.preimages same

/-! ## The run after a snapshot -/

/--
A state reached after the snapshot of s: the snapshot's revision is valid
right behind those of s, and the journal leads back to the world of s.
-/
structure AfterSnapshot (db : Database) (s t : StateDB) : Prop where
  revisions :
    ∃ later, t.validRevisions = s.validRevisions ++ ⟨s.nextRevisionId, s.journal.length⟩ :: later
  back : JournalsBack db s t

namespace AfterSnapshot

variable {db : Database} {s t u : StateDB}

theorem start (s : StateDB) : AfterSnapshot db s s.snapshot.2 where
  revisions := ⟨[], rfl⟩
  back := ⟨[], (List.append_nil _).symm, by rw [StateDB.world_snapshot]; rfl⟩

theorem of_undone (after : AfterSnapshot db s t) (next : Undone db t u) : AfterSnapshot db s u where
  revisions := by
    rw [next.revisions]
    exact after.revisions
  back := after.back.trans next.back

/-- A nested snapshot records its revision behind the others. -/
theorem snapshot (after : AfterSnapshot db s t) : AfterSnapshot db s t.snapshot.2 where
  revisions := by
    obtain ⟨later, revisions⟩ := after.revisions
    refine ⟨later ++ [⟨t.nextRevisionId, t.journal.length⟩], ?_⟩
    show t.validRevisions ++ _ = _
    rw [revisions, List.append_assoc, List.cons_append]
  back := by
    obtain ⟨entries, journal, undone⟩ := after.back
    exact ⟨entries, journal, by rw [StateDB.world_snapshot]; exact undone⟩

/--
A nested revert, to a revision taken after the snapshot, undoes a suffix of
the entries appended since; the rest still lead back to the snapshot.
-/
theorem revert
    (after : AfterSnapshot db s t)
    {revid : Int}
    (nested : s.nextRevisionId < revid)
    (reverted : t.revertToSnapshot db revid = .ok u) :
    AfterSnapshot db s u := by
  obtain ⟨later, revisions⟩ := after.revisions
  obtain ⟨entries, journal, undone⟩ := after.back
  obtain ⟨index, target, found, named, data, undoneTo, journal', revisions', world'⟩ :=
    StateDB.revertToSnapshot_eq_ok reverted
  -- the revision is neither one of s, issued before the snapshot, nor the snapshot's
  have behind : s.validRevisions.length < index := by
    by_contra notBehind
    rcases Nat.lt_or_eq_of_le (not_lt.mp notBehind) with before | atSnapshot
    · rw [revisions, List.getElem?_append_left before] at found
      have issued := s.revisions_issued target (List.mem_of_getElem? found)
      omega
    · rw [revisions, atSnapshot, List.getElem?_append_right le_rfl, Nat.sub_self,
        List.getElem?_cons_zero, Option.some.injEq] at found
      rw [← found] at named
      exact absurd named (ne_of_lt nested)
  obtain ⟨k, rfl⟩ : ∃ k, index = s.validRevisions.length + (k + 1) := ⟨index - s.validRevisions.length - 1, by omega⟩
  have taken : later[k]? = some target := by
    rw [revisions, List.getElem?_append_right (by omega), Nat.add_sub_cancel_left,
      List.getElem?_cons_succ] at found
    exact found
  -- so it was taken after the snapshot, when the journal was at least as long
  have within : s.journal.length ≤ target.journalIndex := by
    have ordered := t.revisions_ordered
    rw [revisions, List.pairwise_append, List.pairwise_cons] at ordered
    exact (ordered.2.1.1 target (List.mem_of_getElem? taken)).2
  have dropped : t.journal.drop target.journalIndex =
      entries.drop (target.journalIndex - s.journal.length) := by
    rw [journal, List.drop_append, List.drop_of_length_le within, List.nil_append]
  have toData := @StateDB.world_revertEntries db (t.journal.drop target.journalIndex) t
  rw [undoneTo, dropped] at toData
  refine ⟨⟨later.take k, ?_⟩, ⟨entries.take (target.journalIndex - s.journal.length), ?_, ?_⟩⟩
  · rw [revisions', revisions, List.take_append, List.take_of_length_le (by omega),
      Nat.add_sub_cancel_left, List.take_succ_cons]
  · rw [journal', journal, List.take_append, List.take_of_length_le within]
  · -- the dropped entries were undone first, from the world of t to that of data
    rw [← List.take_append_drop (target.journalIndex - s.journal.length) entries, undoAll_append,
      ← toData] at undone
    rw [world']
    exact undone

/-- Snapshot and RevertToSnapshot to a later revision keep the run after the snapshot; so does every journaled call. -/
theorem step
    {keccak256Hash : List UInt8 → Hash}
    {call : Call}
    (after : AfterSnapshot db s t)
    (nested : ∀ revid, call = .revertToSnapshot revid → s.nextRevisionId < revid)
    (applied : call.apply db keccak256Hash t = .ok u) :
    AfterSnapshot db s u := by
  cases journaled : call.journaled
  · -- Snapshot or RevertToSnapshot
    cases call with
    | snapshot =>
        cases applied
        exact after.snapshot
    | revertToSnapshot revid => exact after.revert (nested revid rfl) applied
    | _ => cases journaled
  · exact after.of_undone (Call.undone_apply journaled applied)

/-- RevertToSnapshot to the snapshot undoes every entry appended since. -/
theorem revert_snapshot (after : AfterSnapshot db s t) :
    ∃ u, t.revertToSnapshot db s.nextRevisionId = .ok u ∧ u.world db = s.world db ∧
      u.journal = s.journal ∧ u.validRevisions = s.validRevisions := by
  obtain ⟨later, revisions⟩ := after.revisions
  obtain ⟨entries, journal, undone⟩ := after.back
  have found : t.validRevisions[s.validRevisions.length]? =
      some ⟨s.nextRevisionId, s.journal.length⟩ := by
    rw [revisions, List.getElem?_append_right le_rfl, Nat.sub_self, List.getElem?_cons_zero]
  have toSnapshot := @StateDB.world_revertEntries db entries t
  rw [undone] at toSnapshot
  obtain ⟨data, undoneTo, world⟩ := Runs.map_eq_ok toSnapshot
  have dropped : t.journal.drop s.journal.length = entries := by
    rw [journal, List.drop_left]
  obtain ⟨u, revertedTo, journal', revisions', world'⟩ :=
    StateDB.revertToSnapshot_of_found found (show t.revertEntries db (t.journal.drop s.journal.length) = .ok data by
      rw [dropped]
      exact undoneTo)
  refine ⟨u, revertedTo, world'.trans world, ?_, ?_⟩
  · rw [journal', journal]
    exact List.take_left
  · rw [revisions', revisions]
    exact List.take_left

end AfterSnapshot

/--
RevertToSnapshot restores what Snapshot saw: after the snapshot of any state,
any run of the calls the journal covers, with snapshots and reverts to them
nested inside, can be reverted to the snapshot, and the result answers every
query as the state did; the snapshot is consumed with every revision taken
after it, so a second revert to it panics.
-/
theorem revertToSnapshot_restores
    (db : Database)
    (keccak256Hash : List UInt8 → Hash)
    (s : StateDB)
    (calls : List Call)
    (final : StateDB)
    (nested : ∀ revid, Call.revertToSnapshot revid ∈ calls → s.snapshot.1 < revid)
    (ran : Runs.run (Call.apply db keccak256Hash) s.snapshot.2 calls = .ok final) :
    ∃ reverted, final.revertToSnapshot db s.snapshot.1 = .ok reverted ∧
      SameQueries db reverted s ∧
      reverted.journal = s.journal ∧
      reverted.validRevisions = s.validRevisions ∧
      ∀ revid, s.snapshot.1 ≤ revid → ∃ failure, reverted.revertToSnapshot db revid = .error failure := by
  have after : AfterSnapshot db s final := by
    refine Runs.invariant_of_run_of_mem (AfterSnapshot db s) ?_ (AfterSnapshot.start s) ran
    intro t call u member afterT applied
    refine afterT.step ?_ applied
    intro revid isRevert
    subst isRevert
    exact nested revid member
  obtain ⟨reverted, revertedTo, world, journal, revisions⟩ := after.revert_snapshot
  refine ⟨reverted, revertedTo, sameQueries_of_world world, journal, revisions, ?_⟩
  intro revid atLeast
  apply StateDB.revertToSnapshot_of_all_before
  intro revision member
  rw [revisions] at member
  exact lt_of_lt_of_le (s.revisions_issued revision member) atLeast

theorem revertToSnapshot_restores_nested :
    ∃ final,
      Runs.run (Call.apply Database.empty fun _ => Hash.zero) StateDB.new.snapshot.2
          [.addBalance ⟨1⟩ 5, .snapshot, .setState ⟨1⟩ ⟨2⟩ ⟨3⟩, .revertToSnapshot 1,
            .createAccount ⟨1⟩, .addRefund 21000] = .ok final ∧
      ∃ reverted, final.revertToSnapshot Database.empty StateDB.new.snapshot.1 = .ok reverted ∧
        SameQueries Database.empty reverted StateDB.new ∧
        reverted.journal = StateDB.new.journal ∧
        reverted.validRevisions = StateDB.new.validRevisions ∧
        ∀ revid, StateDB.new.snapshot.1 ≤ revid →
          ∃ failure, reverted.revertToSnapshot Database.empty revid = .error failure :=
  ⟨_, rfl,
    revertToSnapshot_restores Database.empty (fun _ => Hash.zero) StateDB.new
      [.addBalance ⟨1⟩ 5, .snapshot, .setState ⟨1⟩ ⟨2⟩ ⟨3⟩, .revertToSnapshot 1,
        .createAccount ⟨1⟩, .addRefund 21000] _
      (by
        intro revid member
        simp only [List.mem_cons, reduceCtorEq, Call.revertToSnapshot.injEq, List.not_mem_nil,
          false_or, or_false] at member
        subst member
        decide)
      rfl⟩

end State

end Kardia
