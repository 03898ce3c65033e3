import Kardia.ConsensusState

namespace Kardia

/-!
# Validator set updates and proposer priorities

The model of the algorithms of types/validator_set.go that change a set:
updateWithChangeSet, behind NewValidatorSet and UpdateWithChangeSet, with
its helpers processChanges, verifyRemovals, verifyUpdates,
computeNewPriorities, applyUpdates and applyRemovals; and
IncrementProposerPriority with RescalePriorities, computeMaxMinPriorityDiff,
shiftByAvgProposerPriority and the one-round incrementProposerPriority.  Go
names both the exported and the unexported function of each pair, and so
does the model.  calculateValidatorSetUpdates of kai/state/cstate turns a
full list of validators into a change list.

Priorities and powers are int64.  The arithmetic the code checks is the
plain sum; the additions it does not check wrap, as wrapInt64 does.  sort.Sort
and sort.Slice are insertion sorts in the model: every list the code sorts
has distinct keys, where all sorts agree.  A validator is changed in place
through its pointer; the model replaces it at its index.  Proposer keeps
the validator as it was chosen: the later changes Go makes to it through
the same pointer are not modelled.

Panics carry their text, or the error NewValidatorSet panics with.  The
errors updateWithChangeSet returns carry the values their messages format.
-/

/-- math.MaxInt64. -/
def maxInt64 : Int :=
  9223372036854775807

/-- math.MinInt64. -/
def minInt64 : Int :=
  -9223372036854775808

/-- MaxTotalVotingPower. -/
def maxTotalVotingPower : Int :=
  maxInt64 / 8

/-- PriorityWindowSizeFactor. -/
def priorityWindowSizeFactor : Int :=
  2

/-- An int64 operation that wraps: the result in two's complement. -/
def wrapInt64 (value : Int) : Int :=
  value.bmod (2 ^ 64)

/-- safeAdd: the sum, or -1 and the overflow flag. -/
def safeAdd (a b : Int) : Int × Bool :=
  if b > 0 ∧ a > maxInt64 - b then
    (-1, true)
  else if b < 0 ∧ a < minInt64 - b then
    (-1, true)
  else
    (a + b, false)

/-- safeSub: the difference, or -1 and the overflow flag. -/
def safeSub (a b : Int) : Int × Bool :=
  if b > 0 ∧ a < minInt64 + b then
    (-1, true)
  else if b < 0 ∧ a > maxInt64 + b then
    (-1, true)
  else
    (a - b, false)

/-- safeAddClip: the sum, clipped to the int64 range. -/
def safeAddClip (a b : Int) : Int :=
  match safeAdd a b with
  | (_, true) => if b < 0 then minInt64 else maxInt64
  | (c, false) => c

/-- safeSubClip: the difference, clipped to the int64 range. -/
def safeSubClip (a b : Int) : Int :=
  match safeSub a b with
  | (_, true) => if b > 0 then minInt64 else maxInt64
  | (c, false) => c

/--
The errors updateWithChangeSet returns, with the values their messages
format: "duplicate entry %v in %v", "voting power can't be negative: %d",
"to prevent clipping/overflow, voting power can't be higher than %d, got
%d", "cannot process validators with voting power 0: %v", "failed to find
validator %X to remove", ErrTotalVotingPowerOverflow and "applying the
validator changes would result in empty set".
-/
inductive UpdateError where
  | duplicateEntry (valUpdate : Validator) (changes : List Validator)
  | negativePower (votingPower : Int)
  | powerAboveMax (votingPower : Int)
  | zeroPowerNotAllowed (deletes : List Validator)
  | removalNotFound (address : Address)
  | totalVotingPowerOverflow
  | emptySet
  deriving DecidableEq, Repr

/-- The panics of the validator set: a text, or the error NewValidatorSet panics with. -/
inductive ValidatorSetPanic where
  | message (text : String)
  | cannotCreate (reason : UpdateError)
  deriving DecidableEq, Repr

/-- sort.Sort(ValidatorsByAddress): ascending addresses. -/
def sortByAddress (validators : List Validator) : List Validator :=
  validators.insertionSort fun a b => a.address.val ≤ b.address.val

/-- sort.Sort(ValidatorsByVotingPower): descending powers, then ascending addresses. -/
def sortByVotingPower (validators : List Validator) : List Validator :=
  validators.insertionSort fun a b =>
    a.votingPower > b.votingPower ∨
      (a.votingPower = b.votingPower ∧ a.address.val ≤ b.address.val)

namespace ValidatorSet

/-! ## The total voting power -/

/--
updateTotalVotingPower: the clipped sum of the powers is cached, and a sum
above MaxTotalVotingPower panics.
-/
def updateTotalVotingPower (vs : ValidatorSet) : Except ValidatorSetPanic ValidatorSet :=
  let total : Except ValidatorSetPanic Int :=
    vs.validators.foldlM
      (fun sum val =>
        let sum := safeAddClip sum val.votingPower
        if sum > maxTotalVotingPower then
          .error (.message ("Total voting power should be guarded to not exceed " ++
            toString maxTotalVotingPower ++ "; got: " ++ toString sum))
        else
          .ok sum)
      0
  total.map fun sum => { vs with totalVotingPower := sum }

/-- TotalVotingPower with its cache write: a zero cache is recomputed first. -/
def refreshTotalVotingPower (vs : ValidatorSet) : Except ValidatorSetPanic (ValidatorSet × Int) :=
  if vs.totalVotingPower = 0 then
    (vs.updateTotalVotingPower).map fun vs => (vs, vs.totalVotingPower)
  else
    .ok (vs, vs.totalVotingPower)

/-! ## Priorities -/

/--
computeMaxMinPriorityDiff: the loop starts from the largest maximum and the
smallest minimum, and the difference is taken in int64.
-/
def computeMaxMinPriorityDiff (vals : ValidatorSet) : Except ValidatorSetPanic Int :=
  if vals.validators.isEmpty then
    .error (.message "empty validator set")
  else
    let (max, min) :=
      vals.validators.foldl
        (fun (max, min) v =>
          let min := if v.proposerPriority < min then v.proposerPriority else min
          let max := if v.proposerPriority > max then v.proposerPriority else max
          (max, min))
        (maxInt64, minInt64)
    let diff := wrapInt64 (max - min)
    if diff < 0 then .ok (wrapInt64 (-1 * diff)) else .ok diff

/-- RescalePriorities: every priority is divided by the ceiling of diff / diffMax when diff is larger. -/
def rescalePriorities (vs : ValidatorSet) (diffMax : Int) : Except ValidatorSetPanic ValidatorSet :=
  if vs.validators.isEmpty then
    .error (.message "empty validator set")
  else if diffMax ≤ 0 then
    .ok vs
  else
    (computeMaxMinPriorityDiff vs).map fun diff =>
      let ratio := (wrapInt64 (diff + diffMax - 1)).tdiv diffMax
      if diff > diffMax then
        { vs with
          validators := vs.validators.map fun val =>
            { val with proposerPriority := val.proposerPriority.tdiv ratio } }
      else
        vs

/--
computeAvgProposerPriority: the big.Int sum divided by the count, which
big.Int rounds down, and a panic for an average outside int64.
-/
def computeAvgProposerPriority (vs : ValidatorSet) : Except ValidatorSetPanic Int :=
  let n : Int := vs.validators.length
  let sum := (vs.validators.map Validator.proposerPriority).sum
  if n = 0 then
    .error (.message "division by zero")
  else
    let avg := sum / n
    if minInt64 ≤ avg ∧ avg ≤ maxInt64 then
      .ok avg
    else
      .error (.message ("Cannot represent avg ProposerPriority as an int64 " ++ toString avg))

/-- shiftByAvgProposerPriority: every priority less the average, clipped. -/
def shiftByAvgProposerPriority (vs : ValidatorSet) : Except ValidatorSetPanic ValidatorSet :=
  if vs.validators.isEmpty then
    .error (.message "empty validator set")
  else
    (computeAvgProposerPriority vs).map fun avg =>
      { vs with
        validators := vs.validators.map fun val =>
          { val with proposerPriority := safeSubClip val.proposerPriority avg } }

/--
getValWithMostPriority, with the index of the validator its pointer names:
CompareProposerPriority folded over the validators from nil.
-/
def getValWithMostPriority (vs : ValidatorSet) : Except ValidatorSetPanic (Option (Nat × Validator)) :=
  ((List.range vs.validators.length).zip vs.validators).foldlM
    (fun res (index, val) =>
      match Validator.compareProposerPriority (res.map Prod.snd) val with
      | .error text => .error (.message text)
      | .ok winner =>
          match res with
          | some (_, current) => if winner = current then .ok res else .ok (some (index, val))
          | none => .ok (some (index, val)))
    none

/--
incrementProposerPriority: every priority grows by its power without an
overflow check, and the validator with the most priority loses the total.
-/
def incrementProposerPriority (vs : ValidatorSet) :
    Except ValidatorSetPanic (ValidatorSet × Validator) := do
  let vs : ValidatorSet := { vs with
    validators := vs.validators.map fun (val : Validator) =>
      { val with proposerPriority := wrapInt64 (val.proposerPriority + val.votingPower) } }
  match ← vs.getValWithMostPriority with
  | none => .error (.message "invalid memory address or nil pointer dereference")
  | some (index, mostest) =>
      let (vs, total) ← vs.refreshTotalVotingPower
      let mostest := { mostest with proposerPriority := safeSubClip mostest.proposerPriority total }
      .ok ({ vs with validators := vs.validators.set index mostest }, mostest)

/-- The loop of IncrementProposerPriority: the given number of rounds and the last proposer. -/
def incrementRounds : Nat → ValidatorSet → Option Validator →
    Except ValidatorSetPanic (ValidatorSet × Option Validator)
  | 0, vs, proposer => .ok (vs, proposer)
  | rounds + 1, vs, _ => do
      let (vs, mostest) ← vs.incrementProposerPriority
      incrementRounds rounds vs (some mostest)

/--
IncrementProposerPriority: the priorities rescaled to the window and
centred, then the rounds, and the proposer of the last round.
-/
def IncrementProposerPriority (vs : ValidatorSet) (times : Int) :
    Except ValidatorSetPanic ValidatorSet := do
  if vs.validators.isEmpty then
    .error (.message "empty validator set")
  else if times ≤ 0 then
    .error (.message "Cannot call IncrementProposerPriority with non-positive times")
  else
    let (vs, total) ← vs.refreshTotalVotingPower
    let vs ← vs.rescalePriorities (wrapInt64 (priorityWindowSizeFactor * total))
    let vs ← vs.shiftByAvgProposerPriority
    let (vs, proposer) ← incrementRounds times.toNat vs none
    .ok { vs with proposer := proposer }

/-! ## Changes -/

/-- The loop of processChanges over the changes sorted by address. -/
def processChangesLoop :
    List Validator → List Validator → Address → List Validator → List Validator →
      Except UpdateError (List Validator × List Validator)
  | _, [], _, updates, removals => .ok (updates, removals)
  | changes, valUpdate :: rest, prevAddr, updates, removals =>
      if valUpdate.address = prevAddr then
        .error (.duplicateEntry valUpdate changes)
      else if valUpdate.votingPower < 0 then
        .error (.negativePower valUpdate.votingPower)
      else if valUpdate.votingPower > maxTotalVotingPower then
        .error (.powerAboveMax valUpdate.votingPower)
      else if valUpdate.votingPower = 0 then
        processChangesLoop changes rest valUpdate.address updates (removals ++ [valUpdate])
      else
        processChangesLoop changes rest valUpdate.address (updates ++ [valUpdate]) removals

/--
processChanges: the changes sorted by address and split into updates and
removals; prevAddr starts as the zero address.
-/
def processChanges (origChanges : List Validator) :
    Except UpdateError (List Validator × List Validator) :=
  let changes := sortByAddress origChanges
  processChangesLoop changes changes Address.empty [] []

/-- The power an update adds to the set: its change for a validator of the set. -/
def delta (vals : ValidatorSet) (update : Validator) : Int :=
  match (vals.getByAddress update.address).2 with
  | some val => update.votingPower - val.votingPower
  | none => update.votingPower

/--
verifyUpdates: the total after the removals, then after each update in the
order of their deltas, must stay within MaxTotalVotingPower; the total after
the updates and before the removals.  Reading the total may write its cache.
-/
def verifyUpdates (updates : List Validator) (vals : ValidatorSet) (removedPower : Int) :
    Except ValidatorSetPanic (ValidatorSet × Except UpdateError Int) := do
  let updatesCopy := updates.insertionSort fun a b => vals.delta a ≤ vals.delta b
  let (vals', total) ← vals.refreshTotalVotingPower
  let checked : Except UpdateError Int :=
    updatesCopy.foldlM
      (fun tvpAfterRemovals upd =>
        let tvpAfterRemovals := tvpAfterRemovals + vals.delta upd
        if tvpAfterRemovals > maxTotalVotingPower then
          .error .totalVotingPowerOverflow
        else
          .ok tvpAfterRemovals)
      (total - removedPower)
  .ok (vals', checked.map (· + removedPower))

/--
computeNewPriorities: a new validator starts at -(U + U >> 3) for the total
U after the updates and before the removals; a changed one keeps its
priority.
-/
def computeNewPriorities (updates : List Validator) (vs : ValidatorSet)
    (updatedTotalVotingPower : Int) : List Validator :=
  updates.map fun valUpdate =>
    match (vs.getByAddress valUpdate.address).2 with
    | none =>
        { valUpdate with
          proposerPriority :=
            wrapInt64 (-(updatedTotalVotingPower + (updatedTotalVotingPower >>> 3))) }
    | some val => { valUpdate with proposerPriority := val.proposerPriority }

/--
The merge loop of applyUpdates over two lists sorted by address: on equal
addresses the update is taken and both advance.
-/
def mergeUpdates : List Validator → List Validator → List Validator
  | first :: existing, update :: updates =>
      if first.address.val < update.address.val then
        first :: mergeUpdates existing (update :: updates)
      else if first.address = update.address then
        update :: mergeUpdates existing updates
      else
        update :: mergeUpdates (first :: existing) updates
  | existing, [] => existing
  | [], updates => updates
termination_by existing updates => existing.length + updates.length

/-- applyUpdates: the validators, sorted by address, merged with the updates. -/
def applyUpdates (vs : ValidatorSet) (updates : List Validator) : ValidatorSet :=
  { vs with validators := mergeUpdates (sortByAddress vs.validators) updates }

/-- The loop of verifyRemovals: the power removed, or the first removal not in the set. -/
def removedPowerOf (vs : ValidatorSet) (deletes : List Validator) : Except UpdateError Int :=
  deletes.foldlM
    (fun removedVotingPower valUpdate =>
      match (vs.getByAddress valUpdate.address).2 with
      | none => .error (.removalNotFound valUpdate.address)
      | some val => .ok (removedVotingPower + val.votingPower))
    0

/-- verifyRemovals: the power removed, and a panic for more removals than validators. -/
def verifyRemovals (deletes : List Validator) (vs : ValidatorSet) :
    Except ValidatorSetPanic (Except UpdateError Int) :=
  match removedPowerOf vs deletes with
  | .error err => .ok (.error err)
  | .ok removedVotingPower =>
      if deletes.length > vs.validators.length then
        .error (.message "more deletes than validators")
      else
        .ok (.ok removedVotingPower)

/--
The loop of applyRemovals: while removals remain, the first validator is
dropped when it is the first removal and kept otherwise; running out of
validators indexes past the end.
-/
def removeDeletes : List Validator → List Validator → Except ValidatorSetPanic (List Validator)
  | existing, [] => .ok existing
  | [], _ :: _ => .error (.message "index out of range")
  | first :: existing, delete :: deletes =>
      if first.address = delete.address then
        removeDeletes existing deletes
      else
        (removeDeletes existing (delete :: deletes)).map (first :: ·)

/-- applyRemovals: the slice of the validators left is made first. -/
def applyRemovals (vs : ValidatorSet) (deletes : List Validator) :
    Except ValidatorSetPanic ValidatorSet :=
  if deletes.length > vs.validators.length then
    .error (.message "makeslice: len out of range")
  else
    (removeDeletes vs.validators deletes).map fun validators => { vs with validators := validators }

/-- numNewValidators: the updates whose address is not in the set. -/
def numNewValidators (updates : List Validator) (vals : ValidatorSet) : Nat :=
  (updates.filter fun valUpdate => !vals.hasAddress valUpdate.address).length

/--
updateWithChangeSet: the set after the call and the error it returns.  The
checks come first and change nothing but the cache of the total; then the
updates and removals are applied, the priorities rescaled and centred, and
the validators sorted by power.
-/
def updateWithChangeSet (vs : ValidatorSet) (changes : List Validator) (allowDeletes : Bool) :
    Except ValidatorSetPanic (ValidatorSet × Option UpdateError) :=
  if changes.isEmpty then
    .ok (vs, none)
  else
    match processChanges changes with
    | .error err => .ok (vs, some err)
    | .ok (updates, deletes) =>
        if !allowDeletes ∧ deletes.length ≠ 0 then
          .ok (vs, some (.zeroPowerNotAllowed deletes))
        else do
          match ← verifyRemovals deletes vs with
          | .error err => .ok (vs, some err)
          | .ok removedVotingPower =>
              let (vs, verified) ← verifyUpdates updates vs removedVotingPower
              match verified with
              | .error err => .ok (vs, some err)
              | .ok updatedTotalVotingPower =>
                  if numNewValidators updates vs = 0 ∧ vs.validators.length = deletes.length then
                    .ok (vs, some .emptySet)
                  else
                    let updates := computeNewPriorities updates vs updatedTotalVotingPower
                    let vs := vs.applyUpdates updates
                    let vs ← vs.applyRemovals deletes
                    let vs ← vs.updateTotalVotingPower
                    let (vs, total) ← vs.refreshTotalVotingPower
                    let vs ← vs.rescalePriorities (wrapInt64 (priorityWindowSizeFactor * total))
                    let vs ← vs.shiftByAvgProposerPriority
                    .ok ({ vs with validators := sortByVotingPower vs.validators }, none)

/-- UpdateWithChangeSet: updateWithChangeSet with removals allowed. -/
def UpdateWithChangeSet (vs : ValidatorSet) (changes : List Validator) :
    Except ValidatorSetPanic (ValidatorSet × Option UpdateError) :=
  vs.updateWithChangeSet changes true

end ValidatorSet

/--
NewValidatorSet: the validators added to an empty set without removals, and
one round of priorities; an error panics.
-/
def newValidatorSet (vals : List Validator) : Except ValidatorSetPanic ValidatorSet := do
  let (vs, err) ← ValidatorSet.updateWithChangeSet ⟨[], none, 0⟩ vals false
  match err with
  | some reason => .error (.cannotCreate reason)
  | none => if vals.length > 0 then vs.IncrementProposerPriority 1 else .ok vs

/--
calculateValidatorSetUpdates of kai/state/cstate: each validator of the new
list that is new or changed its power, then a zero-power removal for every
old address not in the new list.  The map of the old powers is a list in
insertion order, one order Go's iteration may take.
-/
def calculateValidatorSetUpdates (lastVals vals : List Validator) : List Validator :=
  if vals.isEmpty then
    []
  else
    let last : List (Address × Int) :=
      lastVals.foldl
        (fun last validator =>
          last.filter (·.1 ≠ validator.address) ++ [(validator.address, validator.votingPower)])
        []
    let (updates, last) :=
      vals.foldl
        (fun (updates, last) val =>
          let updates :=
            match last.lookup val.address with
            | some oldPower => if oldPower ≠ val.votingPower then updates ++ [val] else updates
            | none => updates ++ [val]
          (updates, last.filter (·.1 ≠ val.address)))
        ([], last)
    updates ++ last.map fun (valAddr, _) => ⟨valAddr, 0, 0⟩

end Kardia
