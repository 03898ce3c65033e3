import Mathlib
import Kardia.Runs

/-!
# Memory expansion gas

The memory of an execution frame grows in words of 32 bytes.  An operation that
reaches beyond its end pays for the expansion through `memoryGasCost`, which
charges the difference between the quadratic cost `C(w) = 3w + w²/512` of the
new word count and the cost recorded in `lastGasCost`; `Interpreter.Run` then
resizes the memory to the rounded size.  Over a run the fees telescope to the
cost of the largest memory reached, and below the `0x1FFFFFFFE0` cap none of the
64-bit computations wraps.
-/

namespace Kardia.Kvm

def MemoryGas : UInt64 := 3

def QuadCoeffDiv : UInt64 := 512

def MaxUint64 : UInt64 := 0xFFFFFFFFFFFFFFFF

/-- math.SafeMul: the low word of the product, and whether the high word is nonzero. -/
def safeMul (x y : UInt64) : UInt64 × Bool :=
  (x * y, decide (2 ^ 64 ≤ x.toNat * y.toNat))

def toWordSize (size : UInt64) : UInt64 :=
  if size > MaxUint64 - 31 then MaxUint64 / 32 + 1 else (size + 31) / 32

inductive GasError
  | gasUintOverflow
  deriving DecidableEq, Repr

/-- The memory of a frame as gas sees it: the length of its store and the expansion cost paid. -/
structure Memory where
  len : Nat
  lastGasCost : UInt64
  deriving DecidableEq, Repr

def newMemory : Memory := ⟨0, 0⟩

/-- The fee for growing the memory to newMemSize, with the memory whose lastGasCost it updates. -/
def memoryGasCost (mem : Memory) (newMemSize : UInt64) : Except GasError (UInt64 × Memory) :=
  if newMemSize = 0 then .ok (0, mem)
  else if newMemSize > 0x1FFFFFFFE0 then .error .gasUintOverflow
  else
    let newMemSizeWords := toWordSize newMemSize
    let newMemSize := newMemSizeWords * 32
    if newMemSize > mem.len.toUInt64 then
      let square := newMemSizeWords * newMemSizeWords
      let linCoef := newMemSizeWords * MemoryGas
      let quadCoef := square / QuadCoeffDiv
      let newTotalFee := linCoef + quadCoef
      .ok (newTotalFee - mem.lastGasCost, { mem with lastGasCost := newTotalFee })
    else .ok (0, mem)

def Memory.resize (mem : Memory) (size : UInt64) : Memory :=
  if mem.len.toUInt64 < size then { mem with len := size.toNat } else mem

/--
The memory part of one step of Interpreter.Run for an operation with a memory
size: the size rounded up to words, the fee that the operation's dynamic gas
function takes from memoryGasCost, and the resize that follows.
-/
def memoryStep (mem : Memory) (memSize : UInt64) : Except GasError (UInt64 × Memory) :=
  let (memorySize, overflow) := safeMul (toWordSize memSize) 32
  if overflow then .error .gasUintOverflow
  else do
    let (fee, mem) ← memoryGasCost mem memorySize
    pure (fee, if memorySize > 0 then mem.resize memorySize else mem)

/-! ## The cost of a memory and the fees of a run -/

/-- The cost `C(w)` of a memory of `w` words, over the naturals. -/
def memoryCost (words : Nat) : Nat :=
  words * MemoryGas.toNat + words * words / QuadCoeffDiv.toNat

/-- One memory step of a run, adding its fee to the fees charged so far. -/
def chargeStep (state : Nat × Memory) (memSize : UInt64) : Except GasError (Nat × Memory) :=
  (memoryStep state.2 memSize).map fun (fee, mem) => (state.1 + fee.toNat, mem)

/-- The word count of the largest memory size requested. -/
def maxWords (sizes : List UInt64) : Nat :=
  (sizes.map fun size => (size.toNat + 31) / 32).foldr max 0

@[simp] theorem maxWords_nil : maxWords [] = 0 := rfl

@[simp] theorem maxWords_cons (size : UInt64) (sizes : List UInt64) :
    maxWords (size :: sizes) = max ((size.toNat + 31) / 32) (maxWords sizes) :=
  rfl

@[simp] theorem memoryCost_zero : memoryCost 0 = 0 := rfl

theorem memoryCost_mono {small large : Nat} (le : small ≤ large) :
    memoryCost small ≤ memoryCost large := by
  unfold memoryCost
  gcongr

/-- What a frame's memory keeps between steps: whole words, the cap, and their cost recorded. -/
structure Memory.Tracked (mem : Memory) : Prop where
  aligned : mem.len % 32 = 0
  capped : mem.len ≤ 0x1FFFFFFFE0
  lastGasCost_eq : mem.lastGasCost.toNat = memoryCost (mem.len / 32)

theorem newMemory_tracked : newMemory.Tracked :=
  ⟨rfl, by decide, rfl⟩

/-! ## No wrap below the cap -/

theorem toWordSize_toNat {size : UInt64} (fits : size ≤ MaxUint64 - 31) :
    (toWordSize size).toNat = (size.toNat + 31) / 32 := by
  have small : size.toNat ≤ 2 ^ 64 - 32 := by
    rw [UInt64.le_iff_toNat_le] at fits
    exact fits
  rw [toWordSize, if_neg (UInt64.not_lt.mpr fits), UInt64.toNat_div,
    UInt64.toNat_add]
  simp only [UInt64.reduceToNat]
  rw [Nat.mod_eq_of_lt (by omega)]

/-- A size admitted by the cap rounds to at most 0xFFFFFFFF words. -/
theorem toWordSize_admitted {size : UInt64} (admitted : size ≤ 0x1FFFFFFFE0) :
    (toWordSize size).toNat = (size.toNat + 31) / 32 ∧ (toWordSize size).toNat ≤ 0xFFFFFFFF := by
  have admittedNat : size.toNat ≤ 0x1FFFFFFFE0 := UInt64.le_iff_toNat_le.mp admitted
  have fits : size ≤ MaxUint64 - 31 := UInt64.le_iff_toNat_le.mpr (by
    simp only [MaxUint64, UInt64.reduceSub, UInt64.reduceToNat]
    omega)
  have words := toWordSize_toNat fits
  exact ⟨words, by omega⟩

/-- A word count below the cap squares, scales and adds without wrapping. -/
theorem totalFee_toNat {words : UInt64} (small : words.toNat ≤ 0xFFFFFFFF) :
    (words * words).toNat = words.toNat * words.toNat ∧
      (words * MemoryGas + words * words / QuadCoeffDiv).toNat = memoryCost words.toNat := by
  have square : words.toNat * words.toNat ≤ 0xFFFFFFFF * 0xFFFFFFFF :=
    Nat.mul_le_mul small small
  have squareEq : (words * words).toNat = words.toNat * words.toNat := by
    rw [UInt64.toNat_mul, Nat.mod_eq_of_lt (by omega)]
  refine ⟨squareEq, ?_⟩
  have linear : (words * MemoryGas).toNat = words.toNat * 3 := by
    rw [UInt64.toNat_mul, Nat.mod_eq_of_lt]
    · rfl
    · show words.toNat * 3 < 2 ^ 64
      omega
  rw [UInt64.toNat_add, UInt64.toNat_div, squareEq, linear, Nat.mod_eq_of_lt]
  · rfl
  · show words.toNat * 3 + words.toNat * words.toNat / 512 < 2 ^ 64
    omega

/-- A size that SafeMul rounds to words without overflow is a whole number of words. -/
theorem safeMul_toWordSize {memSize memorySize : UInt64}
    (rounded : safeMul (toWordSize memSize) 32 = (memorySize, false)) :
    memorySize.toNat = 32 * ((memSize.toNat + 31) / 32) := by
  simp only [safeMul, Prod.mk.injEq, decide_eq_false_iff_not, not_le] at rounded
  obtain ⟨product, fits⟩ := rounded
  by_cases small : memSize ≤ MaxUint64 - 31
  · rw [toWordSize_toNat small] at fits
    rw [← product, UInt64.toNat_mul, toWordSize_toNat small]
    simp only [UInt64.reduceToNat] at fits ⊢
    omega
  · rw [toWordSize, if_pos (UInt64.not_le.mp small)] at fits
    exact absurd fits (by decide)

theorem toUInt64_toNat_of_le {len : Nat} (capped : len ≤ 0x1FFFFFFFE0) :
    len.toUInt64.toNat = len := by
  exact UInt64.toNat_ofNat_of_lt' (lt_of_le_of_lt capped (by decide))

theorem Memory.resize_eq {mem : Memory} {size : UInt64} (capped : mem.len ≤ 0x1FFFFFFFE0) :
    mem.resize size = { mem with len := max mem.len size.toNat } := by
  simp only [Memory.resize, UInt64.lt_iff_toNat_lt, toUInt64_toNat_of_le capped]
  split_ifs with grows
  · rw [max_eq_right grows.le]
  · rw [max_eq_left (not_lt.mp grows)]

/-! ## One charge -/

/--
Below the cap memoryGasCost succeeds on a tracked memory, and its fee is the
cost of the new word count less the cost already paid, with no wrap.
-/
theorem memoryGasCost_spec {mem : Memory} (tracked : mem.Tracked) {newMemSize : UInt64}
    (admitted : newMemSize ≤ 0x1FFFFFFFE0) :
    ∃ fee next, memoryGasCost mem newMemSize = .ok (fee, next) ∧ next.len = mem.len ∧
      fee.toNat + memoryCost (mem.len / 32) =
        memoryCost (max (mem.len / 32) ((newMemSize.toNat + 31) / 32)) ∧
      next.lastGasCost.toNat = memoryCost (max (mem.len / 32) ((newMemSize.toNat + 31) / 32)) := by
  by_cases empty : newMemSize = 0
  · subst empty
    have noWords : ((0 : UInt64).toNat + 31) / 32 = 0 := rfl
    rw [noWords, Nat.max_zero]
    exact ⟨0, mem, rfl, rfl, Nat.zero_add _, tracked.lastGasCost_eq⟩
  obtain ⟨words, wordsSmall⟩ := toWordSize_admitted admitted
  have sizeNat : (toWordSize newMemSize * 32).toNat = (toWordSize newMemSize).toNat * 32 := by
    rw [UInt64.toNat_mul, Nat.mod_eq_of_lt]
    · rfl
    · show (toWordSize newMemSize).toNat * 32 < 2 ^ 64
      omega
  obtain ⟨-, total⟩ := totalFee_toNat wordsSmall
  have paid := tracked.lastGasCost_eq
  unfold memoryGasCost
  rw [if_neg empty, if_neg (UInt64.not_lt.mpr admitted)]
  simp only [gt_iff_lt, UInt64.lt_iff_toNat_lt, toUInt64_toNat_of_le tracked.capped, sizeNat]
  split_ifs with grows
  · -- the memory grows: the new cost is recorded and the difference charged
    have larger : mem.len / 32 ≤ (toWordSize newMemSize).toNat := by omega
    have covered := memoryCost_mono larger
    rw [max_eq_right (by omega), ← words]
    refine ⟨_, _, rfl, rfl, ?_, total⟩
    rw [UInt64.toNat_sub_of_le _ _ (UInt64.le_iff_toNat_le.mpr (by omega)), total, paid]
    omega
  · rw [max_eq_left (by omega)]
    exact ⟨0, mem, rfl, rfl, by simp, paid⟩

/-- One memory step of a run keeps the memory tracked, grows it to the request, and charges the difference in cost. -/
theorem memoryStep_spec {mem next : Memory} {memSize fee : UInt64} (tracked : mem.Tracked)
    (stepped : memoryStep mem memSize = .ok (fee, next)) :
    next.Tracked ∧ next.len / 32 = max (mem.len / 32) ((memSize.toNat + 31) / 32) ∧
      fee.toNat + memoryCost (mem.len / 32) = memoryCost (next.len / 32) := by
  unfold memoryStep at stepped
  rcases rounded : safeMul (toWordSize memSize) 32 with ⟨memorySize, overflow⟩
  rw [rounded] at stepped
  cases overflow
  case true =>
    simp at stepped
  case false =>
    have sizeNat := safeMul_toWordSize rounded
    have admitted : memorySize ≤ 0x1FFFFFFFE0 := by
      by_contra tooLarge
      have nonzero : memorySize ≠ 0 := by
        rintro rfl
        exact tooLarge (by decide)
      simp [memoryGasCost, nonzero, UInt64.not_le.mp tooLarge] at stepped
    obtain ⟨charged, grown, charge, sameLen, feeEq, lastEq⟩ := memoryGasCost_spec tracked admitted
    simp only [Bool.false_eq_true, if_false, charge, bind, Except.bind, pure, Except.pure,
      Except.ok.injEq, Prod.mk.injEq] at stepped
    obtain ⟨rfl, rfl⟩ := stepped
    have admittedNat : memorySize.toNat ≤ 0x1FFFFFFFE0 := UInt64.le_iff_toNat_le.mp admitted
    have aligned := tracked.aligned
    have capped := tracked.capped
    have wordsEq : (memorySize.toNat + 31) / 32 = (memSize.toNat + 31) / 32 := by omega
    rw [wordsEq] at feeEq lastEq
    by_cases positive : memorySize > 0
    · -- Run resizes the memory to the rounded size
      rw [if_pos positive, Memory.resize_eq (sameLen ▸ capped)]
      have lenEq : max grown.len memorySize.toNat / 32 = max (mem.len / 32) ((memSize.toNat + 31) / 32) := by
        omega
      refine ⟨⟨by dsimp only; omega, by dsimp only; omega, ?_⟩, lenEq, ?_⟩
      · dsimp only
        rw [lenEq, lastEq]
      · dsimp only
        rw [lenEq, feeEq]
    · have zero : memorySize.toNat ≤ 0 := UInt64.le_iff_toNat_le.mp (UInt64.not_lt.mp positive)
      have empty : (memSize.toNat + 31) / 32 = 0 := by omega
      rw [empty, Nat.max_zero] at feeEq lastEq
      rw [if_neg positive, sameLen, empty, Nat.max_zero]
      refine ⟨⟨sameLen ▸ aligned, sameLen ▸ capped, ?_⟩, rfl, feeEq⟩
      rw [sameLen, lastEq]

/-! ## Runs -/

theorem chargeStep_eq_ok {state next : Nat × Memory} {memSize : UInt64}
    (stepped : chargeStep state memSize = .ok next) :
    ∃ fee mem, memoryStep state.2 memSize = .ok (fee, mem) ∧ next = (state.1 + fee.toNat, mem) := by
  unfold chargeStep at stepped
  cases charged : memoryStep state.2 memSize with
  | error e =>
      simp [charged, Except.map] at stepped
  | ok result =>
      simp only [charged, Except.map, Except.ok.injEq] at stepped
      exact ⟨result.1, result.2, rfl, stepped.symm⟩

/--
Along a run of memory steps from a tracked memory whose cost the fees so far
pay for, the memory stays tracked, the fees keep paying exactly for it, and it
grows to the largest request.
-/
theorem chargeRun_spec (sizes : List UInt64) :
    ∀ {start final : Nat × Memory}, start.2.Tracked → start.1 = memoryCost (start.2.len / 32) →
      Runs.run chargeStep start sizes = .ok final →
      final.2.Tracked ∧ final.1 = memoryCost (final.2.len / 32) ∧
        final.2.len / 32 = max (start.2.len / 32) (maxWords sizes) := by
  induction sizes with
  | nil =>
      intro start final tracked paid finished
      cases finished
      exact ⟨tracked, paid, by simp⟩
  | cons size rest inductionHypothesis =>
      intro start final tracked paid finished
      obtain ⟨next, stepped, finishedRest⟩ := Runs.run_cons_eq_ok finished
      obtain ⟨fee, mem, charged, rfl⟩ := chargeStep_eq_ok stepped
      obtain ⟨memTracked, grown, feeEq⟩ := memoryStep_spec tracked charged
      have memPaid : start.1 + fee.toNat = memoryCost (mem.len / 32) := by
        rw [paid, Nat.add_comm, feeEq]
      obtain ⟨finalTracked, finalPaid, reached⟩ := inductionHypothesis memTracked memPaid finishedRest
      refine ⟨finalTracked, finalPaid, ?_⟩
      rw [reached, grown, maxWords_cons, max_assoc]

/--
The memory fees of a run of Interpreter.Run add up to the cost `C(w)` of the
largest memory requested, which the memory then has; and any later call of
memoryGasCost admitted by the cap squares its word count without wrapping and
charges exactly the rest of the cost of the new largest memory.
-/
theorem memory_expansion_fees_telescope (sizes : List UInt64) (total : Nat) (mem : Memory)
    (finished : Runs.run chargeStep (0, newMemory) sizes = .ok (total, mem)) :
    total = memoryCost (maxWords sizes) ∧ mem.len = 32 * maxWords sizes ∧
      ∀ newMemSize : UInt64, newMemSize ≤ 0x1FFFFFFFE0 →
        (toWordSize newMemSize * toWordSize newMemSize).toNat =
            (toWordSize newMemSize).toNat * (toWordSize newMemSize).toNat ∧
          ∃ fee next, memoryGasCost mem newMemSize = .ok (fee, next) ∧
            fee.toNat + total = memoryCost (max (maxWords sizes) ((newMemSize.toNat + 31) / 32)) := by
  obtain ⟨tracked, paid, reached⟩ :
      mem.Tracked ∧ total = memoryCost (mem.len / 32) ∧ mem.len / 32 = max 0 (maxWords sizes) :=
    chargeRun_spec sizes newMemory_tracked rfl finished
  have words : mem.len / 32 = maxWords sizes := by
    rw [reached]
    exact Nat.zero_max _
  have aligned := tracked.aligned
  refine ⟨paid.trans (congrArg memoryCost words), by omega, fun newMemSize admitted => ⟨?_, ?_⟩⟩
  · exact (totalFee_toNat (toWordSize_admitted admitted).2).1
  · obtain ⟨fee, next, charged, -, feeEq, -⟩ := memoryGasCost_spec tracked admitted
    refine ⟨fee, next, charged, ?_⟩
    rw [paid, ← words]
    exact feeEq

theorem growing_requests_pay_largest :
    Runs.run chargeStep (0, newMemory) [1, 100, 64] = .ok (12, ⟨128, 12⟩) ∧
      12 = memoryCost (maxWords [1, 100, 64]) :=
  ⟨by decide, (memory_expansion_fees_telescope [1, 100, 64] 12 ⟨128, 12⟩ (by decide)).1⟩

end Kardia.Kvm
