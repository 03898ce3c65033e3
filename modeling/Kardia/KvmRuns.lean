import Mathlib
import Kardia.Instructions

/-!
# Runs of the interpreter on its instruction sets

NewInterpreter picks the jump table by the chain rules: newV2InstructionSet
under Galaxias, newV1InstructionSet before.  Every entry of either table is of
one of the kinds of Kardia.Instructions, so the conditions of
Kardia.InterpreterRuns hold for both, and its theorems become facts about Run
on every code, gas and world: a stack never grows past StackLimit, a fetch
never reads PUSH data, Run returns within one iteration more than its gas, and
it never panics.

The memory of a run is the memory of the gas model of Kardia.MemoryGas: the
charges of an operation that pays for memory are one memoryStep of that model,
with the operation's constant gas on top, twice before Galaxias.  So every
machine a run reaches has a tracked memory, whose lastGasCost is the cost of
its words.
-/

namespace Kardia.Kvm

section Tables

variable {σ : Type} {op : UInt8} {operation : Operation σ}

theorem v2InstructionSet_eq_some {chainId : Word} (found : v2InstructionSet chainId op = some operation) :
    V1Entry op operation := by
  unfold v2InstructionSet at found
  split_ifs at found with isChainId
  · -- CHAINID, which enable1344 adds
    obtain rfl := Option.some.inj found
    exact .pushing _ _ (by decide) (pushWidth_eq_zero (by omega))
  · exact v1InstructionSet_eq_some found

/-- NewInterpreter: the jump table of the chain rules, with the chain id CHAINID pushes. -/
def newInterpreter (isGalaxias : Bool) (chainId : Word) (abort : Nat → Bool) : Config σ :=
  { jumpTable := if isGalaxias then v2InstructionSet chainId else v1InstructionSet, isGalaxias, abort }

variable {isGalaxias : Bool} {chainId : Word} {abort : Nat → Bool}

theorem newInterpreter_eq_some (found : (@newInterpreter σ isGalaxias chainId abort).jumpTable op = some operation) :
    V1Entry op operation := by
  cases isGalaxias
  · exact v1InstructionSet_eq_some found
  · exact v2InstructionSet_eq_some found

theorem newInterpreter_pcSound : PcSound (@newInterpreter σ isGalaxias chainId abort).jumpTable :=
  fun _ _ found _ _ _ _ executed => (newInterpreter_eq_some found).pcSound executed

/-- An entry either has no memory size and no dynamic gas, or pays for its memory by memoryGasCost. -/
theorem V1Entry.memoryKinds (entry : V1Entry op operation) :
    (operation.dynamicGas = none ∧ operation.memorySize = none) ∨
      (operation.dynamicGas = some pureMemoryGascost ∧ ∃ sizeOf, operation.memorySize = some sizeOf) := by
  cases entry with
  | mload => exact .inr ⟨rfl, _, rfl⟩
  | mstore => exact .inr ⟨rfl, _, rfl⟩
  | ret => exact .inr ⟨rfl, _, rfl⟩
  | revert => exact .inr ⟨rfl, _, rfl⟩
  | _ => exact .inl ⟨rfl, rfl⟩

end Tables

/-! ## The charges and the gas model of memory -/

section Charges

variable {σ : Type} {isGalaxias : Bool} {operation : Operation σ} {machine next : Machine σ}

theorem Machine.memory_eq {machine other : Machine σ} (sameLength : other.store.length = machine.store.length)
    (sameCost : other.lastGasCost = machine.lastGasCost) : other.memory = machine.memory := by
  unfold Machine.memory
  rw [sameLength, sameCost]

/-- The charges of an operation without memory size or dynamic gas take only the constant gas. -/
theorem charge_of_unsized (unpaid : operation.dynamicGas = none) (unsized : operation.memorySize = none)
    (charged : charge isGalaxias operation machine = .ok next) :
    next.store = machine.store ∧ next.lastGasCost = machine.lastGasCost := by
  obtain ⟨gas, memorySize, dynamic, -, required, dynamicCharged, rfl⟩ := charge_eq_ok charged
  rw [requiredMemory_of_none unsized, Except.ok.injEq] at required
  subst required
  rcases chargeDynamic_eq_ok dynamicCharged with ⟨-, rfl⟩ | ⟨_, _, _, _, paid, -⟩
  · rw [if_neg (by decide)]
    exact ⟨rfl, rfl⟩
  · rw [unpaid] at paid
    cases paid

/-- The charges of an operation that pays for memory, spelled out. -/
theorem charge_paysMemory_eq_ok (paysMemory : operation.dynamicGas = some pureMemoryGascost)
    (charged : charge isGalaxias operation machine = .ok next) :
    ∃ gas memorySize fee memory left, useGas machine.gas operation.constantGas = some gas ∧
      requiredMemory operation machine.stack = .ok memorySize ∧
      memoryGasCost machine.memory memorySize = .ok (fee, memory) ∧
      useGas gas (if isGalaxias then fee else operation.constantGas + fee) = some left ∧
      next.gas = left ∧ next.lastGasCost = memory.lastGasCost ∧
      next.store.length = max machine.store.length memorySize.toNat := by
  obtain ⟨memorySize', required', resized⟩ := charge_store_length charged
  obtain ⟨gas, memorySize, dynamic, used, required, dynamicCharged, rfl⟩ := charge_eq_ok charged
  rcases chargeDynamic_eq_ok dynamicCharged with ⟨unpaid, -⟩ | ⟨dynamicGas, fee, memory, left, paid, costed, dynamicUsed, rfl⟩
  · rw [paysMemory] at unpaid
    cases unpaid
  · rw [paysMemory, Option.some.injEq] at paid
    subst paid
    have sameSize : memorySize' = memorySize := by
      rw [required] at required'
      exact (Except.ok.inj required').symm
    subst sameSize
    refine ⟨gas, memorySize', fee, memory, left, used, required, pureMemoryGascost_eq_ok costed, dynamicUsed,
      ?_, ?_, resized⟩ <;> split_ifs <;> rfl

/--
The charges of an operation that pays for memory refine one memoryStep of the
gas model: its fee is the dynamic cost, and the memory the gas model sees
after it is the machine's after the resize.
-/
theorem charge_memoryStep {sizeOf : List Word → Except Fault (UInt64 × Bool)}
    (paysMemory : operation.dynamicGas = some pureMemoryGascost) (sized : operation.memorySize = some sizeOf)
    (tracked : machine.memory.Tracked) (charged : charge isGalaxias operation machine = .ok next) :
    ∃ memSize fee gas, sizeOf machine.stack = .ok (memSize, false) ∧
      memoryStep machine.memory memSize = .ok (fee, next.memory) ∧
      useGas machine.gas operation.constantGas = some gas ∧
      useGas gas (if isGalaxias then fee else operation.constantGas + fee) = some next.gas := by
  obtain ⟨gas, memorySize, fee, memory, left, used, required, costed, dynamicUsed, gasEq, costEq, lengthEq⟩ :=
    charge_paysMemory_eq_ok paysMemory charged
  obtain ⟨memSize, computed, rounded, -⟩ := requiredMemory_eq_ok sized required
  have sameLen : memory.len = machine.store.length := memoryGasCost_len costed
  refine ⟨memSize, fee, gas, computed, ?_, used, gasEq ▸ dynamicUsed⟩
  unfold memoryStep
  simp only [rounded, Bool.false_eq_true, if_false, costed, bind, Except.bind, pure, Except.pure,
    Except.ok.injEq, Prod.mk.injEq, true_and]
  -- the resize of the gas model is the resize of the store
  have resizedMemory : memory.resize memorySize = next.memory := by
    rw [Memory.resize_eq (sameLen ▸ tracked.capped)]
    simp only [Machine.memory, lengthEq, costEq, sameLen]
  split_ifs with grows
  · exact resizedMemory
  · have empty : memorySize.toNat = 0 := by
      rw [gt_iff_lt, UInt64.lt_iff_toNat_lt] at grows
      exact Nat.eq_zero_of_not_pos grows
    rw [← resizedMemory, Memory.resize_eq (sameLen ▸ tracked.capped), empty, Nat.max_zero]

/-- The fee of one memoryStep of a tracked memory is at most the cost of the largest memory. -/
theorem memoryStep_fee_le {mem next : Memory} {memSize fee : UInt64} (tracked : mem.Tracked)
    (stepped : memoryStep mem memSize = .ok (fee, next)) :
    fee.toNat ≤ memoryCost 0xFFFFFFFF := by
  obtain ⟨grown, -, paid⟩ := memoryStep_spec tracked stepped
  have words : next.len / 32 ≤ 0xFFFFFFFF := by
    have capped := grown.capped
    omega
  have bounded := memoryCost_mono words
  omega

/--
The gas an operation that pays for memory is charged: the fee of its memory
step and its constant gas, which before Galaxias is charged a second time as
part of the dynamic cost.
-/
theorem charge_memory_gas {sizeOf : List Word → Except Fault (UInt64 × Bool)}
    (paysMemory : operation.dynamicGas = some pureMemoryGascost) (sized : operation.memorySize = some sizeOf)
    (tracked : machine.memory.Tracked) (cheap : operation.constantGas.toNat ≤ 2 ^ 32)
    (charged : charge isGalaxias operation machine = .ok next) :
    ∃ memSize fee, memoryStep machine.memory memSize = .ok (fee, next.memory) ∧
      next.gas.toNat + (if isGalaxias then 1 else 2) * operation.constantGas.toNat + fee.toNat =
        machine.gas.toNat := by
  obtain ⟨memSize, fee, gas, -, stepped, used, dynamicUsed⟩ := charge_memoryStep paysMemory sized tracked charged
  have feeLe := memoryStep_fee_le tracked stepped
  have largest : memoryCost 0xFFFFFFFF < 2 ^ 60 := by decide
  have constantPaid := useGas_eq_some used
  have dynamicPaid := useGas_eq_some dynamicUsed
  refine ⟨memSize, fee, stepped, ?_⟩
  cases isGalaxias
  · -- the constant gas and the fee add without a wrap
    have costEq : (operation.constantGas + fee).toNat = operation.constantGas.toNat + fee.toNat := by
      rw [UInt64.toNat_add, Nat.mod_eq_of_lt (by omega)]
    simp only [Bool.false_eq_true, if_false, costEq] at dynamicPaid ⊢
    omega
  · simp only [if_true] at dynamicPaid ⊢
    omega

end Charges

/-- The charges of MSTORE of a word at offset 0 into an empty memory, before Galaxias. -/
theorem charge_memory_gas_mstore :
    ∃ memSize fee, memoryStep newMemory memSize = .ok (fee, ⟨32, 3⟩) ∧
      91 + (if false then 1 else 2) * 3 + fee.toNat = 100 :=
  @charge_memory_gas Unit false (memoryWordOperation opMstore 2 0 memoryMStore)
    { Machine.fresh 100 () with stack := [0, 0] }
    { Machine.fresh 100 () with stack := [0, 0], gas := 91, lastGasCost := 3, store := List.replicate 32 0 }
    memoryMStore rfl rfl newMemory_tracked (by decide) rfl

/-! ## Runs -/

section Runs

variable {σ : Type} {isGalaxias : Bool} {chainId : Word} {abort : Nat → Bool} {readOnly : Bool}
  {code : List UInt8} {gas : UInt64} {world : σ} {machine : Machine σ}

/-- Run returns on every code, within one iteration more than its gas. -/
theorem newInterpreter_run_returns (isGalaxias : Bool) (chainId : Word) (abort : Nat → Bool)
    (interpreterReadOnly readOnly : Bool) (code : List UInt8) (gas : UInt64) (world : σ) :
    ∃ outcome, run (newInterpreter isGalaxias chainId abort) interpreterReadOnly readOnly code gas world
      (gas.toNat + 1) = some outcome :=
  run_returns (fun _ _ found => (newInterpreter_eq_some found).metered) interpreterReadOnly readOnly code gas world

/-- Run never panics on a code whose length fits 64 bits. -/
theorem newInterpreter_run_never_panics (fits : code.length ≤ 2 ^ 64) {interpreterReadOnly readOnly : Bool}
    {fuel : Nat} {fault : Fault} :
    run (@newInterpreter σ isGalaxias chainId abort) interpreterReadOnly readOnly code gas world fuel ≠
      some (.panicked fault) :=
  run_never_panics (fun _ _ found => (newInterpreter_eq_some found).panicFree) fits

theorem newInterpreter_run_never_panics_push :
    run (@newInterpreter Unit false 0 fun _ => false) false false [0x60, 0x01, 0x00] 100 () 10 ≠
      some (.panicked .indexOutOfRange) :=
  newInterpreter_run_never_panics (by decide)

/-- The machine after PUSH1 1 of the code PUSH1 1, STOP. -/
theorem pushOne_reached :
    Reached (@newInterpreter Unit false 0 fun _ => false) false [0x60, 0x01, 0x00] 100 ()
      { Machine.fresh 100 () with pc := 2, stack := [1], gas := 97, steps := 1 } :=
  Relation.ReflTransGen.single rfl

/-- No stack of a run grows past StackLimit. -/
theorem newInterpreter_stack_le
    (reached : Reached (newInterpreter isGalaxias chainId abort) readOnly code gas world machine) :
    machine.stack.length ≤ StackLimit :=
  run_stack_le_stackLimit (fun _ _ found => (newInterpreter_eq_some found).stackSound) reached

theorem newInterpreter_stack_le_pushOne :
    ({ Machine.fresh 100 () with pc := 2, stack := [1], gas := 97, steps := 1 } : Machine Unit).stack.length ≤
      StackLimit :=
  newInterpreter_stack_le pushOne_reached

/-- A run fetches its opcodes at instruction boundaries: never a byte of PUSH data. -/
theorem newInterpreter_fetches_instructions (fits : code.length ≤ 2 ^ 64)
    (reached : Reached (newInterpreter isGalaxias chainId abort) readOnly code gas world machine)
    (inside : machine.pc < code.length) :
    ¬ InData code machine.pc :=
  run_fetches_instructions newInterpreter_pcSound fits reached inside

theorem newInterpreter_fetches_instructions_pushOne : ¬ InData [0x60, 0x01, 0x00] 2 :=
  newInterpreter_fetches_instructions (by decide) pushOne_reached (by decide)

/-- One iteration keeps the memory tracked: the charges are a memoryStep, and execute and the loop keep it. -/
theorem newInterpreter_runStep_tracked {next : Machine σ} (tracked : machine.memory.Tracked)
    (stepped : runStep (newInterpreter isGalaxias chainId abort) readOnly code machine = .ok next) :
    next.memory.Tracked := by
  obtain ⟨operation, charged, ret, executed, validated, chargedOk, executedOk, finished⟩ := runStep_eq_ok stepped
  obtain ⟨found, -⟩ := validate_eq_ok validated
  have entry := newInterpreter_eq_some found
  -- the tick counts the iteration and leaves the memory
  have tickTracked : machine.tick.memory.Tracked := tracked
  have chargedTracked : charged.memory.Tracked := by
    rcases entry.memoryKinds with ⟨unpaid, unsized⟩ | ⟨paysMemory, sizeOf, sized⟩
    · obtain ⟨sameStore, sameCost⟩ := charge_of_unsized unpaid unsized chargedOk
      rw [Machine.memory_eq (by rw [sameStore]) sameCost]
      exact tickTracked
    · obtain ⟨memSize, fee, -, -, memoryStepped, -⟩ := charge_memoryStep paysMemory sized tickTracked chargedOk
      exact (memoryStep_spec tickTracked memoryStepped).1
  -- execute changes neither the length of the store nor lastGasCost
  obtain ⟨frame, sameLength⟩ := entry.execute_frame executedOk
  have executedCost : executed.lastGasCost = charged.lastGasCost := by
    rw [frame]
  have executedMemory : executed.memory = charged.memory := Machine.memory_eq sameLength executedCost
  obtain ⟨-, -, sameStore, sameCost, -⟩ := finish_frame finished
  rw [Machine.memory_eq (by rw [sameStore]) sameCost, executedMemory]
  exact chargedTracked

/--
Every machine a run reaches has a tracked memory: a whole number of words,
under the cap, and the cost of those words recorded as lastGasCost, so that
the next expansion is charged only the difference.
-/
theorem newInterpreter_memory_tracked
    (reached : Reached (newInterpreter isGalaxias chainId abort) readOnly code gas world machine) :
    machine.memory.Tracked :=
  Loops.invariant_of_reaches (fun _ _ tracked stepped => newInterpreter_runStep_tracked tracked stepped)
    (show (Machine.fresh gas world).memory.Tracked from newMemory_tracked) reached

theorem newInterpreter_memory_tracked_pushOne :
    ({ Machine.fresh 100 () with pc := 2, stack := [1], gas := 97, steps := 1 } : Machine Unit).memory.Tracked :=
  newInterpreter_memory_tracked pushOne_reached

end Runs

end Kardia.Kvm
