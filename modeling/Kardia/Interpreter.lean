import Mathlib
import Kardia.Loops
import Kardia.MemoryGas
import Kardia.JumpDest

/-!
# The interpreter loop

Interpreter.Run of package kvm runs a contract's code: each iteration fetches
the opcode at the program counter, looks its operation up in the jump table,
checks the stack against the operation's minStack and maxStack and the
read-only flag, charges the constant gas, computes the memory size the
operation needs and charges its dynamic gas, resizes the memory, and calls the
operation's execute function.  The operation's flags then decide whether Run
returns (reverts, halts) and whether the loop moves the program counter on by
one byte (every operation that does not jump).

The jump table is a parameter here, as it is a field of the interpreter's
Config in Go: the loop is the same for every table, and the facts proved about
it hold for every table whose entries satisfy the conditions they name.  The
world of the operations (the StateDB, the call depth) is a type parameter.

A machine is the state Run keeps between two iterations: the program counter,
the stack (its top first), the memory's bytes and the expansion cost paid,
the contract's gas, the interpreter's return data and the count of
iterations.  The program counter is a uint64 in Go; a PUSH moves it at most 33
bytes past the code, so it never wraps and is a natural number here.  The
loop exits through the error of Except: Run's returned values, or a Go runtime
panic that unwinds it.  Another goroutine may set the abort flag at any time,
and the loop reads it at every thousandth iteration: the flag is a function of
the iteration count.
-/

namespace Kardia.Kvm

/-- uint256.Int: a word of the stack. -/
abbrev Word := BitVec 256

/-- configs.StackLimit. -/
def StackLimit : Nat := 1024

/-- The opcode of CALL, whose value Run checks in read-only mode. -/
def CALL : UInt8 := 0xf1

/-- The errors Run returns, with the values their messages format. -/
inductive KvmError
  | invalidOpCode (opcode : UInt8)
  | stackUnderflow (stackLen required : Nat)
  | stackOverflow (stackLen limit : Nat)
  | writeProtection
  | outOfGas
  | gasUintOverflow
  | invalidJump
  | executionReverted
  deriving DecidableEq, Repr

/-- How an execute function ends other than by returning: an error, or a Go runtime panic. -/
inductive Fault
  | error (err : KvmError)
  | indexOutOfRange
  | sliceBoundsOutOfRange
  | invalidMemory
  deriving DecidableEq, Repr

/-- The state of Run between two iterations of its loop. -/
structure Machine (σ : Type) where
  pc : Nat
  stack : List Word
  store : List UInt8
  lastGasCost : UInt64
  gas : UInt64
  returnData : List UInt8
  steps : Nat
  world : σ

/-- The memory as memoryGasCost sees it: the length of the store and the cost paid. -/
def Machine.memory {σ : Type} (machine : Machine σ) : Memory :=
  ⟨machine.store.length, machine.lastGasCost⟩

/-- The state at the start of Run: NewMemory, newstack, and the contract's gas. -/
def Machine.fresh {σ : Type} (gas : UInt64) (world : σ) : Machine σ :=
  ⟨0, [], [], 0, gas, [], 0, world⟩

/-- operation: an entry of the jump table; a field the table leaves out has Go's zero value. -/
structure Operation (σ : Type) where
  execute : List UInt8 → Machine σ → Except Fault (List UInt8 × Machine σ)
  constantGas : UInt64 := 0
  dynamicGas : Option (Machine σ → UInt64 → Except KvmError (UInt64 × Memory)) := none
  minStack : Nat
  maxStack : Nat
  memorySize : Option (List Word → Except Fault (UInt64 × Bool)) := none
  halts : Bool := false
  jumps : Bool := false
  writes : Bool := false
  reverts : Bool := false
  returns : Bool := false

/-- The settings Run reads: the jump table, the chain rules, and the abort flag by iteration. -/
structure Config (σ : Type) where
  jumpTable : UInt8 → Option (Operation σ)
  isGalaxias : Bool
  abort : Nat → Bool

/-- How Run ends: its return values with the machine as it left it, or a panic. -/
inductive Outcome (σ : Type)
  | returned (ret : List UInt8) (err : Option KvmError) (machine : Machine σ)
  | panicked (fault : Fault)

section Loop

variable {σ : Type}

/-- Contract.GetOp: the byte at the position, STOP past the code. -/
def getOp (code : List UInt8) (pc : Nat) : UInt8 :=
  code.getD pc 0

/-- Contract.UseGas: the gas left, or none when there is not enough. -/
def useGas (gas cost : UInt64) : Option UInt64 :=
  if gas < cost then none else some (gas - cost)

/-- The word's low 64 bits, and whether it does not fit them: Uint64WithOverflow. -/
def uint64WithOverflow (word : Word) : UInt64 × Bool :=
  (UInt64.ofNat word.toNat, decide (2 ^ 64 ≤ word.toNat))

/-- Memory.Resize: the store grown with zero bytes to the size. -/
def resizeStore (store : List UInt8) (size : UInt64) : List UInt8 :=
  if store.length < size.toNat then store ++ List.replicate (size.toNat - store.length) 0 else store

/-- A Run that returns an error, with the machine as it stands. -/
def failWith (machine : Machine σ) (err : KvmError) : Outcome σ :=
  .returned [] (some err) machine

/-- The outcome of an execute function that fails: its error returned, or its panic. -/
def Fault.toOutcome (machine : Machine σ) : Fault → Outcome σ
  | .error err => failWith machine err
  | fault => .panicked fault

/--
The checks before gas: the operation of the opcode at the program counter, a
stack within its bounds, and in read-only mode no write and no CALL with a
value.  Go validates the stack a second time after reading the constant gas,
with the same stack; that check repeats this one and is not repeated here.
-/
def validate (config : Config σ) (readOnly : Bool) (code : List UInt8) (machine : Machine σ) :
    Except (Outcome σ) (Operation σ) :=
  let op := getOp code machine.pc
  match config.jumpTable op with
  | none => .error (failWith machine (.invalidOpCode op))
  | some operation =>
      let sLen := machine.stack.length
      if sLen < operation.minStack then
        .error (failWith machine (.stackUnderflow sLen operation.minStack))
      else if sLen > operation.maxStack then
        .error (failWith machine (.stackOverflow sLen operation.maxStack))
      else if readOnly ∧ (operation.writes ∨ (op = CALL ∧ machine.stack.getD 2 0 ≠ 0)) then
        .error (failWith machine .writeProtection)
      else .ok operation

/--
The memory size the operation needs, rounded up to words: the size its
memorySize function computes from the stack, times 32 after toWordSize, or 0
for an operation without one.  Go computes it again for a dynamic gas function
from the same stack, with the same result.
-/
def requiredMemory (operation : Operation σ) (stack : List Word) : Except Fault UInt64 :=
  match operation.memorySize with
  | none => .ok 0
  | some size =>
      match size stack with
      | .error fault => .error fault
      | .ok (memSize, overflow) =>
          if overflow then .error (.error .gasUintOverflow)
          else
            let (memorySize, overflow) := safeMul (toWordSize memSize) 32
            if overflow then .error (.error .gasUintOverflow) else .ok memorySize

/--
The dynamic gas: the cost the gas function computes, with the memory it
updates, and its charge.  Before Galaxias the charge is the operation's whole
cost, its constant gas included again; under Galaxias it is the dynamic cost.
An error of the gas function is returned as ErrOutOfGas.
-/
def chargeDynamic (isGalaxias : Bool) (operation : Operation σ) (memorySize : UInt64)
    (machine : Machine σ) : Except (Outcome σ) (Machine σ) :=
  match operation.dynamicGas with
  | none => .ok machine
  | some dynamicGas =>
      match dynamicGas machine memorySize with
      | .error _ => .error (failWith machine .outOfGas)
      | .ok (dynamicCost, memory) =>
          let cost := operation.constantGas + dynamicCost
          match useGas machine.gas (if isGalaxias then dynamicCost else cost) with
          | none => .error (failWith machine .outOfGas)
          | some gas => .ok { machine with gas := gas, lastGasCost := memory.lastGasCost }

/-- The charges before execute: constant gas, memory size, dynamic gas, and the resize. -/
def charge (isGalaxias : Bool) (operation : Operation σ) (machine : Machine σ) :
    Except (Outcome σ) (Machine σ) :=
  match useGas machine.gas operation.constantGas with
  | none => .error (failWith machine .outOfGas)
  | some gas =>
      let machine := { machine with gas := gas }
      match requiredMemory operation machine.stack with
      | .error fault => .error (fault.toOutcome machine)
      | .ok memorySize =>
          match chargeDynamic isGalaxias operation memorySize machine with
          | .error outcome => .error outcome
          | .ok machine =>
              .ok (if memorySize > 0 then { machine with store := resizeStore machine.store memorySize }
                else machine)

/--
After execute: the return data set by an operation that returns; Run returns
on a revert (with ErrExecutionReverted) and on a halt, and the loop moves the
program counter on unless the operation jumps.
-/
def finish (operation : Operation σ) (ret : List UInt8) (machine : Machine σ) :
    Except (Outcome σ) (Machine σ) :=
  let machine := if operation.returns then { machine with returnData := ret } else machine
  if operation.reverts then .error (.returned ret (some .executionReverted) machine)
  else if operation.halts then .error (.returned ret none machine)
  else if operation.jumps then .ok machine
  else .ok { machine with pc := machine.pc + 1 }

/-- One iteration of Run's loop. -/
def runStep (config : Config σ) (readOnly : Bool) (code : List UInt8) (machine : Machine σ) :
    Except (Outcome σ) (Machine σ) :=
  let machine := { machine with steps := machine.steps + 1 }
  -- the break of an aborted run returns nil, nil
  if machine.steps % 1000 = 0 ∧ config.abort machine.steps then .error (.returned [] none machine)
  else
    match validate config readOnly code machine with
    | .error outcome => .error outcome
    | .ok operation =>
        match charge config.isGalaxias operation machine with
        | .error outcome => .error outcome
        | .ok charged =>
            match operation.execute code charged with
            | .error fault => .error (fault.toOutcome charged)
            | .ok (ret, executed) => finish operation ret executed

/--
Interpreter.Run on a contract's code and gas, with the interpreter's read-only
flag: Run sets it for a read-only call and keeps a flag set by a caller.  Code
without bytes returns at once.  The loop runs with fuel; none when it runs out.
-/
def run (config : Config σ) (interpreterReadOnly readOnly : Bool) (code : List UInt8) (gas : UInt64)
    (world : σ) (fuel : Nat) : Option (Outcome σ) :=
  if code.length = 0 then some (.returned [] none (Machine.fresh gas world))
  else Loops.loop (runStep config (readOnly || interpreterReadOnly) code) fuel (Machine.fresh gas world)

end Loop

/-! ## What one iteration does -/

section Spec

variable {σ : Type} {config : Config σ} {readOnly : Bool} {code : List UInt8}

/-- The machine an iteration starts from, its count of iterations raised. -/
def Machine.tick (machine : Machine σ) : Machine σ :=
  { machine with steps := machine.steps + 1 }

theorem useGas_eq_some {gas cost left : UInt64} (used : useGas gas cost = some left) :
    left.toNat + cost.toNat = gas.toNat := by
  unfold useGas at used
  split_ifs at used with short
  cases used
  have enough : cost.toNat ≤ gas.toNat := UInt64.le_iff_toNat_le.mp (UInt64.not_lt.mp short)
  rw [UInt64.toNat_sub_of_le _ _ (UInt64.not_lt.mp short)]
  omega

theorem validate_eq_ok {machine : Machine σ} {operation : Operation σ}
    (validated : validate config readOnly code machine = .ok operation) :
    config.jumpTable (getOp code machine.pc) = some operation ∧
      operation.minStack ≤ machine.stack.length ∧ machine.stack.length ≤ operation.maxStack ∧
      ¬ (readOnly ∧ (operation.writes ∨ (getOp code machine.pc = CALL ∧ machine.stack.getD 2 0 ≠ 0))) := by
  unfold validate at validated
  dsimp only at validated
  split at validated
  · cases validated
  · rename_i found
    split_ifs at validated with under tooLarge writes
    cases validated
    exact ⟨found, by omega, by omega, writes⟩

/-- The dynamic charge takes gas and records the memory's cost, and changes nothing else. -/
theorem chargeDynamic_eq_ok {isGalaxias : Bool} {operation : Operation σ} {memorySize : UInt64}
    {machine next : Machine σ} (charged : chargeDynamic isGalaxias operation memorySize machine = .ok next) :
    (operation.dynamicGas = none ∧ next = machine) ∨
      ∃ dynamicGas dynamicCost memory gas, operation.dynamicGas = some dynamicGas ∧
        dynamicGas machine memorySize = .ok (dynamicCost, memory) ∧
        useGas machine.gas (if isGalaxias then dynamicCost else operation.constantGas + dynamicCost) = some gas ∧
        next = { machine with gas := gas, lastGasCost := memory.lastGasCost } := by
  unfold chargeDynamic at charged
  split at charged
  · rename_i none
    cases charged
    exact .inl ⟨none, rfl⟩
  · rename_i dynamicGas some
    split at charged
    · cases charged
    · rename_i dynamicCost memory computed
      dsimp only at charged
      cases used : useGas machine.gas (if isGalaxias then dynamicCost else operation.constantGas + dynamicCost) with
      | none => simp [used] at charged
      | some gas =>
          simp only [used, Except.ok.injEq] at charged
          exact .inr ⟨dynamicGas, dynamicCost, memory, gas, some, computed, used, charged.symm⟩

/-- The charges before execute: the constant gas, the memory size, the dynamic charge, the resize. -/
theorem charge_eq_ok {isGalaxias : Bool} {operation : Operation σ} {machine next : Machine σ}
    (charged : charge isGalaxias operation machine = .ok next) :
    ∃ gas memorySize dynamic, useGas machine.gas operation.constantGas = some gas ∧
      requiredMemory operation machine.stack = .ok memorySize ∧
      chargeDynamic isGalaxias operation memorySize { machine with gas := gas } = .ok dynamic ∧
      next = if memorySize > 0 then { dynamic with store := resizeStore dynamic.store memorySize } else dynamic := by
  unfold charge at charged
  split at charged
  · cases charged
  · rename_i gas used
    dsimp only at charged
    split at charged
    · cases charged
    · rename_i memorySize required
      split at charged
      · cases charged
      · rename_i dynamic dynamicCharged
        cases charged
        exact ⟨gas, memorySize, dynamic, used, required, dynamicCharged, rfl⟩

/-- The charges leave the program counter, the stack and the rest of the machine as they were. -/
theorem charge_frame {isGalaxias : Bool} {operation : Operation σ} {machine next : Machine σ}
    (charged : charge isGalaxias operation machine = .ok next) :
    next.pc = machine.pc ∧ next.stack = machine.stack ∧ next.returnData = machine.returnData ∧
      next.steps = machine.steps ∧ next.world = machine.world := by
  obtain ⟨gas, memorySize, dynamic, -, -, dynamicCharged, rfl⟩ := charge_eq_ok charged
  have dynamicFrame : dynamic.pc = machine.pc ∧ dynamic.stack = machine.stack ∧
      dynamic.returnData = machine.returnData ∧ dynamic.steps = machine.steps ∧ dynamic.world = machine.world := by
    rcases chargeDynamic_eq_ok dynamicCharged with ⟨-, rfl⟩ | ⟨_, _, _, _, -, -, -, rfl⟩ <;>
      exact ⟨rfl, rfl, rfl, rfl, rfl⟩
  split_ifs <;> exact dynamicFrame

/-- The gas after the charges: at least the constant gas is gone. -/
theorem charge_gas_le {isGalaxias : Bool} {operation : Operation σ} {machine next : Machine σ}
    (charged : charge isGalaxias operation machine = .ok next) :
    next.gas.toNat + operation.constantGas.toNat ≤ machine.gas.toNat := by
  obtain ⟨gas, memorySize, dynamic, used, -, dynamicCharged, rfl⟩ := charge_eq_ok charged
  have constant := useGas_eq_some used
  have dynamicGas : dynamic.gas.toNat ≤ gas.toNat := by
    rcases chargeDynamic_eq_ok dynamicCharged with ⟨-, rfl⟩ | ⟨_, _, _, left, -, -, dynamicUsed, rfl⟩
    · exact le_refl _
    · have paid := useGas_eq_some dynamicUsed
      exact Nat.le.intro paid
  -- the resize keeps the gas
  split_ifs <;> exact le_trans (Nat.add_le_add_right dynamicGas _) constant.le

theorem resizeStore_length (store : List UInt8) (size : UInt64) :
    (resizeStore store size).length = max store.length size.toNat := by
  unfold resizeStore
  split_ifs with grows
  · simp only [List.length_append, List.length_replicate]
    omega
  · omega

/-- The charges grow the store only by the resize, to the memory size. -/
theorem charge_store_length {isGalaxias : Bool} {operation : Operation σ} {machine next : Machine σ}
    (charged : charge isGalaxias operation machine = .ok next) :
    ∃ memorySize, requiredMemory operation machine.stack = .ok memorySize ∧
      next.store.length = max machine.store.length memorySize.toNat := by
  obtain ⟨gas, memorySize, dynamic, -, required, dynamicCharged, rfl⟩ := charge_eq_ok charged
  have sameStore : dynamic.store = machine.store := by
    rcases chargeDynamic_eq_ok dynamicCharged with ⟨-, rfl⟩ | ⟨_, _, _, _, -, -, -, rfl⟩ <;> rfl
  refine ⟨memorySize, required, ?_⟩
  split_ifs with grows
  · rw [resizeStore_length, sameStore]
  · -- no resize for a memory size of zero
    have empty : memorySize.toNat = 0 := by
      rw [gt_iff_lt, UInt64.lt_iff_toNat_lt] at grows
      exact Nat.eq_zero_of_not_pos grows
    rw [sameStore, empty, Nat.max_zero]

/-- An iteration that goes on: the operation did not revert or halt, and the counter moved unless it jumps. -/
theorem finish_eq_ok {operation : Operation σ} {ret : List UInt8} {machine next : Machine σ}
    (finished : finish operation ret machine = .ok next) :
    operation.reverts = false ∧ operation.halts = false ∧
      next = (let returned := if operation.returns then { machine with returnData := ret } else machine
        if operation.jumps then returned else { returned with pc := returned.pc + 1 }) := by
  unfold finish at finished
  split_ifs at finished with reverted halted jumped <;> cases finished <;>
    simp_all

/-- After execute the loop changes only the return data and the program counter. -/
theorem finish_frame {operation : Operation σ} {ret : List UInt8} {machine next : Machine σ}
    (finished : finish operation ret machine = .ok next) :
    next.stack = machine.stack ∧ next.gas = machine.gas ∧ next.store = machine.store ∧
      next.lastGasCost = machine.lastGasCost ∧ next.pc = if operation.jumps then machine.pc else machine.pc + 1 := by
  obtain ⟨-, -, rfl⟩ := finish_eq_ok finished
  split_ifs <;> exact ⟨rfl, rfl, rfl, rfl, rfl⟩

/-- An iteration that goes on passed the checks and the charges, and executed an operation that went on. -/
theorem runStep_eq_ok {machine next : Machine σ}
    (stepped : runStep config readOnly code machine = .ok next) :
    ∃ operation charged ret executed,
      validate config readOnly code machine.tick = .ok operation ∧
      charge config.isGalaxias operation machine.tick = .ok charged ∧
      operation.execute code charged = .ok (ret, executed) ∧
      finish operation ret executed = .ok next := by
  unfold runStep at stepped
  dsimp only at stepped
  split_ifs at stepped
  split at stepped
  · cases stepped
  · rename_i operation validated
    split at stepped
    · cases stepped
    · rename_i charged chargedOk
      split at stepped
      · cases stepped
      · rename_i ret executed executedOk
        exact ⟨operation, charged, ret, executed, validated, chargedOk, executedOk, stepped⟩

end Spec

end Kardia.Kvm
