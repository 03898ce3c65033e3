import Mathlib
import Kardia.Interpreter

/-!
# What holds along every run of the interpreter

Run's loop is the same for every jump table, so what it guarantees depends on
the table only through a few conditions on its entries, each a promise the
table's authors make when they fill in minStack, maxStack, constantGas and the
flags next to an execute function:

* StackSound: execute takes the items minStack names and leaves the number
  maxStack allows.  Then no stack of a run grows past StackLimit, since the
  loop refuses an operation on a stack above its maxStack.
* PcSound: execute moves the program counter over the operation's own data,
  and a jump lands on a valid JUMPDEST.  Then the loop only ever fetches an
  opcode at an instruction boundary of the code: it never runs a byte of the
  data a PUSH carries.
* Metered: an operation that does not end the run costs constant gas, and
  execute gives no gas back.  Then every iteration that goes on lowers the
  gas, and Run returns after at most as many iterations as it has gas.
* PanicFree: once the loop's checks and charges have passed, neither the
  memory size nor execute panics.  Then Run never panics.

Each is proved as an invariant of one iteration and lifted to the whole loop
with the rules of Loops.
-/

namespace Kardia.Kvm

section Conditions

variable {σ : Type}

/-- The items an operation leaves in place of the minStack it takes, as its maxStack declares. -/
def Operation.pushes (operation : Operation σ) : Nat :=
  StackLimit + operation.minStack - operation.maxStack

/-- An operation whose execute changes the stack as minStack and maxStack declare. -/
structure Operation.StackSound (operation : Operation σ) : Prop where
  bounded : operation.maxStack ≤ StackLimit + operation.minStack
  effect : ∀ code machine ret next, operation.minStack ≤ machine.stack.length →
    machine.stack.length ≤ operation.maxStack → operation.execute code machine = .ok (ret, next) →
    next.stack.length + operation.minStack = machine.stack.length + operation.pushes

/--
A table whose operations move the program counter as the reading of the code
does: past the data of their opcode (the loop then adds one), and for a jump
either to the next instruction or to a valid JUMPDEST.
-/
def PcSound (table : UInt8 → Option (Operation σ)) : Prop :=
  ∀ op operation, table op = some operation → ∀ code machine ret next,
    operation.execute code machine = .ok (ret, next) →
      if operation.jumps then next.pc = machine.pc + pushWidth op + 1 ∨ validJumpdest code next.pc = some true
      else next.pc = machine.pc + pushWidth op

/-- An operation that costs gas unless it ends the run, and whose execute gives none back. -/
structure Operation.Metered (operation : Operation σ) : Prop where
  positive : operation.halts = false → operation.reverts = false → 0 < operation.constantGas.toNat
  keepsGas : ∀ code machine ret next, operation.execute code machine = .ok (ret, next) →
    next.gas.toNat ≤ machine.gas.toNat

/--
An operation whose memory size and execute fail only with errors once the
loop's checks and charges passed, on a store whose length fits 64 bits; its
execute writes into the store but does not grow it, as only the loop resizes.
-/
structure Operation.PanicFree (operation : Operation σ) : Prop where
  memory : ∀ stack fault, operation.minStack ≤ stack.length →
    requiredMemory operation stack = .error fault → ∃ err, fault = .error err
  keepsStore : ∀ code machine ret next, operation.execute code machine = .ok (ret, next) →
    next.store.length = machine.store.length
  execute : ∀ isGalaxias code (machine charged : Machine σ) fault, code.length ≤ 2 ^ 64 →
    machine.store.length < 2 ^ 64 →
    operation.minStack ≤ machine.stack.length → machine.stack.length ≤ operation.maxStack →
    charge isGalaxias operation machine = .ok charged → operation.execute code charged = .error fault →
    ∃ err, fault = .error err

end Conditions

section Iteration

variable {σ : Type} {config : Config σ} {readOnly : Bool} {code : List UInt8}

@[simp] theorem Machine.tick_stack (machine : Machine σ) : machine.tick.stack = machine.stack := rfl

@[simp] theorem Machine.tick_pc (machine : Machine σ) : machine.tick.pc = machine.pc := rfl

@[simp] theorem Machine.tick_gas (machine : Machine σ) : machine.tick.gas = machine.gas := rfl

/--
An iteration leaves a stack within the limit, whatever the stack it starts
from, when every entry of the table is stack-sound: the check before execute
bounds the stack by the entry's maxStack.
-/
theorem runStep_stack_le
    (sound : ∀ op operation, config.jumpTable op = some operation → operation.StackSound)
    {machine next : Machine σ} (stepped : runStep config readOnly code machine = .ok next) :
    next.stack.length ≤ StackLimit := by
  obtain ⟨operation, charged, ret, executed, validated, chargedOk, executedOk, finished⟩ := runStep_eq_ok stepped
  obtain ⟨found, low, high, -⟩ := validate_eq_ok validated
  obtain ⟨-, sameStack, -⟩ := charge_frame chargedOk
  rw [Machine.tick_stack] at low high sameStack
  have effect := (sound _ _ found).effect code charged ret executed (sameStack ▸ low) (sameStack ▸ high) executedOk
  have declared := (sound _ _ found).bounded
  rw [(finish_frame finished).1]
  unfold Operation.pushes at effect
  rw [sameStack] at effect
  omega

/-- An instruction boundary inside the code is followed by another. -/
theorem Boundary.nextPc {pc : Nat} (boundary : Boundary code pc) (inside : pc < code.length) :
    Boundary code (nextPc code pc) := by
  obtain ⟨k, before, rfl⟩ := boundary
  refine ⟨k + 1, fun j below => ?_, rfl⟩
  rcases Nat.lt_succ_iff_lt_or_eq.mp below with earlier | rfl
  · exact before j earlier
  · exact inside

/-- Where the loop may fetch: an instruction boundary, or past the end of the code. -/
def AtInstruction (code : List UInt8) (pc : Nat) : Prop :=
  Boundary code pc ∨ code.length ≤ pc

/-- One iteration moves from an instruction to an instruction, when the table is pc-sound. -/
theorem runStep_atInstruction (sound : PcSound config.jumpTable) (fits : code.length ≤ 2 ^ 64)
    {machine next : Machine σ} (at_ : AtInstruction code machine.pc)
    (stepped : runStep config readOnly code machine = .ok next) :
    AtInstruction code next.pc := by
  obtain ⟨operation, charged, ret, executed, validated, chargedOk, executedOk, finished⟩ := runStep_eq_ok stepped
  obtain ⟨found, -, -, -⟩ := validate_eq_ok validated
  obtain ⟨samePc, -⟩ := charge_frame chargedOk
  have moved := sound _ _ found code charged ret executed executedOk
  rw [samePc, Machine.tick_pc] at moved
  rw [Machine.tick_pc] at found
  have nextPcEq : nextPc code machine.pc = machine.pc + pushWidth (getOp code machine.pc) + 1 := by
    simp only [nextPc, getOp]
    omega
  -- where the next fetch is: the next instruction, or a JUMPDEST the analysis accepted
  have landed : next.pc = nextPc code machine.pc ∨ validJumpdest code next.pc = some true := by
    rw [(finish_frame finished).2.2.2.2, nextPcEq]
    split_ifs at moved ⊢
    · exact moved
    · exact .inl (by rw [moved])
  rcases landed with toNext | toJumpdest
  · rw [toNext]
    rcases at_ with boundary | past
    · by_cases inside : machine.pc < code.length
      · exact .inl (boundary.nextPc inside)
      · exact .inr (by simp only [nextPc]; omega)
    · exact .inr (by simp only [nextPc]; omega)
  · obtain ⟨valid, answered, meaning⟩ := validJumpdest_spec code fits next.pc
    rw [toJumpdest, Option.some.injEq] at answered
    exact .inl (meaning.mp answered.symm).2.2

/-- One iteration that goes on lowers the gas, when every entry of the table is metered. -/
theorem runStep_gas_lt
    (metered : ∀ op operation, config.jumpTable op = some operation → operation.Metered)
    {machine next : Machine σ} (stepped : runStep config readOnly code machine = .ok next) :
    next.gas.toNat < machine.gas.toNat := by
  obtain ⟨operation, charged, ret, executed, validated, chargedOk, executedOk, finished⟩ := runStep_eq_ok stepped
  obtain ⟨found, -, -, -⟩ := validate_eq_ok validated
  obtain ⟨notReverted, notHalted, -⟩ := finish_eq_ok finished
  have positive := (metered _ _ found).positive notHalted notReverted
  have kept := (metered _ _ found).keepsGas code charged ret executed executedOk
  have paid := charge_gas_le chargedOk
  rw [Machine.tick_gas] at paid
  rw [(finish_frame finished).2.1]
  omega

/-- One iteration keeps the length of the store within 64 bits, when no entry grows the store in execute. -/
theorem runStep_store_lt
    (panicFree : ∀ op operation, config.jumpTable op = some operation → operation.PanicFree)
    {machine next : Machine σ} (bounded : machine.store.length < 2 ^ 64)
    (stepped : runStep config readOnly code machine = .ok next) :
    next.store.length < 2 ^ 64 := by
  obtain ⟨operation, charged, ret, executed, validated, chargedOk, executedOk, finished⟩ := runStep_eq_ok stepped
  obtain ⟨found, -⟩ := validate_eq_ok validated
  obtain ⟨memorySize, -, resized⟩ := charge_store_length chargedOk
  have kept := (panicFree _ _ found).keepsStore code charged ret executed executedOk
  have sizeFits := UInt64.toNat_lt memorySize
  rw [(finish_frame finished).2.2.1, kept, resized]
  exact max_lt bounded sizeFits

/-- A fault that Run reports as a panic is a panic, not an error. -/
theorem Fault.toOutcome_eq_panicked {machine : Machine σ} {fault panic : Fault}
    (panicked : fault.toOutcome machine = .panicked panic) :
    fault = panic ∧ ∀ err, fault ≠ .error err := by
  cases fault with
  | error err => cases panicked
  | _ =>
      cases panicked
      exact ⟨rfl, fun _ => Fault.noConfusion⟩

/-- The charges panic only where the memory size does. -/
theorem charge_eq_panicked {isGalaxias : Bool} {operation : Operation σ} {machine : Machine σ} {panic : Fault}
    (panicked : charge isGalaxias operation machine = .error (.panicked panic)) :
    requiredMemory operation machine.stack = .error panic ∧ ∀ err, panic ≠ .error err := by
  unfold charge at panicked
  split at panicked
  · cases panicked
  · dsimp only at panicked
    split at panicked
    · rename_i fault required
      obtain ⟨rfl, notError⟩ := Fault.toOutcome_eq_panicked (Except.error.inj panicked)
      exact ⟨required, notError⟩
    · split at panicked
      · rename_i outcome dynamicFailed
        -- the dynamic charge fails only with ErrOutOfGas
        unfold chargeDynamic at dynamicFailed
        split at dynamicFailed
        · cases dynamicFailed
        · split at dynamicFailed
          · cases dynamicFailed
            cases panicked
          · dsimp only at dynamicFailed
            split at dynamicFailed
            · cases dynamicFailed
              cases panicked
            · cases dynamicFailed
      · cases panicked

/-- An iteration panics only in the memory size or in execute, after the checks passed. -/
theorem runStep_eq_panicked {machine : Machine σ} {panic : Fault}
    (panicked : runStep config readOnly code machine = .error (.panicked panic)) :
    ∃ operation, validate config readOnly code machine.tick = .ok operation ∧
      (requiredMemory operation machine.stack = .error panic ∨
        ∃ charged, charge config.isGalaxias operation machine.tick = .ok charged ∧
          operation.execute code charged = .error panic) ∧ ∀ err, panic ≠ .error err := by
  unfold runStep at panicked
  dsimp only at panicked
  split_ifs at panicked
  · cases panicked
  split at panicked
  · rename_i outcome invalid
    -- the checks fail only with errors
    unfold validate at invalid
    dsimp only at invalid
    split at invalid
    · cases invalid
      cases panicked
    · split_ifs at invalid <;> (cases invalid; cases panicked)
  · rename_i operation validated
    split at panicked
    · rename_i outcome chargeFailed
      cases panicked
      obtain ⟨required, notError⟩ := charge_eq_panicked chargeFailed
      exact ⟨operation, validated, .inl required, notError⟩
    · rename_i charged chargedOk
      split at panicked
      · rename_i fault executedFault
        obtain ⟨rfl, notError⟩ := Fault.toOutcome_eq_panicked (Except.error.inj panicked)
        exact ⟨operation, validated, .inr ⟨charged, chargedOk, executedFault⟩, notError⟩
      · rename_i ret executed executedOk
        unfold finish at panicked
        split_ifs at panicked <;> cases panicked

end Iteration

section Runs

variable {σ : Type} {config : Config σ} {readOnly : Bool} {code : List UInt8}

/-- The machines the loop of Run reaches on a contract's code from its start. -/
def Reached (config : Config σ) (readOnly : Bool) (code : List UInt8) (gas : UInt64) (world : σ)
    (machine : Machine σ) : Prop :=
  Loops.Reaches (runStep config readOnly code) (Machine.fresh gas world) machine

/--
No stack of a run grows past StackLimit, when every entry of the jump table is
stack-sound: the bound holds at every machine the loop reaches.
-/
theorem run_stack_le_stackLimit
    (sound : ∀ op operation, config.jumpTable op = some operation → operation.StackSound)
    {gas : UInt64} {world : σ} {machine : Machine σ} (reached : Reached config readOnly code gas world machine) :
    machine.stack.length ≤ StackLimit :=
  Loops.invariant_of_reaches (fun _ _ _ stepped => runStep_stack_le sound stepped)
    (by simp [Machine.fresh, StackLimit]) reached

/--
The loop never fetches a byte of PUSH data as an opcode, when the jump table
is pc-sound: every machine it reaches stands at an instruction boundary of the
code or past its end.
-/
theorem run_fetches_instructions (sound : PcSound config.jumpTable) (fits : code.length ≤ 2 ^ 64)
    {gas : UInt64} {world : σ} {machine : Machine σ} (reached : Reached config readOnly code gas world machine)
    (inside : machine.pc < code.length) :
    ¬ InData code machine.pc := by
  have at_ : AtInstruction code machine.pc :=
    Loops.invariant_of_reaches (fun _ _ at_ stepped => runStep_atInstruction sound fits at_ stepped)
      (.inl ⟨0, fun _ below => absurd below (Nat.not_lt_zero _), rfl⟩) reached
  rcases at_ with boundary | past
  · exact (boundary_iff_not_inData inside).mp boundary
  · omega

/--
Run returns: when every entry of the jump table is metered, each iteration
that goes on costs gas, so Run ends within one iteration more than its gas.
-/
theorem run_returns
    (metered : ∀ op operation, config.jumpTable op = some operation → operation.Metered)
    (interpreterReadOnly readOnly : Bool) (code : List UInt8) (gas : UInt64) (world : σ) :
    ∃ outcome, run config interpreterReadOnly readOnly code gas world (gas.toNat + 1) = some outcome := by
  unfold run
  split_ifs
  · exact ⟨_, rfl⟩
  · exact Loops.loop_isSome_of_measure (fun machine => machine.gas.toNat)
      (fun _ _ stepped => runStep_gas_lt metered stepped) (Nat.lt_succ_self _)

/--
Run never panics when every entry of the jump table is panic-free: the loop
checks the stack before it reads it, and charges before it executes.
-/
theorem run_never_panics
    (panicFree : ∀ op operation, config.jumpTable op = some operation → operation.PanicFree)
    {interpreterReadOnly readOnly : Bool} {code : List UInt8} (fits : code.length ≤ 2 ^ 64)
    {gas : UInt64} {world : σ} {fuel : Nat} {fault : Fault} :
    run config interpreterReadOnly readOnly code gas world fuel ≠ some (.panicked fault) := by
  unfold run
  split_ifs
  · intro returned
    cases returned
  intro answered
  obtain ⟨last, reaches, exits⟩ := Loops.exits_of_loop_eq_some answered
  -- the store the last iteration starts from fits 64 bits, as every store of the run does
  have bounded : last.store.length < 2 ^ 64 :=
    Loops.invariant_of_reaches (fun _ _ bounded stepped => runStep_store_lt panicFree bounded stepped)
      (by simp [Machine.fresh]) reaches
  obtain ⟨operation, validated, panicked, notError⟩ := runStep_eq_panicked exits
  obtain ⟨found, low, high, -⟩ := validate_eq_ok validated
  rw [Machine.tick_stack] at low high
  rcases panicked with required | ⟨charged, chargedOk, executedFault⟩
  · obtain ⟨err, rfl⟩ := (panicFree _ _ found).memory _ _ low required
    exact notError err rfl
  · obtain ⟨err, rfl⟩ := (panicFree _ _ found).execute config.isGalaxias code last.tick charged fault fits bounded
      low high chargedOk executedFault
    exact notError err rfl

end Runs

end Kardia.Kvm
