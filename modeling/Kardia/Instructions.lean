import Mathlib
import Kardia.InterpreterRuns

/-!
# The instruction set of the stack, memory and control flow

The entries of newV1InstructionSet for the opcodes that work on the stack, the
memory and the program counter alone: STOP, the arithmetic, comparison and
bitwise opcodes, POP, MLOAD and MSTORE, JUMP, JUMPI, PC, MSIZE, GAS, JUMPDEST,
PUSH1 to PUSH32, DUP1 to DUP16, SWAP1 to SWAP16, RETURN and REVERT, with their
execute, memory-size and gas functions; and CHAINID, which
newV2InstructionSet adds.  The opcodes that read or write the world (storage,
logs, calls, creates, the block and transaction context) are not in this
table, which answers none for them.

The stack and memory functions follow stack.go and memory.go: the stack's top
is the head of the list, so Back(n) is the n-th element, DUPn copies the n-th
and SWAPn exchanges the top with the one n below it; a Go index or slice past
the end panics.  A word is read from and written to memory most significant
byte first, as SetBytes and WriteToSlice do.
-/

namespace Kardia.Kvm

section Stack

/-- minStack: an operation needs as many items as it pops. -/
def minStack (pops _push : Nat) : Nat := pops

/-- maxStack: the largest stack on which the items an operation pushes still fit. -/
def maxStack (pop push : Nat) : Nat := StackLimit + pop - push

def minSwapStack (n : Nat) : Nat := minStack n n

def maxSwapStack (n : Nat) : Nat := maxStack n n

def minDupStack (n : Nat) : Nat := minStack n (n + 1)

def maxDupStack (n : Nat) : Nat := maxStack n (n + 1)

/-- Stack.Back: the n-th item from the top; a panic past the bottom. -/
def back (stack : List Word) (n : Nat) : Except Fault Word :=
  match stack[n]? with
  | some word => .ok word
  | none => .error .indexOutOfRange

end Stack

section Bytes

/-- uint256.Int.SetBytes: the word the bytes spell, most significant first. -/
def wordOfBytes (bytes : List UInt8) : Word :=
  BitVec.ofNat 256 (bytes.foldl (fun acc byte => acc * 256 + byte.toNat) 0)

/-- uint256.Int.WriteToSlice of a whole word: its 32 bytes, most significant first. -/
def bytesOfWord (word : Word) : List UInt8 :=
  (List.range 32).map fun i => UInt8.ofNat (word.toNat / 256 ^ (31 - i))

/-- common.RightPadBytes: the bytes padded with zeros to l, or as they are if not shorter. -/
def rightPadBytes (slice : List UInt8) (l : Nat) : List UInt8 :=
  if l ≤ slice.length then slice else slice ++ List.replicate (l - slice.length) 0

/-- int64(x.Uint64()): the low 64 bits of a word, read as a signed integer. -/
def toInt64 (word : Word) : Int :=
  (Int64.ofNat word.toNat).toInt

/-- Memory.GetPtr: the bytes at offset, none for size 0 or an offset at or past the end. -/
def getPtr (store : List UInt8) (offset size : Int) : Except Fault (List UInt8) :=
  if size = 0 then .ok []
  else if offset < store.length then
    if 0 ≤ offset ∧ 0 ≤ size ∧ offset + size ≤ store.length then
      .ok ((store.drop offset.toNat).take size.toNat)
    else .error .sliceBoundsOutOfRange
  else .ok []

/--
Memory.Set32: the 32 bytes at offset set to the word.  The bound is checked in
uint64 arithmetic, which wraps for an offset within 32 of 2^64; the slice then
starts past the end.
-/
def set32 (store : List UInt8) (offset : UInt64) (val : Word) : Except Fault (List UInt8) :=
  if offset + 32 > store.length.toUInt64 then .error .invalidMemory
  else if offset.toNat + 32 > store.length then .error .sliceBoundsOutOfRange
  else .ok (store.take offset.toNat ++ bytesOfWord val ++ store.drop (offset.toNat + 32))

end Bytes

section MemorySize

/-- calcMemSize64WithUint: offset plus length, none for length 0, and whether it overflows. -/
def calcMemSize64WithUint (off : Word) (length64 : UInt64) : UInt64 × Bool :=
  if length64 = 0 then (0, false)
  else
    let (offset64, overflow) := uint64WithOverflow off
    if overflow then (0, true)
    else
      let val := offset64 + length64
      (val, val < offset64)

/-- calcMemSize64: as calcMemSize64WithUint, for a length that must fit 64 bits. -/
def calcMemSize64 (off l : Word) : UInt64 × Bool :=
  if 2 ^ 64 ≤ l.toNat then (0, true) else calcMemSize64WithUint off (UInt64.ofNat l.toNat)

/-- The memory-size functions of a word at the offset on top of the stack. -/
def memoryWordAt (length : UInt64) (stack : List Word) : Except Fault (UInt64 × Bool) :=
  (back stack 0).map fun off => calcMemSize64WithUint off length

/-- The memory-size functions of a region given by an offset and a length on the stack. -/
def memoryRegionAt (offsetIndex lengthIndex : Nat) (stack : List Word) : Except Fault (UInt64 × Bool) := do
  let off ← back stack offsetIndex
  let l ← back stack lengthIndex
  pure (calcMemSize64 off l)

def memoryMLoad (stack : List Word) : Except Fault (UInt64 × Bool) :=
  memoryWordAt 32 stack

def memoryMStore (stack : List Word) : Except Fault (UInt64 × Bool) :=
  memoryWordAt 32 stack

def memoryReturn (stack : List Word) : Except Fault (UInt64 × Bool) :=
  memoryRegionAt 0 1 stack

def memoryRevert (stack : List Word) : Except Fault (UInt64 × Bool) :=
  memoryRegionAt 0 1 stack

end MemorySize

section Execute

variable {σ : Type}

/-- pureMemoryGascost: the memory expansion fee, the gas of MLOAD, MSTORE, RETURN and REVERT. -/
def pureMemoryGascost (machine : Machine σ) (memorySize : UInt64) : Except KvmError (UInt64 × Memory) :=
  match memoryGasCost machine.memory memorySize with
  | .ok charged => .ok charged
  | .error .gasUintOverflow => .error .gasUintOverflow

/-- The execute functions that pop x and replace the item below by x op y. -/
def binaryOp (op : Word → Word → Word) (_code : List UInt8) (machine : Machine σ) :
    Except Fault (List UInt8 × Machine σ) :=
  match machine.stack with
  | x :: y :: rest => .ok ([], { machine with stack := op x y :: rest })
  | _ => .error .indexOutOfRange

/-- The execute functions that replace the top x by op x. -/
def unaryOp (op : Word → Word) (_code : List UInt8) (machine : Machine σ) :
    Except Fault (List UInt8 × Machine σ) :=
  match machine.stack with
  | x :: rest => .ok ([], { machine with stack := op x :: rest })
  | [] => .error .indexOutOfRange

/-- The execute functions that push a word read from the machine. -/
def pushOp (read : Machine σ → Word) (_code : List UInt8) (machine : Machine σ) :
    Except Fault (List UInt8 × Machine σ) :=
  .ok ([], { machine with stack := read machine :: machine.stack })

/-- A comparison's result: one when it holds, zero otherwise. -/
def flag (holds : Bool) : Word :=
  if holds then 1 else 0

def opAdd : List UInt8 → Machine σ → Except Fault (List UInt8 × Machine σ) :=
  binaryOp fun x y => x + y

def opMul : List UInt8 → Machine σ → Except Fault (List UInt8 × Machine σ) :=
  binaryOp fun x y => x * y

def opSub : List UInt8 → Machine σ → Except Fault (List UInt8 × Machine σ) :=
  binaryOp fun x y => x - y

/-- opDiv: uint256's Div, zero for a zero divisor, as BitVec's. -/
def opDiv : List UInt8 → Machine σ → Except Fault (List UInt8 × Machine σ) :=
  binaryOp fun x y => x / y

/-- opMod: uint256's Mod, zero for a zero divisor where BitVec's keeps x. -/
def opMod : List UInt8 → Machine σ → Except Fault (List UInt8 × Machine σ) :=
  binaryOp fun x y => if y = 0 then 0 else x % y

def opLt : List UInt8 → Machine σ → Except Fault (List UInt8 × Machine σ) :=
  binaryOp fun x y => flag (decide (x < y))

def opGt : List UInt8 → Machine σ → Except Fault (List UInt8 × Machine σ) :=
  binaryOp fun x y => flag (decide (y < x))

def opEq : List UInt8 → Machine σ → Except Fault (List UInt8 × Machine σ) :=
  binaryOp fun x y => flag (decide (x = y))

def opAnd : List UInt8 → Machine σ → Except Fault (List UInt8 × Machine σ) :=
  binaryOp fun x y => x &&& y

def opOr : List UInt8 → Machine σ → Except Fault (List UInt8 × Machine σ) :=
  binaryOp fun x y => x ||| y

def opXor : List UInt8 → Machine σ → Except Fault (List UInt8 × Machine σ) :=
  binaryOp fun x y => x ^^^ y

def opNot : List UInt8 → Machine σ → Except Fault (List UInt8 × Machine σ) :=
  unaryOp fun x => ~~~x

def opIszero : List UInt8 → Machine σ → Except Fault (List UInt8 × Machine σ) :=
  unaryOp fun x => flag (decide (x = 0))

def opPop (_code : List UInt8) (machine : Machine σ) : Except Fault (List UInt8 × Machine σ) :=
  match machine.stack with
  | _ :: rest => .ok ([], { machine with stack := rest })
  | [] => .error .indexOutOfRange

def opMload (_code : List UInt8) (machine : Machine σ) : Except Fault (List UInt8 × Machine σ) :=
  match machine.stack with
  | v :: rest => do
      let bytes ← getPtr machine.store (toInt64 v) 32
      pure ([], { machine with stack := wordOfBytes bytes :: rest })
  | [] => .error .indexOutOfRange

def opMstore (_code : List UInt8) (machine : Machine σ) : Except Fault (List UInt8 × Machine σ) :=
  match machine.stack with
  | mStart :: val :: rest => do
      let store ← set32 machine.store (UInt64.ofNat mStart.toNat) val
      pure ([], { machine with stack := rest, store := store })
  | _ => .error .indexOutOfRange

/-- The jump of JUMP and a taken JUMPI: to a valid JUMPDEST, else ErrInvalidJump. -/
def jumpTo (code : List UInt8) (pos : Word) (machine : Machine σ) : Except Fault (List UInt8 × Machine σ) :=
  match validJumpdest code pos.toNat with
  | some true => .ok ([], { machine with pc := (UInt64.ofNat pos.toNat).toNat })
  | some false => .error (.error .invalidJump)
  | none => .error .indexOutOfRange

def opJump (code : List UInt8) (machine : Machine σ) : Except Fault (List UInt8 × Machine σ) :=
  match machine.stack with
  | pos :: rest => jumpTo code pos { machine with stack := rest }
  | [] => .error .indexOutOfRange

def opJumpi (code : List UInt8) (machine : Machine σ) : Except Fault (List UInt8 × Machine σ) :=
  match machine.stack with
  | pos :: cond :: rest =>
      if cond ≠ 0 then jumpTo code pos { machine with stack := rest }
      else .ok ([], { machine with stack := rest, pc := machine.pc + 1 })
  | _ => .error .indexOutOfRange

def opJumpdest (_code : List UInt8) (machine : Machine σ) : Except Fault (List UInt8 × Machine σ) :=
  .ok ([], machine)

def opPc : List UInt8 → Machine σ → Except Fault (List UInt8 × Machine σ) :=
  pushOp fun machine => BitVec.ofNat 256 machine.pc

def opMsize : List UInt8 → Machine σ → Except Fault (List UInt8 × Machine σ) :=
  pushOp fun machine => BitVec.ofNat 256 machine.store.length

def opGas : List UInt8 → Machine σ → Except Fault (List UInt8 × Machine σ) :=
  pushOp fun machine => BitVec.ofNat 256 machine.gas.toNat

/-- opChainID: the chain's identifier, from the KVM's chain configuration. -/
def opChainID (chainId : Word) : List UInt8 → Machine σ → Except Fault (List UInt8 × Machine σ) :=
  pushOp fun _ => chainId

/-- opPush1, the specialised PUSH1: the byte after the opcode, zero past the code. -/
def opPush1 (code : List UInt8) (machine : Machine σ) : Except Fault (List UInt8 × Machine σ) :=
  let codeLen := code.length
  let pc := machine.pc + 1
  let integer : Word := if pc < codeLen then BitVec.ofNat 256 (code.getD pc 0).toNat else 0
  .ok ([], { machine with pc := pc, stack := integer :: machine.stack })

/-- makePush: the pushByteSize bytes after the opcode, padded with zeros past the code. -/
def makePush (size pushByteSize : Nat) (code : List UInt8) (machine : Machine σ) :
    Except Fault (List UInt8 × Machine σ) :=
  let codeLen := code.length
  let startMin := min codeLen (machine.pc + 1)
  let endMin := min codeLen (startMin + pushByteSize)
  let integer := wordOfBytes (rightPadBytes ((code.drop startMin).take (endMin - startMin)) pushByteSize)
  .ok ([], { machine with stack := integer :: machine.stack, pc := machine.pc + size })

/-- makeDup: Stack.dup(n) pushes a copy of the n-th item. -/
def makeDup (size : Nat) (_code : List UInt8) (machine : Machine σ) : Except Fault (List UInt8 × Machine σ) :=
  if size = 0 ∨ machine.stack.length < size then .error .indexOutOfRange
  else .ok ([], { machine with stack := machine.stack.getD (size - 1) 0 :: machine.stack })

/-- makeSwap: Stack.swap(n + 1) exchanges the top with the item n below it. -/
def makeSwap (size : Nat) (_code : List UInt8) (machine : Machine σ) : Except Fault (List UInt8 × Machine σ) :=
  let size := size + 1
  if machine.stack.length < size then .error .indexOutOfRange
  else
    let stack := machine.stack
    .ok ([], { machine with stack := (stack.set 0 (stack.getD (size - 1) 0)).set (size - 1) (stack.getD 0 0) })

/-- opReturn and opRevert: the memory region of the offset and size popped. -/
def returnRegion (machine : Machine σ) : Except Fault (List UInt8 × Machine σ) :=
  match machine.stack with
  | offset :: size :: rest => do
      let ret ← getPtr machine.store (toInt64 offset) (toInt64 size)
      pure (ret, { machine with stack := rest })
  | _ => .error .indexOutOfRange

def opReturn (_code : List UInt8) (machine : Machine σ) : Except Fault (List UInt8 × Machine σ) :=
  returnRegion machine

def opRevert (_code : List UInt8) (machine : Machine σ) : Except Fault (List UInt8 × Machine σ) :=
  returnRegion machine

def opStop (_code : List UInt8) (machine : Machine σ) : Except Fault (List UInt8 × Machine σ) :=
  .ok ([], machine)

end Execute

section Table

variable {σ : Type}

def GasQuickStep : UInt64 := 2

def GasFastestStep : UInt64 := 3

def GasFastStep : UInt64 := 5

def GasMidStep : UInt64 := 8

def GasSlowStep : UInt64 := 10

def JumpdestGas : UInt64 := 1

/-- The entries of the opcodes that pop two items and push one. -/
def binaryOperation (execute : List UInt8 → Machine σ → Except Fault (List UInt8 × Machine σ))
    (constantGas : UInt64) : Operation σ :=
  { execute, constantGas, minStack := minStack 2 1, maxStack := maxStack 2 1 }

/-- The entries of the opcodes that pop one item and push one. -/
def unaryOperation (execute : List UInt8 → Machine σ → Except Fault (List UInt8 × Machine σ))
    (constantGas : UInt64) : Operation σ :=
  { execute, constantGas, minStack := minStack 1 1, maxStack := maxStack 1 1 }

/-- The entries of the opcodes that push one item. -/
def pushingOperation (execute : List UInt8 → Machine σ → Except Fault (List UInt8 × Machine σ))
    (constantGas : UInt64) : Operation σ :=
  { execute, constantGas, minStack := minStack 0 1, maxStack := maxStack 0 1 }

/-- PUSH2 to PUSH32. -/
def pushOperation (size : Nat) : Operation σ :=
  pushingOperation (makePush size size) GasFastestStep

/-- DUP1 to DUP16. -/
def dupOperation (size : Nat) : Operation σ :=
  { execute := makeDup size, constantGas := GasFastestStep,
    minStack := minDupStack size, maxStack := maxDupStack size }

/-- SWAP1 to SWAP16. -/
def swapOperation (size : Nat) : Operation σ :=
  { execute := makeSwap size, constantGas := GasFastestStep,
    minStack := minSwapStack (size + 1), maxStack := maxSwapStack (size + 1) }

/-- MLOAD and MSTORE: a word of memory, paid by its expansion fee. -/
def memoryWordOperation (execute : List UInt8 → Machine σ → Except Fault (List UInt8 × Machine σ))
    (pops pushes : Nat) (memorySize : List Word → Except Fault (UInt64 × Bool)) : Operation σ :=
  { execute, constantGas := GasFastestStep, dynamicGas := some pureMemoryGascost,
    minStack := minStack pops pushes, maxStack := maxStack pops pushes, memorySize := some memorySize }

def stopOperation : Operation σ :=
  { execute := opStop, constantGas := 0, minStack := minStack 0 0, maxStack := maxStack 0 0, halts := true }

def popOperation : Operation σ :=
  { execute := opPop, constantGas := GasQuickStep, minStack := minStack 1 0, maxStack := maxStack 1 0 }

def jumpOperation : Operation σ :=
  { execute := opJump, constantGas := GasMidStep, minStack := minStack 1 0, maxStack := maxStack 1 0,
    jumps := true }

def jumpiOperation : Operation σ :=
  { execute := opJumpi, constantGas := GasSlowStep, minStack := minStack 2 0, maxStack := maxStack 2 0,
    jumps := true }

def jumpdestOperation : Operation σ :=
  { execute := opJumpdest, constantGas := JumpdestGas, minStack := minStack 0 0, maxStack := maxStack 0 0 }

def returnOperation : Operation σ :=
  { execute := opReturn, dynamicGas := some pureMemoryGascost, minStack := minStack 2 0,
    maxStack := maxStack 2 0, memorySize := some memoryReturn, halts := true }

def revertOperation : Operation σ :=
  { execute := opRevert, dynamicGas := some pureMemoryGascost, minStack := minStack 2 0,
    maxStack := maxStack 2 0, memorySize := some memoryRevert, reverts := true, returns := true }

/--
newV1InstructionSet for the opcodes of this module, none for the others.
PUSH2 to PUSH32, DUP1 to DUP16 and SWAP1 to SWAP16 take their size from the
opcode, as the table's entries spell it out one by one.
-/
def v1InstructionSet (op : UInt8) : Option (Operation σ) :=
  match op.toNat with
  | 0x00 => some stopOperation
  | 0x01 => some (binaryOperation opAdd GasFastestStep)
  | 0x02 => some (binaryOperation opMul GasFastStep)
  | 0x03 => some (binaryOperation opSub GasFastestStep)
  | 0x04 => some (binaryOperation opDiv GasFastStep)
  | 0x06 => some (binaryOperation opMod GasFastStep)
  | 0x10 => some (binaryOperation opLt GasFastestStep)
  | 0x11 => some (binaryOperation opGt GasFastestStep)
  | 0x14 => some (binaryOperation opEq GasFastestStep)
  | 0x15 => some (unaryOperation opIszero GasFastestStep)
  | 0x16 => some (binaryOperation opAnd GasFastestStep)
  | 0x17 => some (binaryOperation opOr GasFastestStep)
  | 0x18 => some (binaryOperation opXor GasFastestStep)
  | 0x19 => some (unaryOperation opNot GasFastestStep)
  | 0x50 => some popOperation
  | 0x51 => some (memoryWordOperation opMload 1 1 memoryMLoad)
  | 0x52 => some (memoryWordOperation opMstore 2 0 memoryMStore)
  | 0x56 => some jumpOperation
  | 0x57 => some jumpiOperation
  | 0x58 => some (pushingOperation opPc GasQuickStep)
  | 0x59 => some (pushingOperation opMsize GasQuickStep)
  | 0x5a => some (pushingOperation opGas GasQuickStep)
  | 0x5b => some jumpdestOperation
  | 0x60 => some (pushingOperation opPush1 GasFastestStep)
  | 0xf3 => some returnOperation
  | 0xfd => some revertOperation
  | _ =>
      if 0x61 ≤ op.toNat ∧ op.toNat ≤ 0x7f then some (pushOperation (op.toNat - 0x5f))
      else if 0x80 ≤ op.toNat ∧ op.toNat ≤ 0x8f then some (dupOperation (op.toNat - 0x7f))
      else if 0x90 ≤ op.toNat ∧ op.toNat ≤ 0x9f then some (swapOperation (op.toNat - 0x8f))
      else none

/-- newV2InstructionSet: the first table with CHAINID (EIP-1344). -/
def v2InstructionSet (chainId : Word) (op : UInt8) : Option (Operation σ) :=
  if op.toNat = 0x46 then some (pushingOperation (opChainID chainId) GasQuickStep)
  else v1InstructionSet op

end Table

/-! ## What each execute function does -/

section ExecuteSpec

variable {σ : Type} {code : List UInt8} {machine next : Machine σ} {ret : List UInt8}

theorem binaryOp_eq_ok {op : Word → Word → Word} (executed : binaryOp op code machine = .ok (ret, next)) :
    ∃ x y rest, machine.stack = x :: y :: rest ∧ ret = [] ∧ next = { machine with stack := op x y :: rest } := by
  unfold binaryOp at executed
  rcases stackEq : machine.stack with _ | ⟨x, _ | ⟨y, rest⟩⟩ <;> rw [stackEq] at executed
  · cases executed
  · cases executed
  · cases executed
    exact ⟨x, y, rest, rfl, rfl, rfl⟩

theorem unaryOp_eq_ok {op : Word → Word} (executed : unaryOp op code machine = .ok (ret, next)) :
    ∃ x rest, machine.stack = x :: rest ∧ ret = [] ∧ next = { machine with stack := op x :: rest } := by
  unfold unaryOp at executed
  rcases stackEq : machine.stack with _ | ⟨x, rest⟩ <;> rw [stackEq] at executed
  · cases executed
  · cases executed
    exact ⟨x, rest, rfl, rfl, rfl⟩

theorem opPop_eq_ok (executed : opPop code machine = .ok (ret, next)) :
    ∃ x rest, machine.stack = x :: rest ∧ ret = [] ∧ next = { machine with stack := rest } := by
  unfold opPop at executed
  rcases stackEq : machine.stack with _ | ⟨x, rest⟩ <;> rw [stackEq] at executed
  · cases executed
  · cases executed
    exact ⟨x, rest, rfl, rfl, rfl⟩

theorem opMload_eq_ok (executed : opMload code machine = .ok (ret, next)) :
    ∃ v rest bytes, machine.stack = v :: rest ∧ getPtr machine.store (toInt64 v) 32 = .ok bytes ∧
      ret = [] ∧ next = { machine with stack := wordOfBytes bytes :: rest } := by
  unfold opMload at executed
  rcases stackEq : machine.stack with _ | ⟨v, rest⟩ <;> rw [stackEq] at executed
  · cases executed
  · obtain ⟨bytes, read, done⟩ := Runs.bind_eq_ok executed
    cases done
    exact ⟨v, rest, bytes, rfl, read, rfl, rfl⟩

theorem opMstore_eq_ok (executed : opMstore code machine = .ok (ret, next)) :
    ∃ mStart val rest store, machine.stack = mStart :: val :: rest ∧
      set32 machine.store (UInt64.ofNat mStart.toNat) val = .ok store ∧
      ret = [] ∧ next = { machine with stack := rest, store := store } := by
  unfold opMstore at executed
  rcases stackEq : machine.stack with _ | ⟨mStart, _ | ⟨val, rest⟩⟩ <;> rw [stackEq] at executed
  · cases executed
  · cases executed
  · obtain ⟨store, written, done⟩ := Runs.bind_eq_ok executed
    cases done
    exact ⟨mStart, val, rest, store, rfl, written, rfl, rfl⟩

/-- A jump lands on a destination the analysis accepts, which fits 64 bits. -/
theorem jumpTo_eq_ok {pos : Word} (executed : jumpTo code pos machine = .ok (ret, next)) :
    validJumpdest code pos.toNat = some true ∧ ret = [] ∧ next = { machine with pc := pos.toNat } := by
  unfold jumpTo at executed
  split at executed
  · rename_i valid
    cases executed
    -- validJumpdest refuses a destination of 2^64 or more, so the uint64 keeps it
    have fits : pos.toNat < 2 ^ 64 := by
      unfold validJumpdest at valid
      split_ifs at valid with outside
      · cases valid
      · omega
      · omega
    exact ⟨valid, rfl, by rw [UInt64.toNat_ofNat_of_lt' fits]⟩
  · cases executed
  · cases executed

theorem opJump_eq_ok (executed : opJump code machine = .ok (ret, next)) :
    ∃ pos rest, machine.stack = pos :: rest ∧ jumpTo code pos { machine with stack := rest } = .ok (ret, next) := by
  unfold opJump at executed
  rcases stackEq : machine.stack with _ | ⟨pos, rest⟩ <;> rw [stackEq] at executed
  · cases executed
  · exact ⟨pos, rest, rfl, executed⟩

theorem opJumpi_eq_ok (executed : opJumpi code machine = .ok (ret, next)) :
    ∃ pos cond rest, machine.stack = pos :: cond :: rest ∧
      ((cond ≠ 0 ∧ jumpTo code pos { machine with stack := rest } = .ok (ret, next)) ∨
        (ret = [] ∧ next = { machine with stack := rest, pc := machine.pc + 1 })) := by
  unfold opJumpi at executed
  rcases stackEq : machine.stack with _ | ⟨pos, _ | ⟨cond, rest⟩⟩ <;> rw [stackEq] at executed
  · cases executed
  · cases executed
  · dsimp only at executed
    split_ifs at executed with taken
    · exact ⟨pos, cond, rest, rfl, .inl ⟨taken, executed⟩⟩
    · cases executed
      exact ⟨pos, cond, rest, rfl, .inr ⟨rfl, rfl⟩⟩

theorem makeDup_eq_ok {size : Nat} (executed : makeDup size code machine = .ok (ret, next)) :
    0 < size ∧ size ≤ machine.stack.length ∧ ret = [] ∧
      next = { machine with stack := machine.stack.getD (size - 1) 0 :: machine.stack } := by
  unfold makeDup at executed
  split_ifs at executed with short
  cases executed
  exact ⟨by omega, by omega, rfl, rfl⟩

theorem makeSwap_eq_ok {size : Nat} (executed : makeSwap size code machine = .ok (ret, next)) :
    size + 1 ≤ machine.stack.length ∧ ret = [] ∧
      next = { machine with
        stack := (machine.stack.set 0 (machine.stack.getD size 0)).set size (machine.stack.getD 0 0) } := by
  unfold makeSwap at executed
  dsimp only at executed
  split_ifs at executed with short
  cases executed
  exact ⟨by omega, rfl, rfl⟩

theorem returnRegion_eq_ok (executed : returnRegion machine = .ok (ret, next)) :
    ∃ offset size rest, machine.stack = offset :: size :: rest ∧
      getPtr machine.store (toInt64 offset) (toInt64 size) = .ok ret ∧ next = { machine with stack := rest } := by
  unfold returnRegion at executed
  rcases stackEq : machine.stack with _ | ⟨offset, _ | ⟨size, rest⟩⟩ <;> rw [stackEq] at executed
  · cases executed
  · cases executed
  · obtain ⟨read, readOk, done⟩ := Runs.bind_eq_ok executed
    cases done
    exact ⟨offset, size, rest, rfl, readOk, rfl⟩

theorem opStop_eq_ok (executed : opStop code machine = .ok (ret, next)) : ret = [] ∧ next = machine := by
  simp only [opStop, Except.ok.injEq, Prod.mk.injEq] at executed
  exact ⟨executed.1.symm, executed.2.symm⟩

theorem opJumpdest_eq_ok (executed : opJumpdest code machine = .ok (ret, next)) : ret = [] ∧ next = machine := by
  simp only [opJumpdest, Except.ok.injEq, Prod.mk.injEq] at executed
  exact ⟨executed.1.symm, executed.2.symm⟩

theorem pushOp_eq_ok {read : Machine σ → Word} (executed : pushOp read code machine = .ok (ret, next)) :
    ret = [] ∧ next = { machine with stack := read machine :: machine.stack } := by
  simp only [pushOp, Except.ok.injEq, Prod.mk.injEq] at executed
  exact ⟨executed.1.symm, executed.2.symm⟩

theorem opPush1_eq_ok (executed : opPush1 code machine = .ok (ret, next)) :
    ret = [] ∧ ∃ integer, next = { machine with pc := machine.pc + 1, stack := integer :: machine.stack } := by
  simp only [opPush1, Except.ok.injEq, Prod.mk.injEq] at executed
  exact ⟨executed.1.symm, _, executed.2.symm⟩

theorem makePush_eq_ok {size pushByteSize : Nat} (executed : makePush size pushByteSize code machine = .ok (ret, next)) :
    ret = [] ∧ ∃ integer, next = { machine with stack := integer :: machine.stack, pc := machine.pc + size } := by
  simp only [makePush, Except.ok.injEq, Prod.mk.injEq] at executed
  exact ⟨executed.1.symm, _, executed.2.symm⟩

/-- The specialised PUSH1 pushes what makePush(1, 1) pushes, and moves the counter as it does. -/
theorem opPush1_eq_makePush (code : List UInt8) (machine : Machine σ) :
    opPush1 code machine = makePush 1 1 code machine := by
  unfold opPush1 makePush
  by_cases inside : machine.pc + 1 < code.length
  · -- one byte of code after the opcode: the slice is that byte
    have startEq : min code.length (machine.pc + 1) = machine.pc + 1 := min_eq_right inside.le
    have endEq : min code.length (machine.pc + 1 + 1) = machine.pc + 1 + 1 := min_eq_right inside
    have slice : (code.drop (machine.pc + 1)).take 1 = [code.getD (machine.pc + 1) 0] := by
      rw [List.getD_eq_getElem _ _ inside, List.take_one_drop_eq_of_lt_length inside]
      rfl
    simp only [startEq, endEq, if_pos inside, Nat.add_sub_cancel_left, slice]
    simp [rightPadBytes, wordOfBytes]
  · -- past the code: no slice, padded to a zero byte
    have startEq : min code.length (machine.pc + 1) = code.length := min_eq_left (by omega)
    simp only [startEq, if_neg inside, List.drop_length, List.take_nil]
    simp [rightPadBytes, wordOfBytes]

end ExecuteSpec

/-! ## The entries of the table -/

/-! ## Where an execute function fails -/

section Faults

variable {σ : Type} {code : List UInt8} {machine : Machine σ} {fault : Fault}

theorem binaryOp_eq_error {op : Word → Word → Word} (failed : binaryOp op code machine = .error fault) :
    machine.stack.length < 2 := by
  unfold binaryOp at failed
  rcases stackEq : machine.stack with _ | ⟨x, _ | ⟨y, rest⟩⟩
  · simp
  · simp
  · rw [stackEq] at failed
    cases failed

theorem unaryOp_eq_error {op : Word → Word} (failed : unaryOp op code machine = .error fault) :
    machine.stack = [] := by
  unfold unaryOp at failed
  rcases stackEq : machine.stack with _ | ⟨x, rest⟩
  · rfl
  · rw [stackEq] at failed
    cases failed

theorem opPop_eq_error (failed : opPop code machine = .error fault) : machine.stack = [] := by
  unfold opPop at failed
  rcases stackEq : machine.stack with _ | ⟨x, rest⟩
  · rfl
  · rw [stackEq] at failed
    cases failed

theorem opMload_eq_error (failed : opMload code machine = .error fault) :
    machine.stack = [] ∨ ∃ v rest, machine.stack = v :: rest ∧ getPtr machine.store (toInt64 v) 32 = .error fault := by
  unfold opMload at failed
  rcases stackEq : machine.stack with _ | ⟨v, rest⟩
  · exact .inl rfl
  · rw [stackEq] at failed
    exact .inr ⟨v, rest, rfl, Runs.bind_pure_eq_error failed⟩

theorem opMstore_eq_error (failed : opMstore code machine = .error fault) :
    machine.stack.length < 2 ∨ ∃ mStart val rest, machine.stack = mStart :: val :: rest ∧
      set32 machine.store (UInt64.ofNat mStart.toNat) val = .error fault := by
  unfold opMstore at failed
  rcases stackEq : machine.stack with _ | ⟨mStart, _ | ⟨val, rest⟩⟩
  · exact .inl (by simp)
  · exact .inl (by simp)
  · rw [stackEq] at failed
    exact .inr ⟨mStart, val, rest, rfl, Runs.bind_pure_eq_error failed⟩

/-- A jump fails only with ErrInvalidJump, as the analysis answers for every destination of a code that fits 64 bits. -/
theorem jumpTo_eq_error {pos : Word} (fits : code.length ≤ 2 ^ 64) (failed : jumpTo code pos machine = .error fault) :
    fault = .error .invalidJump := by
  obtain ⟨valid, answered, -⟩ := validJumpdest_spec code fits pos.toNat
  unfold jumpTo at failed
  rw [answered] at failed
  cases valid
  · cases failed
    rfl
  · cases failed

theorem opJump_eq_error (fits : code.length ≤ 2 ^ 64) (failed : opJump code machine = .error fault) :
    machine.stack = [] ∨ fault = .error .invalidJump := by
  unfold opJump at failed
  rcases stackEq : machine.stack with _ | ⟨pos, rest⟩
  · exact .inl rfl
  · rw [stackEq] at failed
    exact .inr (jumpTo_eq_error fits failed)

theorem opJumpi_eq_error (fits : code.length ≤ 2 ^ 64) (failed : opJumpi code machine = .error fault) :
    machine.stack.length < 2 ∨ fault = .error .invalidJump := by
  unfold opJumpi at failed
  rcases stackEq : machine.stack with _ | ⟨pos, _ | ⟨cond, rest⟩⟩
  · exact .inl (by simp)
  · exact .inl (by simp)
  · rw [stackEq] at failed
    dsimp only at failed
    split_ifs at failed
    exact .inr (jumpTo_eq_error fits failed)

theorem makeDup_eq_error {size : Nat} (failed : makeDup size code machine = .error fault) :
    size = 0 ∨ machine.stack.length < size := by
  unfold makeDup at failed
  split_ifs at failed with short
  exact short

theorem makeSwap_eq_error {size : Nat} (failed : makeSwap size code machine = .error fault) :
    machine.stack.length < size + 1 := by
  unfold makeSwap at failed
  dsimp only at failed
  split_ifs at failed with short
  omega

theorem returnRegion_eq_error (failed : returnRegion machine = .error fault) :
    machine.stack.length < 2 ∨ ∃ offset size rest, machine.stack = offset :: size :: rest ∧
      getPtr machine.store (toInt64 offset) (toInt64 size) = .error fault := by
  unfold returnRegion at failed
  rcases stackEq : machine.stack with _ | ⟨offset, _ | ⟨size, rest⟩⟩
  · exact .inl (by simp)
  · exact .inl (by simp)
  · rw [stackEq] at failed
    exact .inr ⟨offset, size, rest, rfl, Runs.bind_pure_eq_error failed⟩

/-- A slice of the store within its length is read without a panic. -/
theorem getPtr_ne_error {store : List UInt8} {offset size : Int} (nonneg : 0 ≤ offset) (sizeNonneg : 0 ≤ size)
    (within : offset + size ≤ store.length) : getPtr store offset size ≠ .error fault := by
  unfold getPtr
  split_ifs with empty inside bounds
  · exact fun failed => by cases failed
  · exact fun failed => by cases failed
  · exact absurd ⟨nonneg, sizeNonneg, within⟩ bounds
  · exact fun failed => by cases failed

/-- Set32 within a store shorter than 2^64 writes without a panic. -/
theorem set32_ne_error {store : List UInt8} {offset : UInt64} (val : Word) (within : offset.toNat + 32 ≤ store.length)
    (fits : store.length < 2 ^ 64) : set32 store offset val ≠ .error fault := by
  have noWrap : (offset + 32).toNat = offset.toNat + 32 := by
    rw [UInt64.toNat_add]
    simp only [UInt64.reduceToNat]
    omega
  have lengthEq : store.length.toUInt64.toNat = store.length := UInt64.toNat_ofNat_of_lt' fits
  unfold set32
  rw [if_neg (by rw [gt_iff_lt, UInt64.lt_iff_toNat_lt, noWrap, lengthEq]; omega), if_neg (by omega)]
  exact fun failed => by cases failed

theorem set32_length {store written : List UInt8} {offset : UInt64} {val : Word}
    (set : set32 store offset val = .ok written) : written.length = store.length := by
  unfold set32 at set
  split_ifs at set with wraps short
  cases set
  simp only [List.length_append, List.length_take, List.length_drop, bytesOfWord, List.length_map,
    List.length_range]
  omega

/-- int64(x.Uint64()) of a word below 2^63 is the word. -/
theorem toInt64_of_lt {word : Word} (small : word.toNat < 2 ^ 63) : toInt64 word = word.toNat :=
  Int64.toInt_ofNat_of_lt small

end Faults

/-! ## The memory a charge provides -/

section Memory

variable {σ : Type}

theorem toNat_add_of_not_lt {a b : UInt64} (noWrap : ¬ a + b < a) : (a + b).toNat = a.toNat + b.toNat := by
  rw [UInt64.lt_iff_toNat_lt, UInt64.toNat_add] at noWrap
  rw [UInt64.toNat_add]
  have aFits := UInt64.toNat_lt a
  have bFits := UInt64.toNat_lt b
  omega

/-- A memory size that does not overflow is the offset plus the length. -/
theorem calcMemSize64WithUint_eq {off : Word} {length64 memSize : UInt64} (nonzero : length64 ≠ 0)
    (sized : calcMemSize64WithUint off length64 = (memSize, false)) :
    off.toNat + length64.toNat = memSize.toNat := by
  unfold calcMemSize64WithUint uint64WithOverflow at sized
  rw [if_neg nonzero] at sized
  dsimp only at sized
  split_ifs at sized with overflow
  · simp at sized
  · have fits : off.toNat < 2 ^ 64 := by simpa using overflow
    simp only [Prod.mk.injEq, decide_eq_false_iff_not] at sized
    obtain ⟨rfl, noWrap⟩ := sized
    rw [toNat_add_of_not_lt noWrap, UInt64.toNat_ofNat_of_lt' fits]

theorem calcMemSize64_eq {off l : Word} {memSize : UInt64} (sized : calcMemSize64 off l = (memSize, false)) :
    l.toNat = 0 ∨ off.toNat + l.toNat = memSize.toNat := by
  unfold calcMemSize64 at sized
  split_ifs at sized with tooLong
  · simp at sized
  · have fits : l.toNat < 2 ^ 64 := by omega
    have lengthEq : (UInt64.ofNat l.toNat).toNat = l.toNat := UInt64.toNat_ofNat_of_lt' fits
    by_cases empty : l.toNat = 0
    · exact .inl empty
    · have nonzero : UInt64.ofNat l.toNat ≠ 0 := fun zero => empty (by rw [← lengthEq, zero]; rfl)
      have summed := calcMemSize64WithUint_eq nonzero sized
      rw [lengthEq] at summed
      exact .inr summed

theorem requiredMemory_of_none {operation : Operation σ} (unsized : operation.memorySize = none) (stack : List Word) :
    requiredMemory operation stack = .ok 0 := by
  unfold requiredMemory
  rw [unsized]

/-- The memory size Run resizes to is the operation's size rounded up to words. -/
theorem requiredMemory_eq_ok {operation : Operation σ} {sizeOf : List Word → Except Fault (UInt64 × Bool)}
    {stack : List Word} {size : UInt64} (sized : operation.memorySize = some sizeOf)
    (required : requiredMemory operation stack = .ok size) :
    ∃ memSize, sizeOf stack = .ok (memSize, false) ∧ safeMul (toWordSize memSize) 32 = (size, false) ∧
      memSize.toNat ≤ size.toNat := by
  simp only [requiredMemory, sized] at required
  split at required
  · cases required
  · rename_i memSize overflow computed
    cases overflow
    · rcases rounded : safeMul (toWordSize memSize) 32 with ⟨memorySize, roundOverflow⟩
      rw [rounded] at required
      cases roundOverflow
      · cases required
        have words := safeMul_toWordSize rounded
        exact ⟨memSize, computed, rounded, by dsimp only; omega⟩
      · cases required
    · cases required

/-- The memory size fails only with ErrGasUintOverflow once the size function answers. -/
theorem requiredMemory_eq_error {operation : Operation σ} {sizeOf : List Word → Except Fault (UInt64 × Bool)}
    {stack : List Word} {fault : Fault} (sized : operation.memorySize = some sizeOf)
    (answers : ∃ result, sizeOf stack = .ok result) (failed : requiredMemory operation stack = .error fault) :
    fault = .error .gasUintOverflow := by
  obtain ⟨⟨memSize, overflow⟩, computed⟩ := answers
  simp only [requiredMemory, sized, computed] at failed
  cases overflow
  · rcases rounded : safeMul (toWordSize memSize) 32 with ⟨memorySize, roundOverflow⟩
    rw [rounded] at failed
    cases roundOverflow
    · cases failed
    · cases failed
      rfl
  · cases failed
    rfl

theorem memoryWordAt_answers {length : UInt64} {stack : List Word} (long : 1 ≤ stack.length) :
    ∃ result, memoryWordAt length stack = .ok result := by
  obtain ⟨v, rest, rfl⟩ := List.exists_cons_of_length_pos long
  exact ⟨_, rfl⟩

theorem memoryRegionAt_answers {stack : List Word} (long : 2 ≤ stack.length) :
    ∃ result, memoryRegionAt 0 1 stack = .ok result := by
  match stack, long with
  | _ :: _ :: _, _ => exact ⟨_, rfl⟩

/-- The word at the offset on the stack lies within the memory size. -/
theorem memoryWordAt_within {length memSize : UInt64} {v : Word} {rest : List Word} (nonzero : length ≠ 0)
    (sized : memoryWordAt length (v :: rest) = .ok (memSize, false)) :
    v.toNat + length.toNat = memSize.toNat :=
  calcMemSize64WithUint_eq nonzero (Except.ok.inj sized)

/-- The region given on the stack lies within the memory size, unless it is empty. -/
theorem memoryRegionAt_within {memSize : UInt64} {offset size : Word} {rest : List Word}
    (sized : memoryRegionAt 0 1 (offset :: size :: rest) = .ok (memSize, false)) :
    size.toNat = 0 ∨ offset.toNat + size.toNat = memSize.toNat :=
  calcMemSize64_eq (Except.ok.inj sized)

theorem memoryGasCost_admitted {mem next : Memory} {newMemSize fee : UInt64}
    (costed : memoryGasCost mem newMemSize = .ok (fee, next)) : newMemSize ≤ 0x1FFFFFFFE0 := by
  unfold memoryGasCost at costed
  by_cases tooLarge : newMemSize > 0x1FFFFFFFE0
  · rw [if_neg (fun empty => by subst empty; exact absurd tooLarge (by decide)), if_pos tooLarge] at costed
    cases costed
  · exact UInt64.not_lt.mp tooLarge

/-- memoryGasCost records the fee in lastGasCost and leaves the length to the resize. -/
theorem memoryGasCost_len {mem next : Memory} {newMemSize fee : UInt64}
    (costed : memoryGasCost mem newMemSize = .ok (fee, next)) : next.len = mem.len := by
  unfold memoryGasCost at costed
  dsimp only at costed
  split_ifs at costed <;> cases costed <;> rfl

theorem pureMemoryGascost_eq_ok {machine : Machine σ} {memorySize : UInt64} {result : UInt64 × Memory}
    (costed : pureMemoryGascost machine memorySize = .ok result) :
    memoryGasCost machine.memory memorySize = .ok result := by
  unfold pureMemoryGascost at costed
  split at costed
  · rename_i charged costedOk
    cases costed
    exact costedOk
  · cases costed

/--
After the charges of an operation that pays for its memory, the store holds
the memory size, and the size is under the cap that memoryGasCost admits.
-/
theorem charge_memory_fits {isGalaxias : Bool} {operation : Operation σ} {machine next : Machine σ}
    (paysMemory : operation.dynamicGas = some pureMemoryGascost)
    (charged : charge isGalaxias operation machine = .ok next) :
    ∃ memorySize, requiredMemory operation machine.stack = .ok memorySize ∧
      memorySize.toNat ≤ next.store.length ∧ memorySize.toNat ≤ 0x1FFFFFFFE0 := by
  obtain ⟨memorySize, required, resized⟩ := charge_store_length charged
  obtain ⟨gas, memorySize', dynamic, -, required', dynamicCharged, -⟩ := charge_eq_ok charged
  have same : memorySize' = memorySize := by
    rw [required] at required'
    exact (Except.ok.inj required').symm
  subst same
  rcases chargeDynamic_eq_ok dynamicCharged with ⟨unpaid, -⟩ | ⟨dynamicGas, dynamicCost, memory, left, paid, costed, -, -⟩
  · rw [paysMemory] at unpaid
    cases unpaid
  · rw [paysMemory, Option.some.injEq] at paid
    subst paid
    -- the gas function answers only for sizes memoryGasCost admits
    have capped : memorySize'.toNat ≤ 0x1FFFFFFFE0 :=
      UInt64.le_iff_toNat_le.mp (memoryGasCost_admitted (pureMemoryGascost_eq_ok costed))
    exact ⟨memorySize', required, by rw [resized]; exact le_max_right _ _, capped⟩


/-- MLOAD reads the word at an offset the charges made room for. -/
theorem getPtr_word_ne_error {store : List UInt8} {v : Word} {rest : List Word} {memSize memorySize : UInt64}
    {fault : Fault} (sized : memoryWordAt 32 (v :: rest) = .ok (memSize, false))
    (rounded : memSize.toNat ≤ memorySize.toNat) (held : memorySize.toNat ≤ store.length)
    (capped : memorySize.toNat ≤ 0x1FFFFFFFE0) :
    getPtr store (toInt64 v) 32 ≠ .error fault := by
  have within : v.toNat + 32 = memSize.toNat := memoryWordAt_within (by decide) sized
  rw [toInt64_of_lt (by omega)]
  exact getPtr_ne_error (by omega) (by omega) (by omega)

/-- MSTORE writes the word at an offset the charges made room for. -/
theorem set32_word_ne_error {store : List UInt8} {mStart : Word} {rest : List Word} {memSize memorySize : UInt64}
    {fault : Fault} (val : Word) (sized : memoryWordAt 32 (mStart :: rest) = .ok (memSize, false))
    (rounded : memSize.toNat ≤ memorySize.toNat) (held : memorySize.toNat ≤ store.length)
    (fits : store.length < 2 ^ 64) :
    set32 store (UInt64.ofNat mStart.toNat) val ≠ .error fault := by
  have within : mStart.toNat + 32 = memSize.toNat := memoryWordAt_within (by decide) sized
  have small : mStart.toNat < 2 ^ 64 := by omega
  have offsetEq : (UInt64.ofNat mStart.toNat).toNat = mStart.toNat := UInt64.toNat_ofNat_of_lt' small
  exact set32_ne_error val (by rw [offsetEq]; omega) fits

/-- RETURN and REVERT read a region the charges made room for, or nothing for an empty one. -/
theorem getPtr_region_ne_error {store : List UInt8} {offset size : Word} {rest : List Word}
    {memSize memorySize : UInt64} {fault : Fault}
    (sized : memoryRegionAt 0 1 (offset :: size :: rest) = .ok (memSize, false))
    (rounded : memSize.toNat ≤ memorySize.toNat) (held : memorySize.toNat ≤ store.length)
    (capped : memorySize.toNat ≤ 0x1FFFFFFFE0) :
    getPtr store (toInt64 offset) (toInt64 size) ≠ .error fault := by
  rcases memoryRegionAt_within sized with empty | within
  · rw [toInt64_of_lt (by omega : size.toNat < 2 ^ 63), empty]
    unfold getPtr
    exact fun failed => by cases failed
  · rw [toInt64_of_lt (by omega : offset.toNat < 2 ^ 63), toInt64_of_lt (by omega : size.toNat < 2 ^ 63)]
    exact getPtr_ne_error (by omega) (by omega) (by omega)

end Memory

section Entries

variable {σ : Type}

theorem pushWidth_eq_zero {op : UInt8} (outside : op.toNat < 0x60 ∨ 0x7f < op.toNat) : pushWidth op = 0 := by
  unfold pushWidth
  split_ifs <;> omega

/--
The kinds of entry the table holds, at an opcode: PUSH1 and the PUSHn carry
as many data bytes as their size, every other opcode none.  The arithmetic,
comparison and pushing entries cost a positive constant gas.
-/
inductive V1Entry (op : UInt8) : Operation σ → Prop
  | stop (plain : pushWidth op = 0) : V1Entry op stopOperation
  | binary (f : Word → Word → Word) (gas : UInt64) (positive : 0 < gas.toNat) (plain : pushWidth op = 0) :
      V1Entry op (binaryOperation (binaryOp f) gas)
  | unary (f : Word → Word) (gas : UInt64) (positive : 0 < gas.toNat) (plain : pushWidth op = 0) :
      V1Entry op (unaryOperation (unaryOp f) gas)
  | pop (plain : pushWidth op = 0) : V1Entry op popOperation
  | mload (plain : pushWidth op = 0) : V1Entry op (memoryWordOperation opMload 1 1 memoryMLoad)
  | mstore (plain : pushWidth op = 0) : V1Entry op (memoryWordOperation opMstore 2 0 memoryMStore)
  | jump (plain : pushWidth op = 0) : V1Entry op jumpOperation
  | jumpi (plain : pushWidth op = 0) : V1Entry op jumpiOperation
  | jumpdest (plain : pushWidth op = 0) : V1Entry op jumpdestOperation
  | pushing (read : Machine σ → Word) (gas : UInt64) (positive : 0 < gas.toNat) (plain : pushWidth op = 0) :
      V1Entry op (pushingOperation (pushOp read) gas)
  | push1 (width : pushWidth op = 1) : V1Entry op (pushingOperation opPush1 GasFastestStep)
  | push (size : Nat) (width : pushWidth op = size) : V1Entry op (pushOperation size)
  | dup (size : Nat) (positive : 0 < size) (plain : pushWidth op = 0) : V1Entry op (dupOperation size)
  | swap (size : Nat) (plain : pushWidth op = 0) : V1Entry op (swapOperation size)
  | ret (plain : pushWidth op = 0) : V1Entry op returnOperation
  | revert (plain : pushWidth op = 0) : V1Entry op revertOperation

/-- Every entry of the table is of one of the kinds, at its opcode. -/
theorem v1InstructionSet_eq_some {op : UInt8} {operation : Operation σ}
    (found : v1InstructionSet op = some operation) : V1Entry op operation := by
  unfold v1InstructionSet at found
  split at found
  -- one arm of the table each, in its order
  · cases found; exact .stop (pushWidth_eq_zero (by omega))
  · cases found; exact .binary _ _ (by decide) (pushWidth_eq_zero (by omega))
  · cases found; exact .binary _ _ (by decide) (pushWidth_eq_zero (by omega))
  · cases found; exact .binary _ _ (by decide) (pushWidth_eq_zero (by omega))
  · cases found; exact .binary _ _ (by decide) (pushWidth_eq_zero (by omega))
  · cases found; exact .binary _ _ (by decide) (pushWidth_eq_zero (by omega))
  · cases found; exact .binary _ _ (by decide) (pushWidth_eq_zero (by omega))
  · cases found; exact .binary _ _ (by decide) (pushWidth_eq_zero (by omega))
  · cases found; exact .binary _ _ (by decide) (pushWidth_eq_zero (by omega))
  · cases found; exact .unary _ _ (by decide) (pushWidth_eq_zero (by omega))
  · cases found; exact .binary _ _ (by decide) (pushWidth_eq_zero (by omega))
  · cases found; exact .binary _ _ (by decide) (pushWidth_eq_zero (by omega))
  · cases found; exact .binary _ _ (by decide) (pushWidth_eq_zero (by omega))
  · cases found; exact .unary _ _ (by decide) (pushWidth_eq_zero (by omega))
  · cases found; exact .pop (pushWidth_eq_zero (by omega))
  · cases found; exact .mload (pushWidth_eq_zero (by omega))
  · cases found; exact .mstore (pushWidth_eq_zero (by omega))
  · cases found; exact .jump (pushWidth_eq_zero (by omega))
  · cases found; exact .jumpi (pushWidth_eq_zero (by omega))
  · cases found; exact .pushing _ _ (by decide) (pushWidth_eq_zero (by omega))
  · cases found; exact .pushing _ _ (by decide) (pushWidth_eq_zero (by omega))
  · cases found; exact .pushing _ _ (by decide) (pushWidth_eq_zero (by omega))
  · cases found; exact .jumpdest (pushWidth_eq_zero (by omega))
  · cases found
    exact .push1 (by simp only [pushWidth]; split_ifs <;> omega)
  · cases found; exact .ret (pushWidth_eq_zero (by omega))
  · cases found; exact .revert (pushWidth_eq_zero (by omega))
  · split_ifs at found with isPush isDup isSwap
    · cases found
      exact .push _ (by simp only [pushWidth]; split_ifs <;> omega)
    · obtain rfl := Option.some.inj found
      refine .dup _ ?_ (pushWidth_eq_zero (by omega))
      omega
    · cases found
      exact .swap _ (pushWidth_eq_zero (by omega))

end Entries

/-! ## The table keeps the promises the loop relies on -/

section Sound

variable {σ : Type} {op : UInt8} {operation : Operation σ}

theorem maxStack_le (pops pushes : Nat) : maxStack pops pushes ≤ StackLimit + minStack pops pushes := by
  unfold maxStack minStack
  omega

/-- Every kind of entry changes the stack as its minStack and maxStack declare. -/
theorem V1Entry.stackSound (entry : V1Entry op operation) : operation.StackSound := by
  cases entry with
  | stop =>
      refine ⟨maxStack_le 0 0, fun code machine ret next _ _ executed => ?_⟩
      simp only [stopOperation] at executed
      obtain ⟨-, rfl⟩ := opStop_eq_ok executed
      simp [stopOperation, Operation.pushes, minStack, maxStack, StackLimit]
  | binary f gas =>
      refine ⟨maxStack_le 2 1, fun code machine ret next _ _ executed => ?_⟩
      simp only [binaryOperation] at executed
      obtain ⟨x, y, rest, stackEq, -, rfl⟩ := binaryOp_eq_ok executed
      simp [stackEq, binaryOperation, Operation.pushes, minStack, maxStack, StackLimit]
  | unary f gas =>
      refine ⟨maxStack_le 1 1, fun code machine ret next _ _ executed => ?_⟩
      simp only [unaryOperation] at executed
      obtain ⟨x, rest, stackEq, -, rfl⟩ := unaryOp_eq_ok executed
      simp [stackEq, unaryOperation, Operation.pushes, minStack, maxStack, StackLimit]
  | pop =>
      refine ⟨maxStack_le 1 0, fun code machine ret next _ _ executed => ?_⟩
      simp only [popOperation] at executed
      obtain ⟨x, rest, stackEq, -, rfl⟩ := opPop_eq_ok executed
      simp [stackEq, popOperation, Operation.pushes, minStack, maxStack, StackLimit]
  | mload =>
      refine ⟨maxStack_le 1 1, fun code machine ret next _ _ executed => ?_⟩
      simp only [memoryWordOperation] at executed
      obtain ⟨v, rest, bytes, stackEq, -, -, rfl⟩ := opMload_eq_ok executed
      simp [stackEq, memoryWordOperation, Operation.pushes, minStack, maxStack, StackLimit]
  | mstore =>
      refine ⟨maxStack_le 2 0, fun code machine ret next _ _ executed => ?_⟩
      simp only [memoryWordOperation] at executed
      obtain ⟨mStart, val, rest, store, stackEq, -, -, rfl⟩ := opMstore_eq_ok executed
      simp [stackEq, memoryWordOperation, Operation.pushes, minStack, maxStack, StackLimit]
  | jump =>
      refine ⟨maxStack_le 1 0, fun code machine ret next _ _ executed => ?_⟩
      simp only [jumpOperation] at executed
      obtain ⟨pos, rest, stackEq, jumped⟩ := opJump_eq_ok executed
      obtain ⟨-, -, rfl⟩ := jumpTo_eq_ok jumped
      simp [stackEq, jumpOperation, Operation.pushes, minStack, maxStack, StackLimit]
  | jumpi =>
      refine ⟨maxStack_le 2 0, fun code machine ret next _ _ executed => ?_⟩
      simp only [jumpiOperation] at executed
      obtain ⟨pos, cond, rest, stackEq, ⟨-, jumped⟩ | ⟨-, rfl⟩⟩ := opJumpi_eq_ok executed
      · obtain ⟨-, -, rfl⟩ := jumpTo_eq_ok jumped
        simp [stackEq, jumpiOperation, Operation.pushes, minStack, maxStack, StackLimit]
      · simp [stackEq, jumpiOperation, Operation.pushes, minStack, maxStack, StackLimit]
  | jumpdest =>
      refine ⟨maxStack_le 0 0, fun code machine ret next _ _ executed => ?_⟩
      simp only [jumpdestOperation] at executed
      obtain ⟨-, rfl⟩ := opJumpdest_eq_ok executed
      simp [jumpdestOperation, Operation.pushes, minStack, maxStack, StackLimit]
  | pushing read gas =>
      refine ⟨maxStack_le 0 1, fun code machine ret next _ _ executed => ?_⟩
      simp only [pushingOperation] at executed
      obtain ⟨-, rfl⟩ := pushOp_eq_ok executed
      simp [pushingOperation, Operation.pushes, minStack, maxStack, StackLimit]
  | push1 =>
      refine ⟨maxStack_le 0 1, fun code machine ret next _ _ executed => ?_⟩
      simp only [pushingOperation] at executed
      obtain ⟨-, integer, rfl⟩ := opPush1_eq_ok executed
      simp [pushingOperation, Operation.pushes, minStack, maxStack, StackLimit]
  | push size =>
      refine ⟨maxStack_le 0 1, fun code machine ret next _ _ executed => ?_⟩
      simp only [pushOperation, pushingOperation] at executed
      obtain ⟨-, integer, rfl⟩ := makePush_eq_ok executed
      simp [pushOperation, pushingOperation, Operation.pushes, minStack, maxStack, StackLimit]
  | dup size positive =>
      refine ⟨maxStack_le size (size + 1), fun code machine ret next _ _ executed => ?_⟩
      simp only [dupOperation] at executed
      obtain ⟨-, -, -, rfl⟩ := makeDup_eq_ok executed
      simp only [dupOperation, Operation.pushes, minDupStack, maxDupStack, minStack, maxStack, StackLimit,
        List.length_cons]
      omega
  | swap size =>
      refine ⟨maxStack_le (size + 1) (size + 1), fun code machine ret next _ _ executed => ?_⟩
      simp only [swapOperation] at executed
      obtain ⟨-, -, rfl⟩ := makeSwap_eq_ok executed
      simp only [swapOperation, Operation.pushes, minSwapStack, maxSwapStack, minStack, maxStack, StackLimit,
        List.length_set]
      omega
  | ret =>
      refine ⟨maxStack_le 2 0, fun code machine ret next _ _ executed => ?_⟩
      simp only [returnOperation, opReturn] at executed
      obtain ⟨offset, size, rest, stackEq, -, rfl⟩ := returnRegion_eq_ok executed
      simp [stackEq, returnOperation, Operation.pushes, minStack, maxStack, StackLimit]
  | revert =>
      refine ⟨maxStack_le 2 0, fun code machine ret next _ _ executed => ?_⟩
      simp only [revertOperation, opRevert] at executed
      obtain ⟨offset, size, rest, stackEq, -, rfl⟩ := returnRegion_eq_ok executed
      simp [stackEq, revertOperation, Operation.pushes, minStack, maxStack, StackLimit]

/-- What an entry's execute changes: the program counter, the stack, and the bytes of the store but not its length. -/
theorem V1Entry.execute_frame (entry : V1Entry op operation) {code : List UInt8} {machine next : Machine σ}
    {ret : List UInt8} (executed : operation.execute code machine = .ok (ret, next)) :
    next = { machine with pc := next.pc, stack := next.stack, store := next.store } ∧
      next.store.length = machine.store.length := by
  cases entry with
  | stop =>
      simp only [stopOperation] at executed
      obtain ⟨-, rfl⟩ := opStop_eq_ok executed
      exact ⟨rfl, rfl⟩
  | binary f gas =>
      simp only [binaryOperation] at executed
      obtain ⟨x, y, rest, -, -, rfl⟩ := binaryOp_eq_ok executed
      exact ⟨rfl, rfl⟩
  | unary f gas =>
      simp only [unaryOperation] at executed
      obtain ⟨x, rest, -, -, rfl⟩ := unaryOp_eq_ok executed
      exact ⟨rfl, rfl⟩
  | pop =>
      simp only [popOperation] at executed
      obtain ⟨x, rest, -, -, rfl⟩ := opPop_eq_ok executed
      exact ⟨rfl, rfl⟩
  | mload =>
      simp only [memoryWordOperation] at executed
      obtain ⟨v, rest, bytes, -, -, -, rfl⟩ := opMload_eq_ok executed
      exact ⟨rfl, rfl⟩
  | mstore =>
      -- the only entry that writes the store, in place
      simp only [memoryWordOperation] at executed
      obtain ⟨mStart, val, rest, store, -, written, -, rfl⟩ := opMstore_eq_ok executed
      exact ⟨rfl, set32_length written⟩
  | jump =>
      simp only [jumpOperation] at executed
      obtain ⟨pos, rest, -, jumped⟩ := opJump_eq_ok executed
      obtain ⟨-, -, rfl⟩ := jumpTo_eq_ok jumped
      exact ⟨rfl, rfl⟩
  | jumpi =>
      simp only [jumpiOperation] at executed
      obtain ⟨pos, cond, rest, -, ⟨-, jumped⟩ | ⟨-, rfl⟩⟩ := opJumpi_eq_ok executed
      · obtain ⟨-, -, rfl⟩ := jumpTo_eq_ok jumped
        exact ⟨rfl, rfl⟩
      · exact ⟨rfl, rfl⟩
  | jumpdest =>
      simp only [jumpdestOperation] at executed
      obtain ⟨-, rfl⟩ := opJumpdest_eq_ok executed
      exact ⟨rfl, rfl⟩
  | pushing read gas =>
      simp only [pushingOperation] at executed
      obtain ⟨-, rfl⟩ := pushOp_eq_ok executed
      exact ⟨rfl, rfl⟩
  | push1 =>
      simp only [pushingOperation] at executed
      obtain ⟨-, integer, rfl⟩ := opPush1_eq_ok executed
      exact ⟨rfl, rfl⟩
  | push size =>
      simp only [pushOperation, pushingOperation] at executed
      obtain ⟨-, integer, rfl⟩ := makePush_eq_ok executed
      exact ⟨rfl, rfl⟩
  | dup size =>
      simp only [dupOperation] at executed
      obtain ⟨-, -, -, rfl⟩ := makeDup_eq_ok executed
      exact ⟨rfl, rfl⟩
  | swap size =>
      simp only [swapOperation] at executed
      obtain ⟨-, -, rfl⟩ := makeSwap_eq_ok executed
      exact ⟨rfl, rfl⟩
  | ret =>
      simp only [returnOperation, opReturn] at executed
      obtain ⟨offset, size, rest, -, -, rfl⟩ := returnRegion_eq_ok executed
      exact ⟨rfl, rfl⟩
  | revert =>
      simp only [revertOperation, opRevert] at executed
      obtain ⟨offset, size, rest, -, -, rfl⟩ := returnRegion_eq_ok executed
      exact ⟨rfl, rfl⟩

/-- Every entry moves the program counter past its data, or jumps to a valid JUMPDEST. -/
theorem V1Entry.pcSound (entry : V1Entry op operation) {code : List UInt8} {machine next : Machine σ}
    {ret : List UInt8} (executed : operation.execute code machine = .ok (ret, next)) :
    if operation.jumps then next.pc = machine.pc + pushWidth op + 1 ∨ validJumpdest code next.pc = some true
    else next.pc = machine.pc + pushWidth op := by
  cases entry with
  | stop plain =>
      show next.pc = machine.pc + pushWidth op
      simp only [stopOperation] at executed
      obtain ⟨-, rfl⟩ := opStop_eq_ok executed
      rw [plain, Nat.add_zero]
  | binary f gas _ plain =>
      show next.pc = machine.pc + pushWidth op
      simp only [binaryOperation] at executed
      obtain ⟨x, y, rest, -, -, rfl⟩ := binaryOp_eq_ok executed
      rw [plain, Nat.add_zero]
  | unary f gas _ plain =>
      show next.pc = machine.pc + pushWidth op
      simp only [unaryOperation] at executed
      obtain ⟨x, rest, -, -, rfl⟩ := unaryOp_eq_ok executed
      rw [plain, Nat.add_zero]
  | pop plain =>
      show next.pc = machine.pc + pushWidth op
      simp only [popOperation] at executed
      obtain ⟨x, rest, -, -, rfl⟩ := opPop_eq_ok executed
      rw [plain, Nat.add_zero]
  | mload plain =>
      show next.pc = machine.pc + pushWidth op
      simp only [memoryWordOperation] at executed
      obtain ⟨v, rest, bytes, -, -, -, rfl⟩ := opMload_eq_ok executed
      rw [plain, Nat.add_zero]
  | mstore plain =>
      show next.pc = machine.pc + pushWidth op
      simp only [memoryWordOperation] at executed
      obtain ⟨mStart, val, rest, store, -, -, -, rfl⟩ := opMstore_eq_ok executed
      rw [plain, Nat.add_zero]
  | jump =>
      show next.pc = machine.pc + pushWidth op + 1 ∨ validJumpdest code next.pc = some true
      simp only [jumpOperation] at executed
      obtain ⟨pos, rest, -, jumped⟩ := opJump_eq_ok executed
      obtain ⟨valid, -, rfl⟩ := jumpTo_eq_ok jumped
      exact .inr valid
  | jumpi plain =>
      show next.pc = machine.pc + pushWidth op + 1 ∨ validJumpdest code next.pc = some true
      simp only [jumpiOperation] at executed
      -- a taken jump lands on a JUMPDEST, one not taken steps over the opcode itself
      obtain ⟨pos, cond, rest, -, ⟨-, jumped⟩ | ⟨-, rfl⟩⟩ := opJumpi_eq_ok executed
      · obtain ⟨valid, -, rfl⟩ := jumpTo_eq_ok jumped
        exact .inr valid
      · exact .inl (by rw [plain])
  | jumpdest plain =>
      show next.pc = machine.pc + pushWidth op
      simp only [jumpdestOperation] at executed
      obtain ⟨-, rfl⟩ := opJumpdest_eq_ok executed
      rw [plain, Nat.add_zero]
  | pushing read gas _ plain =>
      show next.pc = machine.pc + pushWidth op
      simp only [pushingOperation] at executed
      obtain ⟨-, rfl⟩ := pushOp_eq_ok executed
      rw [plain, Nat.add_zero]
  | push1 width =>
      show next.pc = machine.pc + pushWidth op
      simp only [pushingOperation] at executed
      obtain ⟨-, integer, rfl⟩ := opPush1_eq_ok executed
      rw [width]
  | push size width =>
      show next.pc = machine.pc + pushWidth op
      simp only [pushOperation, pushingOperation] at executed
      obtain ⟨-, integer, rfl⟩ := makePush_eq_ok executed
      rw [width]
  | dup size _ plain =>
      show next.pc = machine.pc + pushWidth op
      simp only [dupOperation] at executed
      obtain ⟨-, -, -, rfl⟩ := makeDup_eq_ok executed
      rw [plain, Nat.add_zero]
  | swap size plain =>
      show next.pc = machine.pc + pushWidth op
      simp only [swapOperation] at executed
      obtain ⟨-, -, rfl⟩ := makeSwap_eq_ok executed
      rw [plain, Nat.add_zero]
  | ret plain =>
      show next.pc = machine.pc + pushWidth op
      simp only [returnOperation, opReturn] at executed
      obtain ⟨offset, size, rest, -, -, rfl⟩ := returnRegion_eq_ok executed
      rw [plain, Nat.add_zero]
  | revert plain =>
      show next.pc = machine.pc + pushWidth op
      simp only [revertOperation, opRevert] at executed
      obtain ⟨offset, size, rest, -, -, rfl⟩ := returnRegion_eq_ok executed
      rw [plain, Nat.add_zero]

/-- Every entry costs gas unless it halts or reverts, and none gives gas back in execute. -/
theorem V1Entry.metered (entry : V1Entry op operation) : operation.Metered where
  positive := by
    cases entry with
    | stop => exact fun halted => by cases halted
    | binary f gas positive => exact fun _ _ => positive
    | unary f gas positive => exact fun _ _ => positive
    | pop => exact fun _ _ => show 0 < GasQuickStep.toNat by decide
    | mload => exact fun _ _ => show 0 < GasFastestStep.toNat by decide
    | mstore => exact fun _ _ => show 0 < GasFastestStep.toNat by decide
    | jump => exact fun _ _ => show 0 < GasMidStep.toNat by decide
    | jumpi => exact fun _ _ => show 0 < GasSlowStep.toNat by decide
    | jumpdest => exact fun _ _ => show 0 < JumpdestGas.toNat by decide
    | pushing read gas positive => exact fun _ _ => positive
    | push1 => exact fun _ _ => show 0 < GasFastestStep.toNat by decide
    | push size => exact fun _ _ => show 0 < GasFastestStep.toNat by decide
    | dup size => exact fun _ _ => show 0 < GasFastestStep.toNat by decide
    | swap size => exact fun _ _ => show 0 < GasFastestStep.toNat by decide
    | ret => exact fun halted => by cases halted
    | revert => exact fun _ reverted => by cases reverted
  keepsGas _ _ _ _ executed :=
    (congrArg (fun machine => machine.gas.toNat) (entry.execute_frame executed).1).le

/-- The memory size of an entry fails only with an error once the stack holds what the entry pops. -/
theorem V1Entry.requiredMemory_faults (entry : V1Entry op operation) {stack : List Word} {fault : Fault}
    (low : operation.minStack ≤ stack.length) (failed : requiredMemory operation stack = .error fault) :
    ∃ err, fault = .error err := by
  cases entry with
  | mload => exact ⟨_, requiredMemory_eq_error rfl (memoryWordAt_answers low) failed⟩
  | mstore => exact ⟨_, requiredMemory_eq_error rfl (memoryWordAt_answers (Nat.le_of_succ_le low)) failed⟩
  | ret => exact ⟨_, requiredMemory_eq_error rfl (memoryRegionAt_answers low) failed⟩
  | revert => exact ⟨_, requiredMemory_eq_error rfl (memoryRegionAt_answers low) failed⟩
  | _ =>
      -- the other entries have no memory size
      rw [requiredMemory_of_none rfl] at failed
      cases failed

/--
The execute of an entry fails only with an error after the loop's checks and
charges: the stack holds what it pops, and the memory was resized to what it
reads and writes.
-/
theorem V1Entry.execute_faults (entry : V1Entry op operation) {isGalaxias : Bool} {code : List UInt8}
    {machine charged : Machine σ} {fault : Fault} (fits : code.length ≤ 2 ^ 64)
    (storeFits : machine.store.length < 2 ^ 64) (low : operation.minStack ≤ machine.stack.length)
    (chargedOk : charge isGalaxias operation machine = .ok charged)
    (failed : operation.execute code charged = .error fault) :
    ∃ err, fault = .error err := by
  obtain ⟨-, sameStack, -⟩ := charge_frame chargedOk
  rw [← sameStack] at low
  cases entry with
  | stop => simp [stopOperation, opStop] at failed
  | binary f gas =>
      simp only [binaryOperation] at failed
      have short := binaryOp_eq_error failed
      simp only [binaryOperation, minStack] at low
      omega
  | unary f gas =>
      simp only [unaryOperation] at failed
      have empty := unaryOp_eq_error failed
      simp [unaryOperation, minStack, empty] at low
  | pop =>
      simp only [popOperation] at failed
      have empty := opPop_eq_error failed
      simp [popOperation, minStack, empty] at low
  | mload =>
      obtain ⟨memorySize, required, held, capped⟩ := charge_memory_fits rfl chargedOk
      obtain ⟨memSize, sized, -, rounded⟩ := requiredMemory_eq_ok rfl required
      simp only [memoryWordOperation] at failed
      rcases opMload_eq_error failed with empty | ⟨v, rest, stackEq, readFault⟩
      · simp [memoryWordOperation, minStack, empty] at low
      · rw [← sameStack, stackEq] at sized
        exact absurd readFault (getPtr_word_ne_error sized rounded held capped)
  | mstore =>
      obtain ⟨memorySize, required, held, capped⟩ := charge_memory_fits rfl chargedOk
      obtain ⟨memSize, sized, -, rounded⟩ := requiredMemory_eq_ok rfl required
      -- the resize keeps the store within 64 bits
      have chargedFits : charged.store.length < 2 ^ 64 := by
        obtain ⟨size, -, resized⟩ := charge_store_length chargedOk
        rw [resized]
        exact max_lt storeFits (UInt64.toNat_lt size)
      simp only [memoryWordOperation] at failed
      rcases opMstore_eq_error failed with short | ⟨mStart, val, rest, stackEq, writeFault⟩
      · simp only [memoryWordOperation, minStack] at low
        omega
      · rw [← sameStack, stackEq] at sized
        exact absurd writeFault (set32_word_ne_error val sized rounded held chargedFits)
  | jump =>
      simp only [jumpOperation] at failed
      rcases opJump_eq_error fits failed with empty | invalid
      · simp [jumpOperation, minStack, empty] at low
      · exact ⟨_, invalid⟩
  | jumpi =>
      simp only [jumpiOperation] at failed
      rcases opJumpi_eq_error fits failed with short | invalid
      · simp only [jumpiOperation, minStack] at low
        omega
      · exact ⟨_, invalid⟩
  | jumpdest => simp [jumpdestOperation, opJumpdest] at failed
  | pushing read gas => simp [pushingOperation, pushOp] at failed
  | push1 => simp [pushingOperation, opPush1] at failed
  | push size => simp [pushOperation, pushingOperation, makePush] at failed
  | dup size positive =>
      simp only [dupOperation] at failed
      have short := makeDup_eq_error failed
      simp only [dupOperation, minDupStack, minStack] at low
      omega
  | swap size =>
      simp only [swapOperation] at failed
      have short := makeSwap_eq_error failed
      simp only [swapOperation, minSwapStack, minStack] at low
      omega
  | ret =>
      obtain ⟨memorySize, required, held, capped⟩ := charge_memory_fits rfl chargedOk
      obtain ⟨memSize, sized, -, rounded⟩ := requiredMemory_eq_ok rfl required
      simp only [returnOperation, opReturn] at failed
      rcases returnRegion_eq_error failed with short | ⟨offset, size, rest, stackEq, readFault⟩
      · simp only [returnOperation, minStack] at low
        omega
      · rw [← sameStack, stackEq] at sized
        exact absurd readFault (getPtr_region_ne_error sized rounded held capped)
  | revert =>
      obtain ⟨memorySize, required, held, capped⟩ := charge_memory_fits rfl chargedOk
      obtain ⟨memSize, sized, -, rounded⟩ := requiredMemory_eq_ok rfl required
      simp only [revertOperation, opRevert] at failed
      rcases returnRegion_eq_error failed with short | ⟨offset, size, rest, stackEq, readFault⟩
      · simp only [revertOperation, minStack] at low
        omega
      · rw [← sameStack, stackEq] at sized
        exact absurd readFault (getPtr_region_ne_error sized rounded held capped)

theorem V1Entry.panicFree (entry : V1Entry op operation) : operation.PanicFree where
  memory _ _ low failed := entry.requiredMemory_faults low failed
  keepsStore _ _ _ _ executed := (entry.execute_frame executed).2
  execute _ _ _ _ _ fits storeFits low _ chargedOk failed := entry.execute_faults fits storeFits low chargedOk failed

end Sound

end Kardia.Kvm
