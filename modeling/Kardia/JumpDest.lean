import Mathlib

namespace Kardia.Kvm

/-!
# Jump-destination analysis

A jump lands only on a JUMPDEST that is an opcode, not a byte of the data a
PUSH1 to PUSH32 carries after it.  codeBitmap marks the data bytes of the
code in a bit vector, eight bytes of data at a time (set8) and then one at a
time (set); validJumpdest reads the bit of the destination.

The specification reads the code linearly from offset 0: each instruction is
one byte, a PUSHn followed by its n bytes of data (walk); the boundaries are
the offsets it reaches, and the data bytes those it steps over (InData).
codeBitmap marks exactly the data bytes and never writes outside the bit
vector it allocates, and validJumpdest holds exactly at the JUMPDESTs on a
boundary.
-/

/-- The opcodes the analysis reads. -/
def PUSH1 : UInt8 := 0x60
def PUSH32 : UInt8 := 0x7f
def JUMPDEST : UInt8 := 0x5b

/-- bitvec: one bit per byte of code, from the top bit of each byte; a set bit marks data. -/
abbrev Bitvec := List UInt8

namespace Bitvec

/-- bitvec.set: the bit of a position set; Go indexes out of range (none) past the vector. -/
def set (bits : Bitvec) (pos : Nat) : Option Bitvec :=
  if pos / 8 < bits.length then some (bits.modify (pos / 8) (· ||| ((0x80 : UInt8) >>> (pos % 8).toUInt8)))
  else none

/-- bitvec.set8: the bits of eight positions from one set, in the byte of the position and the next. -/
def set8 (bits : Bitvec) (pos : Nat) : Option Bitvec :=
  if pos / 8 + 1 < bits.length then
    some (((bits.modify (pos / 8) (· ||| ((0xFF : UInt8) >>> (pos % 8).toUInt8))).modify (pos / 8 + 1)
      (· ||| ~~~((0xFF : UInt8) >>> (pos % 8).toUInt8))))
  else none

/-- bitvec.codeSegment: whether the bit of a position is clear, that is, the byte is an opcode. -/
def codeSegment (bits : Bitvec) (pos : Nat) : Option Bool :=
  bits[pos / 8]?.map fun b => (b &&& ((0x80 : UInt8) >>> (pos % 8).toUInt8)) == 0

end Bitvec

/-- The loop of codeBitmap over the last bits of a PUSH's data, one at a time: the bits and the position after. -/
def setBits (bits : Bitvec) (pc : Nat) : Nat → Option (Bitvec × Nat)
  | 0 => some (bits, pc)
  | numbits + 1 => (bits.set pc).bind fun bits => setBits bits (pc + 1) numbits

/-- The loop of codeBitmap over a PUSH's data, eight bits at a time while eight are left, then the rest. -/
def setData (bits : Bitvec) (pc : Nat) : Nat → Option (Bitvec × Nat)
  | numbits + 8 => (bits.set8 pc).bind fun bits => setData bits (pc + 8) numbits
  | numbits => setBits bits pc numbits

theorem setBits_pc {bits bits' : Bitvec} {pc next : Nat} :
    ∀ {numbits : Nat}, setBits bits pc numbits = some (bits', next) → next = pc + numbits
  | 0, done => by
      simp only [setBits, Option.some.injEq, Prod.mk.injEq] at done
      omega
  | numbits + 1, done => by
      simp only [setBits, Option.bind_eq_some_iff] at done
      obtain ⟨_, _, rest⟩ := done
      have := setBits_pc rest
      omega

theorem setData_pc {bits bits' : Bitvec} {pc next : Nat} :
    ∀ {numbits : Nat}, setData bits pc numbits = some (bits', next) → next = pc + numbits
  | numbits + 8, done => by
      simp only [setData, Option.bind_eq_some_iff] at done
      obtain ⟨_, _, rest⟩ := done
      have := setData_pc rest
      omega
  | 0, done | 1, done | 2, done | 3, done | 4, done | 5, done | 6, done | 7, done => setBits_pc done

/--
codeBitmap from a position: at a PUSH1 to PUSH32 the bits of its data are set
and the scan goes on after them, at any other opcode after it.
-/
def codeBitmapFrom (code : List UInt8) (bits : Bitvec) (pc : Nat) : Option Bitvec :=
  if inside : pc < code.length then
    let op := code[pc]
    if PUSH1 ≤ op ∧ op ≤ PUSH32 then
      match set : setData bits (pc + 1) (op - PUSH1 + 1).toNat with
      | none => none
      | some (bits, next) => codeBitmapFrom code bits next
    else codeBitmapFrom code bits (pc + 1)
  else some bits
termination_by code.length - pc
decreasing_by
  · have := setData_pc set
    omega
  · omega

/-- codeBitmap: the data bytes of the code marked, in a vector four bytes longer than needed. -/
def codeBitmap (code : List UInt8) : Option Bitvec :=
  codeBitmapFrom code (List.replicate (code.length / 8 + 1 + 4) 0) 0

/-- Contract.isCode: whether a position is an opcode, by the analysis of the code. -/
def isCode (code : List UInt8) (udest : Nat) : Option Bool :=
  (codeBitmap code).bind fun analysis => analysis.codeSegment udest

/-- Contract.validJumpdest: in the code, past no 64-bit overflow, a JUMPDEST, and an opcode. -/
def validJumpdest (code : List UInt8) (dest : Nat) : Option Bool :=
  if dest ≥ 2 ^ 64 ∨ dest ≥ code.length then some false
  else if code.getD dest 0 ≠ JUMPDEST then some false
  else isCode code dest

/-! ## The bits of a bit vector -/

/-- The bit of a byte at a position from the top, as codeSegment reads it. -/
def bitOf (b : UInt8) (j : Nat) : Bool :=
  (b &&& ((0x80 : UInt8) >>> j.toUInt8)) != 0

/-- The bit of a bit vector at a position of the code; a vector reads nil past its end. -/
def Bitvec.bitAt (bits : Bitvec) (i : Nat) : Bool :=
  bitOf (bits.getD (i / 8) 0) (i % 8)

section Bits

theorem bitOf_or (a c : UInt8) (j : Nat) : bitOf (a ||| c) j = (bitOf a j || bitOf c j) := by
  have distrib : (a ||| c) &&& ((0x80 : UInt8) >>> j.toUInt8) =
      (a &&& ((0x80 : UInt8) >>> j.toUInt8)) ||| (c &&& ((0x80 : UInt8) >>> j.toUInt8)) := by
    simp [← UInt8.toBitVec_inj, BitVec.and_or_distrib_right]
  rw [bitOf, distrib, Bool.eq_iff_iff]
  simp only [bne_iff_ne, ne_eq, UInt8.or_eq_zero_iff, Bool.or_eq_true, bitOf]
  tauto

@[simp] theorem bitOf_zero (j : Nat) : bitOf 0 j = false := by
  simp [bitOf]

/-- The mask of set: the one bit at its position. -/
theorem bitOf_single {r j : Nat} (smallR : r < 8) (smallJ : j < 8) :
    bitOf ((0x80 : UInt8) >>> r.toUInt8) j = decide (j = r) := by
  have masks : ∀ r j : Fin 8, bitOf ((0x80 : UInt8) >>> r.val.toUInt8) j.val = decide (j = r) := by decide
  simpa [Fin.ext_iff] using masks ⟨r, smallR⟩ ⟨j, smallJ⟩

/-- The first mask of set8: the bits from its position to the end of the byte. -/
theorem bitOf_from {r j : Nat} (smallR : r < 8) (smallJ : j < 8) :
    bitOf ((0xFF : UInt8) >>> r.toUInt8) j = decide (r ≤ j) := by
  have masks : ∀ r j : Fin 8, bitOf ((0xFF : UInt8) >>> r.val.toUInt8) j.val = decide (r ≤ j) := by decide
  simpa [Fin.le_def] using masks ⟨r, smallR⟩ ⟨j, smallJ⟩

/-- The second mask of set8: the bits of the next byte before its position. -/
theorem bitOf_before {r j : Nat} (smallR : r < 8) (smallJ : j < 8) :
    bitOf (~~~((0xFF : UInt8) >>> r.toUInt8)) j = decide (j < r) := by
  have masks : ∀ r j : Fin 8, bitOf (~~~((0xFF : UInt8) >>> r.val.toUInt8)) j.val = decide (j < r) := by decide
  simpa [Fin.lt_def] using masks ⟨r, smallR⟩ ⟨j, smallJ⟩

theorem getD_modify (bits : Bitvec) (n i : Nat) (f : UInt8 → UInt8) :
    (bits.modify n f).getD i 0 = if n = i ∧ i < bits.length then f (bits.getD i 0) else bits.getD i 0 := by
  simp only [List.getD_eq_getElem?_getD, List.getElem?_modify]
  by_cases inside : i < bits.length
  · simp [inside]
  · simp [inside]

section Set

variable {bits : Bitvec} {pos : Nat}

/-- set sets the bit of its position and no other, inside the vector. -/
theorem set_spec (inRange : pos / 8 < bits.length) :
    ∃ bits', bits.set pos = some bits' ∧ bits'.length = bits.length ∧
      ∀ i, bits'.bitAt i = (bits.bitAt i || decide (i = pos)) := by
  refine ⟨_, if_pos inRange, List.length_modify _ _ _, fun i => ?_⟩
  simp only [Bitvec.bitAt, getD_modify]
  by_cases sameByte : pos / 8 = i / 8
  · rw [if_pos ⟨sameByte, sameByte ▸ inRange⟩, bitOf_or, bitOf_single (Nat.mod_lt _ (by omega))
      (Nat.mod_lt _ (by omega))]
    congr 1
    apply decide_eq_decide.mpr
    omega
  · rw [if_neg (fun both => sameByte both.1)]
    have differ : i ≠ pos := fun same => sameByte (same ▸ rfl)
    simp [differ]

/-- set8 sets the bits of the eight positions from its own and no other, inside the vector. -/
theorem set8_spec (inRange : pos / 8 + 1 < bits.length) :
    ∃ bits', bits.set8 pos = some bits' ∧ bits'.length = bits.length ∧
      ∀ i, bits'.bitAt i = (bits.bitAt i || decide (pos ≤ i ∧ i < pos + 8)) := by
  refine ⟨_, if_pos inRange, by simp only [List.length_modify], fun i => ?_⟩
  simp only [Bitvec.bitAt, getD_modify, List.length_modify]
  have smallR : pos % 8 < 8 := Nat.mod_lt _ (by omega)
  have smallJ : i % 8 < 8 := Nat.mod_lt _ (by omega)
  by_cases nextByte : pos / 8 + 1 = i / 8
  · -- the byte after the position's: the bits before the position's bit
    have notFirst : pos / 8 ≠ i / 8 := by omega
    rw [if_pos ⟨nextByte, nextByte ▸ inRange⟩, if_neg (fun both => notFirst both.1), bitOf_or,
      bitOf_before smallR smallJ]
    congr 1
    apply decide_eq_decide.mpr
    omega
  · rw [if_neg (fun both => nextByte both.1)]
    by_cases sameByte : pos / 8 = i / 8
    · -- the position's byte: its bit and those after it
      rw [if_pos ⟨sameByte, by omega⟩, bitOf_or, bitOf_from smallR smallJ]
      congr 1
      apply decide_eq_decide.mpr
      omega
    · rw [if_neg (fun both => sameByte both.1)]
      have outside : ¬ (pos ≤ i ∧ i < pos + 8) := by omega
      simp [outside]

/-- The bits of numbits positions from pc set one at a time, all inside the vector. -/
theorem setBits_spec : ∀ {bits : Bitvec} {pc : Nat} (numbits : Nat), (pc + numbits) / 8 < bits.length →
    ∃ bits', setBits bits pc numbits = some (bits', pc + numbits) ∧ bits'.length = bits.length ∧
      ∀ i, bits'.bitAt i = (bits.bitAt i || decide (pc ≤ i ∧ i < pc + numbits))
  | bits, pc, 0, _ => ⟨bits, rfl, rfl, fun i => by simp⟩
  | bits, pc, numbits + 1, fits => by
      obtain ⟨first, setFirst, firstLength, firstBits⟩ := set_spec (show pc / 8 < bits.length by omega)
      obtain ⟨rest, setRest, restLength, restBits⟩ :=
        setBits_spec numbits (show (pc + 1 + numbits) / 8 < first.length by rw [firstLength]; omega)
      refine ⟨rest, ?_, restLength.trans firstLength, fun i => ?_⟩
      · rw [setBits, setFirst, Option.bind_some, setRest]
        congr 2
        omega
      · rw [restBits, firstBits, Bool.or_assoc]
        congr 1
        rw [Bool.eq_iff_iff]
        simp only [Bool.or_eq_true, decide_eq_true_eq]
        omega

/-- The bits of a PUSH's numbits data positions from pc set, eight at a time then one at a time. -/
theorem setData_spec : ∀ {bits : Bitvec} {pc : Nat} (numbits : Nat), (pc + numbits) / 8 < bits.length →
    ∃ bits', setData bits pc numbits = some (bits', pc + numbits) ∧ bits'.length = bits.length ∧
      ∀ i, bits'.bitAt i = (bits.bitAt i || decide (pc ≤ i ∧ i < pc + numbits))
  | bits, pc, numbits + 8, fits => by
      obtain ⟨first, setFirst, firstLength, firstBits⟩ := set8_spec (show pc / 8 + 1 < bits.length by omega)
      obtain ⟨rest, setRest, restLength, restBits⟩ :=
        setData_spec numbits (show (pc + 8 + numbits) / 8 < first.length by rw [firstLength]; omega)
      refine ⟨rest, ?_, restLength.trans firstLength, fun i => ?_⟩
      · rw [setData, setFirst, Option.bind_some, setRest]
        congr 2
        omega
      · rw [restBits, firstBits, Bool.or_assoc]
        congr 1
        rw [Bool.eq_iff_iff]
        simp only [Bool.or_eq_true, decide_eq_true_eq]
        omega
  | _, _, 0, fits | _, _, 1, fits | _, _, 2, fits | _, _, 3, fits | _, _, 4, fits | _, _, 5, fits
  | _, _, 6, fits | _, _, 7, fits => setBits_spec _ fits

end Set

end Bits

/-! ## The linear decoding of code -/

/-- The number of data bytes after an opcode: n for PUSHn, none for any other. -/
def pushWidth (op : UInt8) : Nat :=
  if 0x60 ≤ op.toNat ∧ op.toNat ≤ 0x7f then op.toNat - 0x5f else 0

/-- The offset of the instruction after the one at pc. -/
def nextPc (code : List UInt8) (pc : Nat) : Nat :=
  pc + 1 + pushWidth (code.getD pc 0)

/-- The offset of the k-th instruction of the code read from offset 0. -/
def walk (code : List UInt8) : Nat → Nat
  | 0 => 0
  | k + 1 => nextPc code (walk code k)

/-- An instruction boundary: an offset the reading reaches, every instruction before it inside the code. -/
def Boundary (code : List UInt8) (p : Nat) : Prop :=
  ∃ k, (∀ j < k, walk code j < code.length) ∧ walk code k = p

/-- A data byte: one of the bytes a PUSH at a boundary inside the code carries. -/
def InData (code : List UInt8) (i : Nat) : Prop :=
  ∃ q, Boundary code q ∧ q < code.length ∧ q < i ∧ i ≤ q + pushWidth (code.getD q 0)

section Decoding

variable {code : List UInt8}

theorem walk_strictMono (code : List UInt8) : StrictMono (walk code) :=
  strictMono_nat_of_lt_succ fun k => by simp only [walk, nextPc]; omega

/-- A boundary inside the code is no data byte, and every other offset inside the code is one. -/
theorem boundary_iff_not_inData {i : Nat} (inside : i < code.length) : Boundary code i ↔ ¬ InData code i := by
  constructor
  · -- two boundaries are a whole instruction apart, so no boundary is in the data of another
    rintro ⟨m, _, rfl⟩ ⟨q, ⟨j, _, rfl⟩, _, before, within⟩
    have earlier : j < m := (walk_strictMono code).lt_iff_lt.mp before
    have next : walk code (j + 1) ≤ walk code m := (walk_strictMono code).monotone earlier
    simp only [walk, nextPc] at next
    omega
  · -- the last boundary at or before i: i is that boundary, or in its data
    intro notData
    have grows : i + 1 ≤ walk code (i + 1) := (walk_strictMono code).id_le (i + 1)
    have passes : ∃ k, i < walk code (k + 1) := ⟨i, by omega⟩
    obtain ⟨k, past, minimal⟩ : ∃ k, i < walk code (k + 1) ∧ ∀ j < k, ¬ i < walk code (j + 1) :=
      ⟨Nat.find passes, Nat.find_spec passes, fun _ => Nat.find_min passes⟩
    have atOrBefore : walk code k ≤ i := by
      cases k with
      | zero => exact Nat.zero_le i
      | succ k => exact not_lt.mp (minimal k (Nat.lt_succ_self k))
    have boundary : Boundary code (walk code k) :=
      ⟨k, fun j below => lt_of_lt_of_le ((walk_strictMono code) below) (atOrBefore.trans inside.le), rfl⟩
    rcases atOrBefore.lt_or_eq with before | atBoundary
    · exfalso
      apply notData
      simp only [walk, nextPc] at past
      exact ⟨walk code k, boundary, by omega, before, by omega⟩
    · exact atBoundary ▸ boundary

/-- The data bytes are those of the instructions read before the reading leaves the code. -/
theorem inData_iff_of_ended {k i : Nat} (before : ∀ j < k, walk code j < code.length)
    (ended : code.length ≤ walk code k) :
    (∃ j < k, walk code j < i ∧ i ≤ walk code j + pushWidth (code.getD (walk code j) 0)) ↔ InData code i := by
  constructor
  · rintro ⟨j, earlier, after, within⟩
    exact ⟨walk code j, ⟨j, fun j' below => before j' (below.trans earlier), rfl⟩, before j earlier, after, within⟩
  · rintro ⟨q, ⟨j, _, rfl⟩, inside, after, within⟩
    have earlier : j < k := by
      by_contra later
      have := (walk_strictMono code).monotone (not_lt.mp later)
      omega
    exact ⟨j, earlier, after, within⟩

/-- The width codeBitmap computes for a PUSH is its number of data bytes. -/
theorem pushWidth_of_push {op : UInt8} (push : PUSH1 ≤ op ∧ op ≤ PUSH32) :
    (op - PUSH1 + 1).toNat = pushWidth op := by
  obtain ⟨low, high⟩ := push
  simp only [PUSH1, PUSH32] at low high ⊢
  have low' := UInt8.le_iff_toNat_le.mp low
  have high' := UInt8.le_iff_toNat_le.mp high
  rw [UInt8.toNat_add, UInt8.toNat_sub_of_le _ _ low]
  simp only [pushWidth, UInt8.reduceToNat] at low' high' ⊢
  split_ifs <;> omega

theorem pushWidth_of_not_push {op : UInt8} (notPush : ¬ (PUSH1 ≤ op ∧ op ≤ PUSH32)) : pushWidth op = 0 := by
  simp only [PUSH1, PUSH32, UInt8.le_iff_toNat_le, UInt8.reduceToNat] at notPush
  simp only [pushWidth, if_neg notPush]

end Decoding

/-! ## codeBitmap marks the data bytes -/

section Bitmap

/-- The bits of the data of the instructions before the k-th one. -/
def MarkedBefore (code : List UInt8) (k : Nat) (bits : Bitvec) : Prop :=
  ∀ i, bits.bitAt i = true ↔ ∃ j < k, walk code j < i ∧ i ≤ walk code j + pushWidth (code.getD (walk code j) 0)

/--
The loop of codeBitmap from the k-th instruction, with the data before it
marked: it marks every data byte and no other, and every bit it sets is
inside the vector, which is longer than the code by at least four bytes.
-/
theorem codeBitmapFrom_spec (code : List UInt8) (k : Nat) (bits : Bitvec)
    (before : ∀ j < k, walk code j < code.length) (sized : bits.length = code.length / 8 + 5)
    (marked : MarkedBefore code k bits) :
    ∃ bits', codeBitmapFrom code bits (walk code k) = some bits' ∧ bits'.length = code.length / 8 + 5 ∧
      ∀ i, bits'.bitAt i = true ↔ InData code i := by
  rw [codeBitmapFrom]
  by_cases inside : walk code k < code.length
  · rw [dif_pos inside]
    have extended : ∀ j < k + 1, walk code j < code.length := fun j below =>
      (Nat.lt_succ_iff_lt_or_eq.mp below).elim (before j) (fun atK => atK ▸ inside)
    have opAt : code[walk code k] = code.getD (walk code k) 0 := by simp [inside]
    by_cases push : PUSH1 ≤ code[walk code k] ∧ code[walk code k] ≤ PUSH32
    · -- a PUSH: its data bits are set, all inside the vector
      rw [if_pos push]
      have width := pushWidth_of_push push
      have small : pushWidth (code.getD (walk code k) 0) ≤ 32 := by
        simp only [pushWidth]
        split_ifs <;> omega
      obtain ⟨next, setNext, nextLength, nextBits⟩ := setData_spec _
        (show (walk code k + 1 + (code[walk code k] - PUSH1 + 1).toNat) / 8 < bits.length by
          rw [width, opAt, sized]
          omega)
      split
      · rename_i failed
        rw [setNext] at failed
        cases failed
      · rename_i bits'' pc' done
        rw [setNext, Option.some.injEq, Prod.mk.injEq] at done
        obtain ⟨rfl, rfl⟩ := done
        have reached : walk code k + 1 + (code[walk code k] - PUSH1 + 1).toNat = walk code (k + 1) := by
          rw [width, opAt]
          rfl
        rw [reached]
        refine codeBitmapFrom_spec code (k + 1) next extended (nextLength.trans sized) fun i => ?_
        rw [nextBits, Bool.or_eq_true, marked i, width, opAt, decide_eq_true_eq]
        constructor
        · rintro (⟨j, earlier, data⟩ | data)
          · exact ⟨j, Nat.lt_succ_of_lt earlier, data⟩
          · exact ⟨k, Nat.lt_succ_self k, by omega, by omega⟩
        · rintro ⟨j, earlier, data⟩
          rcases Nat.lt_succ_iff_lt_or_eq.mp earlier with earlier | rfl
          · exact Or.inl ⟨j, earlier, data⟩
          · exact Or.inr (by omega)
    · -- any other opcode: no data, the next instruction follows it
      rw [if_neg push]
      have reached : walk code k + 1 = walk code (k + 1) := by
        simp only [walk, nextPc, ← opAt, pushWidth_of_not_push push, Nat.add_zero]
      rw [reached]
      refine codeBitmapFrom_spec code (k + 1) bits extended sized fun i => ?_
      rw [marked i]
      constructor
      · rintro ⟨j, earlier, data⟩
        exact ⟨j, Nat.lt_succ_of_lt earlier, data⟩
      · rintro ⟨j, earlier, data⟩
        rcases Nat.lt_succ_iff_lt_or_eq.mp earlier with earlier | rfl
        · exact ⟨j, earlier, data⟩
        · rw [← opAt, pushWidth_of_not_push push] at data
          omega
  · -- past the code: the data bytes of every instruction read are marked
    rw [dif_neg inside]
    exact ⟨bits, rfl, sized, fun i => (marked i).trans (inData_iff_of_ended before (not_lt.mp inside))⟩
termination_by code.length - walk code k
decreasing_by
  all_goals
    have := (walk_strictMono code) (Nat.lt_succ_self k)
    omega

/--
codeBitmap never indexes outside the vector it allocates, len(code)/8+5
bytes, and marks exactly the data bytes, also those a PUSH at the end of the
code would carry past it.
-/
theorem codeBitmap_spec (code : List UInt8) :
    ∃ bits, codeBitmap code = some bits ∧ bits.length = code.length / 8 + 5 ∧
      ∀ i, bits.bitAt i = true ↔ InData code i := by
  apply codeBitmapFrom_spec code 0 _ (fun _ below => absurd below (Nat.not_lt_zero _)) (by simp)
  intro i
  have clear : Bitvec.bitAt (List.replicate (code.length / 8 + 1 + 4) (0 : UInt8)) i = false := by
    rw [Bitvec.bitAt, List.getD_eq_getElem?_getD, List.getElem?_replicate]
    split_ifs <;> simp
  simp [clear]

theorem codeSegment_of_lt {bits : Bitvec} {pos : Nat} (inRange : pos / 8 < bits.length) :
    bits.codeSegment pos = some !bits.bitAt pos := by
  simp only [Bitvec.codeSegment, Bitvec.bitAt, bitOf, List.getElem?_eq_getElem inRange, Option.map_some,
    List.getD_eq_getElem _ _ inRange, bne, Bool.not_not]

end Bitmap

/--
validJumpdest holds exactly at a JUMPDEST inside the code that is an
instruction boundary, and never indexes out of range.  A Go slice is shorter
than 2^64, so a destination inside the code passes the 64-bit overflow check.
-/
theorem validJumpdest_spec (code : List UInt8) (fits : code.length ≤ 2 ^ 64) (dest : Nat) :
    ∃ valid, validJumpdest code dest = some valid ∧
      (valid = true ↔ dest < code.length ∧ code.getD dest 0 = JUMPDEST ∧ Boundary code dest) := by
  unfold validJumpdest
  by_cases outside : dest ≥ 2 ^ 64 ∨ dest ≥ code.length
  · rw [if_pos outside]
    exact ⟨false, rfl, by simp only [Bool.false_eq_true, false_iff]; omega⟩
  rw [if_neg outside]
  have inside : dest < code.length := by omega
  by_cases notJumpdest : code.getD dest 0 ≠ JUMPDEST
  · rw [if_pos notJumpdest]
    refine ⟨false, rfl, ?_⟩
    simp only [Bool.false_eq_true, false_iff, not_and]
    exact fun _ isJumpdest => absurd isJumpdest notJumpdest
  rw [if_neg notJumpdest]
  have isJumpdest : code.getD dest 0 = JUMPDEST := not_not.mp notJumpdest
  obtain ⟨bits, analysed, sized, marks⟩ := codeBitmap_spec code
  refine ⟨!bits.bitAt dest, by rw [isCode, analysed, Option.bind_some, codeSegment_of_lt (by omega)], ?_⟩
  rw [Bool.not_eq_true', boundary_iff_not_inData inside, ← marks]
  constructor
  · intro clear
    exact ⟨inside, isJumpdest, by simp [clear]⟩
  · rintro ⟨_, _, notMarked⟩
    simpa using notMarked

/-- PUSH1 0x5b JUMPDEST: the data byte is 0x5b too. -/
def pushedJumpdest : List UInt8 := [0x60, 0x5b, 0x5b]

/-- The JUMPDEST after the PUSH1 is valid; the PUSH1's data byte is not. -/
example : validJumpdest pushedJumpdest 1 = some false ∧ validJumpdest pushedJumpdest 2 = some true := by
  decide +kernel

/--
The analysis meets its specification: codeBitmap marks exactly the data
bytes, per byte as InData reads them, inside the vector it allocates, and
validJumpdest holds exactly at the JUMPDESTs inside the code on an
instruction boundary.
-/
theorem jumpdest_analysis_correct (code : List UInt8) (fits : code.length ≤ 2 ^ 64) :
    (∃ bits, codeBitmap code = some bits ∧ bits.length = code.length / 8 + 5 ∧
        ∀ i, bits.bitAt i = true ↔ InData code i) ∧
      ∀ dest, ∃ valid, validJumpdest code dest = some valid ∧
        (valid = true ↔ dest < code.length ∧ code.getD dest 0 = JUMPDEST ∧ Boundary code dest) :=
  ⟨codeBitmap_spec code, validJumpdest_spec code fits⟩

theorem jumpdest_analysis_correct_pushed :
    pushedJumpdest.length ≤ 2 ^ 64 ∧
      (∃ bits, codeBitmap pushedJumpdest = some bits ∧ bits.length = pushedJumpdest.length / 8 + 5 ∧
          ∀ i, bits.bitAt i = true ↔ InData pushedJumpdest i) ∧
        ∀ dest, ∃ valid, validJumpdest pushedJumpdest dest = some valid ∧
          (valid = true ↔ dest < pushedJumpdest.length ∧ pushedJumpdest.getD dest 0 = JUMPDEST ∧
            Boundary pushedJumpdest dest) :=
  ⟨by decide, jumpdest_analysis_correct pushedJumpdest (by decide)⟩

end Kardia.Kvm
