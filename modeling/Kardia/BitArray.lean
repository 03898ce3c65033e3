import Kardia.Types
import Kardia.Runs

namespace Kardia

/-!
# Bit arrays

The model of lib/common/bit_array.go.  A bit array stores its size in bits
and a slice of 64-bit words; the words are modelled as natural numbers, and
Go's bitwise complement of a uint64 is the exclusive or with 2^64 - 1.

Nothing ties the two fields together: NewBitArray allocates
(bits + 63) / 64 words, but BitArray.FromProto copies the two fields from the
wire independently.  Indexing a word past the end of the slice is a Go
runtime panic, so every operation that reads or writes a word returns
Except, with the panic as its error.

A well-formed array (one word for every started block of 64 bits) never
panics, and reads and writes it exactly as a list of booleans: that refinement
is what the vote sets use.
-/

/-- The Go runtime panic raised by a slice index past the end. -/
def indexOutOfRange : String :=
  "runtime error: index out of range"

/-- A bit array: its size in bits and its 64-bit words. -/
structure BitArray where
  bits : Nat
  elems : List Nat
  deriving DecidableEq, Repr

namespace BitArray

/-- The 64-bit word with every bit set. -/
def wordMask : Nat :=
  2 ^ 64 - 1

/-- Go's complement of a 64-bit word. -/
def wordNot (word : Nat) : Nat :=
  word ^^^ wordMask

/-- The all-ones word has exactly the bits below 64. -/
theorem testBit_wordMask
    (position : Nat) :
    wordMask.testBit position = decide (position < 64) := by
  rw [wordMask, Nat.testBit_two_pow_sub_one]

/-- NewBitArray: no array (nil) for a non-positive size. -/
def newBitArray (bits : Int) : Option BitArray :=
  if bits ≤ 0 then
    none
  else
    some ⟨bits.toNat, List.replicate ((bits.toNat + 63) / 64) 0⟩

/-- BitArray.Size, zero for nil. -/
def size : Option BitArray → Nat
  | none => 0
  | some bitArray => bitArray.bits

/-- getIndex: false past the size, a panic when the word is missing. -/
def getIndex (bitArray : BitArray) (index : Nat) : Except String Bool :=
  if bitArray.bits ≤ index then
    .ok false
  else
    match bitArray.elems[index / 64]? with
    | none => .error indexOutOfRange
    | some word => .ok (0 < word &&& 2 ^ (index % 64))

/-- The word after writing one of its bits. -/
def writeBit (word : Nat) (bit : Nat) (value : Bool) : Nat :=
  if value then
    word ||| 2 ^ bit
  else
    word &&& wordNot (2 ^ bit)

/--
setIndex: false past the size, a panic when the word is missing, and
otherwise the array with the bit written.
-/
def setIndex (bitArray : BitArray) (index : Nat) (value : Bool) :
    Except String (BitArray × Bool) :=
  if bitArray.bits ≤ index then
    .ok (bitArray, false)
  else
    match bitArray.elems[index / 64]? with
    | none => .error indexOutOfRange
    | some word =>
        .ok ({ bitArray with
          elems := bitArray.elems.set (index / 64)
            (writeBit word (index % 64) value) }, true)

/-- BitArray.SetIndex on a possibly nil array, discarding its boolean result. -/
def setIndexOpt (bitArray : Option BitArray) (index : Nat) (value : Bool) :
    Except String (Option BitArray) :=
  match bitArray with
  | none => .ok none
  | some present => (present.setIndex index value).map fun result => some result.1

/-- The proto form of a bit array: a signed bit count and the words. -/
structure Proto where
  bits : Int
  elems : List Nat
  deriving DecidableEq, Repr

/--
BitArray.FromProto applied to a fresh BitArray{}: the bit count is converted
to uint (a negative count wraps), the words are taken as they come, and an
absent proto leaves the empty array.
-/
def fromProto : Option Proto → BitArray
  | none => ⟨0, []⟩
  | some proto =>
      ⟨if proto.bits < 0 then (proto.bits + 2 ^ 64).toNat else proto.bits.toNat,
        proto.elems⟩

/-- One word for every started block of 64 bits, as NewBitArray allocates. -/
def WellFormed (bitArray : BitArray) : Prop :=
  bitArray.elems.length = (bitArray.bits + 63) / 64

instance (bitArray : BitArray) : Decidable bitArray.WellFormed :=
  inferInstanceAs (Decidable (_ = _))

/-- The bits a well-formed array stands for. -/
def toBools (bitArray : BitArray) : List Bool :=
  (List.range bitArray.bits).map fun index =>
    (bitArray.elems[index / 64]?.getD 0).testBit (index % 64)

@[simp] theorem toBools_length
    (bitArray : BitArray) :
    bitArray.toBools.length = bitArray.bits := by
  simp [toBools]

/-- The word of every bit below the size of a well-formed array exists. -/
theorem word_lt_length_of_wellFormed
    {bitArray : BitArray}
    (wellFormed : bitArray.WellFormed)
    {index : Nat}
    (inRange : index < bitArray.bits) :
    index / 64 < bitArray.elems.length := by
  unfold WellFormed at wellFormed
  omega

/-- Reading bit k of a word is testing it. -/
theorem pos_and_two_pow_iff
    (word bit : Nat) :
    0 < word &&& 2 ^ bit ↔ word.testBit bit = true := by
  constructor
  · intro positive
    cases bitValue : word.testBit bit with
    | true =>
        rfl
    | false =>
        have isZero : word &&& 2 ^ bit = 0 := by
          apply Nat.eq_of_testBit_eq
          intro position
          by_cases samePosition : position = bit
          · subst position
            simp [Nat.testBit_and, bitValue]
          · simp [Nat.testBit_and, Ne.symm samePosition]
        omega
  · intro isSet
    apply Nat.pos_of_ne_zero
    intro isZero
    have bitOfZero := congrArg (fun value => value.testBit bit) isZero
    simp [Nat.testBit_and, isSet] at bitOfZero

/-- Bit testing after a write: the written bit takes the value, others stay. -/
theorem testBit_writeBit
    (word bit position : Nat)
    (value : Bool)
    (bitSmall : bit < 64)
    (positionSmall : position < 64) :
    (writeBit word bit value).testBit position =
      if position = bit then value else word.testBit position := by
  unfold writeBit wordNot
  by_cases samePosition : position = bit
  · subst position
    cases value <;> simp [Nat.testBit_or, Nat.testBit_xor, testBit_wordMask,
      bitSmall]
  · cases value <;> simp [Nat.testBit_or, Nat.testBit_xor, testBit_wordMask,
      samePosition, Ne.symm samePosition, positionSmall]

/-- The bit a well-formed array stands for at a position below its size. -/
theorem toBools_getElem
    (bitArray : BitArray)
    {position : Nat}
    (inBools : position < bitArray.toBools.length) :
    bitArray.toBools[position] =
      (bitArray.elems[position / 64]?.getD 0).testBit (position % 64) := by
  simp [toBools]

/-- A freshly allocated array is well formed and holds no set bit. -/
theorem newBitArray_spec
    {bits : Int}
    {bitArray : BitArray}
    (allocated : newBitArray bits = some bitArray) :
    bitArray.WellFormed ∧ bitArray.bits = bits.toNat ∧
      bitArray.toBools = List.replicate bits.toNat false := by
  unfold newBitArray at allocated
  split at allocated
  · cases allocated
  · cases allocated
    refine ⟨by simp [WellFormed], rfl, ?_⟩
    apply List.ext_getElem (by simp)
    intro index inBools inReplicate
    rw [toBools_getElem _ inBools]
    simp only [List.getElem?_replicate, List.getElem_replicate]
    split <;> simp

/-- On a well-formed array, getIndex reads the bits it stands for. -/
theorem getIndex_of_wellFormed
    {bitArray : BitArray}
    (wellFormed : bitArray.WellFormed)
    (index : Nat) :
    bitArray.getIndex index = .ok (bitArray.toBools.getD index false) := by
  unfold getIndex
  by_cases beyond : bitArray.bits ≤ index
  · simp [beyond, toBools]
  · have wordExists :=
      word_lt_length_of_wellFormed wellFormed (Nat.lt_of_not_le beyond)
    obtain ⟨word, wordAt⟩ : ∃ word, bitArray.elems[index / 64]? = some word :=
      ⟨_, List.getElem?_eq_getElem wordExists⟩
    simp [beyond, wordAt, toBools, pos_and_two_pow_iff,
      Nat.lt_of_not_le beyond]

/--
On a well-formed array, setIndex below the size succeeds, keeps the array
well formed and writes the bit it stands for.
-/
theorem setIndex_of_wellFormed
    {bitArray : BitArray}
    (wellFormed : bitArray.WellFormed)
    {index : Nat}
    (inRange : index < bitArray.bits)
    (value : Bool) :
    ∃ updated,
      bitArray.setIndex index value = .ok (updated, true) ∧
        updated.WellFormed ∧ updated.bits = bitArray.bits ∧
        updated.toBools = bitArray.toBools.set index value := by
  have wordExists := word_lt_length_of_wellFormed wellFormed inRange
  obtain ⟨word, wordAt⟩ : ∃ word, bitArray.elems[index / 64]? = some word :=
    ⟨_, List.getElem?_eq_getElem wordExists⟩
  refine ⟨{ bitArray with
      elems := bitArray.elems.set (index / 64) (writeBit word (index % 64) value) },
    by simp [setIndex, Nat.not_le.mpr inRange, wordAt], ?_, rfl, ?_⟩
  · simpa [WellFormed] using wellFormed
  · apply List.ext_getElem (by simp)
    intro position inUpdated inOriginal
    rw [toBools_getElem _ inUpdated, List.getElem_set,
      toBools_getElem _ (by simpa using inOriginal)]
    simp only [List.getElem?_set]
    by_cases sameWord : index / 64 = position / 64
    · -- the written word: only the written bit of it changes
      rw [if_pos sameWord, if_pos wordExists, Option.getD_some, ← sameWord,
        wordAt, Option.getD_some, testBit_writeBit _ _ _ _ (Nat.mod_lt _ (by decide))
        (Nat.mod_lt _ (by decide))]
      by_cases samePosition : index = position
      · subst position
        simp
      · have otherBit : position % 64 ≠ index % 64 := by
          intro sameBit
          apply samePosition
          omega
        simp [otherBit, samePosition]
    · have otherPosition : index ≠ position := by
        intro same
        subst same
        exact sameWord rfl
      simp [sameWord, otherPosition]

/-- The bits a possibly nil array stands for: none for nil. -/
def bitsOf : Option BitArray → List Bool
  | none => []
  | some bitArray => bitArray.toBools

/-- A nil array, or a well-formed one. -/
def WellFormedOpt : Option BitArray → Prop
  | none => True
  | some bitArray => bitArray.WellFormed

/-- NewBitArray of a size gives a well-formed array of that many clear bits. -/
theorem newBitArray_bitsOf
    (bits : Nat) :
    WellFormedOpt (newBitArray bits) ∧
      bitsOf (newBitArray bits) = List.replicate bits false := by
  cases allocated : newBitArray bits with
  | none =>
      -- only a zero size allocates nothing
      have noBits : bits = 0 := by
        unfold newBitArray at allocated
        split at allocated
        · omega
        · cases allocated
      subst noBits
      exact ⟨trivial, rfl⟩
  | some bitArray =>
      obtain ⟨wellFormed, -, bools⟩ := newBitArray_spec allocated
      exact ⟨wellFormed, by simpa [bitsOf] using bools⟩

/--
SetIndex below the size of a nil or well-formed array succeeds, keeps it
well formed and writes the bit it stands for.
-/
theorem setIndexOpt_of_wellFormedOpt
    {bitArray : Option BitArray}
    (wellFormed : WellFormedOpt bitArray)
    {index : Nat}
    (inRange : index < (bitsOf bitArray).length)
    (value : Bool) :
    ∃ updated,
      setIndexOpt bitArray index value = .ok updated ∧
        WellFormedOpt updated ∧
        bitsOf updated = (bitsOf bitArray).set index value := by
  cases bitArray with
  | none =>
      simp [bitsOf] at inRange
  | some present =>
      obtain ⟨updated, written, updatedWellFormed, -, bools⟩ :=
        setIndex_of_wellFormed wellFormed (by simpa [bitsOf] using inRange) value
      exact ⟨some updated, by simp [setIndexOpt, written, Except.map],
        updatedWellFormed, bools⟩

/--
SetIndex on a nil or well-formed array never panics and keeps it nil or well
formed; past the size it changes nothing.
-/
theorem setIndexOpt_ok_of_wellFormedOpt
    {bitArray : Option BitArray}
    (wellFormed : WellFormedOpt bitArray)
    (index : Nat)
    (value : Bool) :
    ∃ updated, setIndexOpt bitArray index value = .ok updated ∧ WellFormedOpt updated := by
  by_cases inRange : index < (bitsOf bitArray).length
  · obtain ⟨updated, written, updatedWellFormed, -⟩ :=
      setIndexOpt_of_wellFormedOpt wellFormed inRange value
    exact ⟨updated, written, updatedWellFormed⟩
  · cases bitArray with
    | none =>
        exact ⟨none, rfl, trivial⟩
    | some present =>
        have beyond : present.bits ≤ index := by
          simpa [bitsOf] using inRange
        exact ⟨some present, by simp [setIndexOpt, setIndex, beyond, Except.map], wellFormed⟩

/-- SetIndex below the size of an array without words panics. -/
theorem setIndex_of_missing_words
    {bitArray : BitArray}
    {index : Nat}
    (inRange : index < bitArray.bits)
    (noWords : bitArray.elems = [])
    (value : Bool) :
    bitArray.setIndex index value = .error indexOutOfRange := by
  simp [setIndex, Nat.not_le.mpr inRange, noWords]

/-! ## Operations on two arrays -/

/-- copyBits: an array of a size with this array's words as far as they go, zero after. -/
def copyBits (bitArray : BitArray) (bits : Nat) : BitArray :=
  ⟨bits, (List.range ((bits + 63) / 64)).map fun index => bitArray.elems.getD index 0⟩

/-- Not: every word complemented, the bits past the size included. -/
def not (bitArray : BitArray) : BitArray :=
  { bitArray with elems := bitArray.elems.map wordNot }

/-- One turn of the loop of and: a word of the result masked with the other's word. -/
def andWord (other result : BitArray) (index : Nat) : Except String BitArray :=
  match other.elems[index]? with
  | none => .error indexOutOfRange
  | some word =>
      .ok { result with elems := result.elems.set index (result.elems.getD index 0 &&& word) }

/-- and: the smaller size, each word masked with the other array's word at its index. -/
def and (bitArray other : BitArray) : Except String BitArray :=
  let result := bitArray.copyBits (min bitArray.bits other.bits)
  (List.range result.elems.length).foldlM (andWord other) result

/-- One turn of Sub's loop over the words before the other's last: the word cleared. -/
def clearWord (result : BitArray) (index : Nat) : Except String BitArray :=
  match result.elems[index]? with
  | none => .error indexOutOfRange
  | some word => .ok { result with elems := result.elems.set index (word &&& wordNot word) }

/-- One turn of Sub's loop over the other's last word: the bit kept if the other lacks it. -/
def subBit (other result : BitArray) (index : Nat) : Except String BitArray := do
  let here ← result.getIndex index
  let there ← other.getIndex index
  let (result, _) ← result.setIndex index (here && !there)
  pure result

/--
Sub: the bits of this array that the other lacks.  For a larger array the
code clears the words before the other's last word, where it means to mask
them, and goes through the other's last word bit by bit; otherwise it is the
and with the other's complement.
-/
def sub (bitArray other : BitArray) : Except String BitArray :=
  if other.bits < bitArray.bits then
    ((List.range (other.elems.length - 1)).foldlM clearWord bitArray).bind fun cleared =>
      if other.elems.length = 0 then
        .ok cleared
      else
        let start := (other.elems.length - 1) * 64
        (List.range' start (other.bits - start)).foldlM (subBit other) cleared
  else
    bitArray.and other.not

/-- Sub on possibly nil arrays: nil when either is nil. -/
def subOpt : Option BitArray → Option BitArray → Except String (Option BitArray)
  | some bitArray, some other => (bitArray.sub other).map some
  | _, _ => .ok none

theorem not_wellFormed
    {bitArray : BitArray}
    (wellFormed : bitArray.WellFormed) :
    bitArray.not.WellFormed ∧ bitArray.not.bits = bitArray.bits := by
  unfold WellFormed at wellFormed
  exact ⟨by simpa [WellFormed, not] using wellFormed, rfl⟩

/-- and with a well-formed array never panics and gives a well-formed array of the smaller size. -/
theorem and_of_wellFormed
    {bitArray other : BitArray}
    (otherWellFormed : other.WellFormed) :
    ∃ result, bitArray.and other = .ok result ∧
      result.WellFormed ∧ result.bits = min bitArray.bits other.bits := by
  let size := min bitArray.bits other.bits
  -- each turn masks a word of the result, which the other array has as well
  have masking : ∀ result index, index ∈ List.range (bitArray.copyBits size).elems.length →
      result.WellFormed ∧ result.bits = size →
      ∃ next, andWord other result index = .ok next ∧ next.WellFormed ∧ next.bits = size := by
    rintro result index member ⟨resultWellFormed, resultBits⟩
    have inRange : index < (size + 63) / 64 := by
      simpa [copyBits] using member
    have inOther : index < other.elems.length := by
      unfold WellFormed at otherWellFormed
      omega
    obtain ⟨word, wordAt⟩ : ∃ word, other.elems[index]? = some word :=
      ⟨_, List.getElem?_eq_getElem inOther⟩
    refine ⟨{ result with elems := result.elems.set index (result.elems.getD index 0 &&& word) },
      by simp [andWord, wordAt], ?_, resultBits⟩
    simpa [WellFormed] using resultWellFormed
  have fresh : (bitArray.copyBits size).WellFormed ∧ (bitArray.copyBits size).bits = size :=
    ⟨by simp [WellFormed, copyBits], rfl⟩
  obtain ⟨result, finished, resultWellFormed, resultBits⟩ :=
    Runs.run_eq_ok_of_step (fun result : BitArray => result.WellFormed ∧ result.bits = size)
      masking fresh
  exact ⟨result, finished, resultWellFormed, resultBits⟩

/-- Sub of two well-formed arrays never panics and gives a well-formed array. -/
theorem sub_of_wellFormed
    {bitArray other : BitArray}
    (wellFormed : bitArray.WellFormed)
    (otherWellFormed : other.WellFormed) :
    ∃ result, bitArray.sub other = .ok result ∧ result.WellFormed := by
  unfold sub
  by_cases larger : other.bits < bitArray.bits
  · rw [if_pos larger]
    -- the words before the other's last lie within this larger array
    have clearing : ∀ result index, index ∈ List.range (other.elems.length - 1) →
        result.WellFormed ∧ result.bits = bitArray.bits →
        ∃ next, clearWord result index = .ok next ∧
          next.WellFormed ∧ next.bits = bitArray.bits := by
      rintro result index member ⟨resultWellFormed, resultBits⟩
      have inResult : index < result.elems.length := by
        rw [List.mem_range] at member
        unfold WellFormed at resultWellFormed otherWellFormed
        omega
      obtain ⟨word, wordAt⟩ : ∃ word, result.elems[index]? = some word :=
        ⟨_, List.getElem?_eq_getElem inResult⟩
      refine ⟨{ result with elems := result.elems.set index (word &&& wordNot word) },
        by simp [clearWord, wordAt], ?_, resultBits⟩
      simpa [WellFormed] using resultWellFormed
    obtain ⟨cleared, clearedOk, clearedWellFormed, clearedBits⟩ :=
      Runs.run_eq_ok_of_step (fun result : BitArray => result.WellFormed ∧ result.bits = bitArray.bits)
        clearing ⟨wellFormed, rfl⟩
    have clearedRun :
        (List.range (other.elems.length - 1)).foldlM clearWord bitArray = .ok cleared :=
      clearedOk
    rw [clearedRun]
    dsimp only [Except.bind]
    split_ifs with noWords
    · exact ⟨cleared, rfl, clearedWellFormed⟩
    -- every bit of the other's last word is below both sizes
    have keeping : ∀ result index,
        index ∈ List.range' ((other.elems.length - 1) * 64)
          (other.bits - (other.elems.length - 1) * 64) →
        result.WellFormed ∧ result.bits = bitArray.bits →
        ∃ next, subBit other result index = .ok next ∧
          next.WellFormed ∧ next.bits = bitArray.bits := by
      rintro result index member ⟨resultWellFormed, resultBits⟩
      have inOther : index < other.bits := by
        rw [List.mem_range'_1] at member
        omega
      obtain ⟨updated, written, updatedWellFormed, updatedBits, -⟩ :=
        @setIndex_of_wellFormed result resultWellFormed index (by omega)
          ((result.toBools.getD index false) && !(other.toBools.getD index false))
      refine ⟨updated, ?_, updatedWellFormed, updatedBits.trans resultBits⟩
      rw [subBit, getIndex_of_wellFormed resultWellFormed, getIndex_of_wellFormed otherWellFormed]
      simp only [bind, Except.bind]
      rw [written]
      rfl
    obtain ⟨result, finished, resultWellFormed, -⟩ :=
      Runs.run_eq_ok_of_step (fun result : BitArray => result.WellFormed ∧ result.bits = bitArray.bits)
        keeping ⟨clearedWellFormed, clearedBits⟩
    exact ⟨result, finished, resultWellFormed⟩
  · rw [if_neg larger]
    obtain ⟨result, masked, resultWellFormed, -⟩ :=
      @and_of_wellFormed bitArray other.not (not_wellFormed otherWellFormed).1
    exact ⟨result, masked, resultWellFormed⟩

/--
Sub of an array that is not larger than the other panics when the other has
no words: and reads the other's complement at the first word of the result.
-/
theorem sub_of_missing_words
    {bitArray other : BitArray}
    (notLarger : bitArray.bits ≤ other.bits)
    (positive : 0 < bitArray.bits)
    (noWords : other.elems = []) :
    bitArray.sub other = .error indexOutOfRange := by
  unfold sub and
  rw [if_neg (Nat.not_lt.mpr notLarger)]
  have resultWords :
      (bitArray.copyBits (min bitArray.bits other.not.bits)).elems.length =
        ((bitArray.bits + 63) / 64 - 1) + 1 := by
    simp only [copyBits, not, List.length_map, List.length_range]
    rw [Nat.min_eq_left notLarger]
    omega
  dsimp only
  rw [resultWords, List.range_succ_eq_map, List.foldlM_cons]
  simp only [andWord, not, noWords, List.map_nil, List.getElem?_nil]
  rfl

end BitArray

end Kardia
