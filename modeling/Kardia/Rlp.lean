import Mathlib
import Kardia.Branching

/-!
# RLP encoding

The parts of package rlp that the trie's node encoder and DeriveSha use: the
encoder buffer's WriteBytes, Write and List with ListEnd, written out as the
bytes they leave in the output, and AppendUint64.  A byte string is a list of
bytes and a number a Nat; the sizes the encoder writes are the lengths of
what it holds, and DeriveSha's indices are below 2^64.

AppendUint64 writes 1 to 127 as one byte, 0 as the empty string 0x80, and
larger numbers as 0x80 plus their byte count, then their bytes most
significant first.  So in DeriveSha's order (1 to 127, then 0, then 128 and
up) the keys come in branching order (appendUint64_before and the two lemmas
after it): each is lexicographically larger than the last, and none is a
prefix of another.
-/

namespace Kardia.Rlp

/-- rlp.EmptyString: the encoding of the empty string. -/
def emptyString : List UInt8 :=
  [0x80]

/-- intsize, and the switch of putint and AppendUint64: the bytes i takes, one at least. -/
def intsize (i : Nat) : Nat :=
  if i < 2 ^ 8 then 1 else if i < 2 ^ 16 then 2 else if i < 2 ^ 24 then 3 else if i < 2 ^ 32 then 4
  else if i < 2 ^ 40 then 5 else if i < 2 ^ 48 then 6 else if i < 2 ^ 56 then 7 else 8

/-- The low size bytes of i, most significant first. -/
def bigEndian : Nat → Nat → List UInt8
  | 0, _ => []
  | size + 1, i => bigEndian size (i / 256) ++ [i.toUInt8]

/-- putint: i in intsize i bytes, most significant first. -/
def putint (i : Nat) : List UInt8 :=
  bigEndian (intsize i) i

/-- puthead: the header of a string or list of size bytes, with the size in the tag up to 55 bytes. -/
def puthead (smalltag largetag : UInt8) (size : Nat) : List UInt8 :=
  if size < 56 then [smalltag + size.toUInt8]
  else (largetag + (intsize size).toUInt8) :: putint size

/-- EncoderBuffer.WriteBytes: a byte up to 0x7F as itself, any other string after its header. -/
def writeBytes (b : List UInt8) : List UInt8 :=
  match b with
  | [x] => if x ≤ 0x7F then [x] else puthead 0x80 0xB7 1 ++ b
  | _ => puthead 0x80 0xB7 b.length ++ b

/-- EncoderBuffer.List and ListEnd around a payload: the list header, then the payload. -/
def wrapList (payload : List UInt8) : List UInt8 :=
  puthead 0xC0 0xF7 payload.length ++ payload

/-- rlp.AppendUint64 to b. -/
def appendUint64 (b : List UInt8) (i : Nat) : List UInt8 :=
  if i = 0 then b ++ [0x80]
  else if i < 128 then b ++ [i.toUInt8]
  else b ++ (0x80 + (intsize i).toUInt8) :: putint i

/-! ## The order of AppendUint64's keys -/

section Order

@[simp] theorem bigEndian_length (size i : Nat) : (bigEndian size i).length = size := by
  induction size generalizing i with
  | zero => rfl
  | succ size inductionHypothesis => simp [bigEndian, inductionHypothesis]

/-- Bytes of numbers below 256 are ordered as the numbers. -/
theorem toUInt8_lt {i j : Nat} (lt : i < j) (below : j < 256) : i.toUInt8 < j.toUInt8 := by
  rw [UInt8.lt_iff_toNat_lt]
  simp only [Nat.toUInt8_eq, UInt8.toNat_ofNat', Nat.reducePow]
  omega

/--
Numbers of one byte count are written in branching order: the quotients by
256 are ordered, or they are equal and the last bytes are.
-/
theorem bigEndian_before : ∀ (size : Nat) {i j : Nat}, i < j → j < 256 ^ size →
    Before (bigEndian size i) (bigEndian size j)
  | 0, _, _, lt, below => by omega
  | size + 1, i, j, lt, below => by
      have quotients : i / 256 ≤ j / 256 := Nat.div_le_div_right lt.le
      rcases quotients.lt_or_eq with quotientLt | same
      · have quotientBelow : j / 256 < 256 ^ size := by
          rw [Nat.div_lt_iff_lt_mul (by norm_num), ← pow_succ]
          exact below
        exact (bigEndian_before size quotientLt quotientBelow).append_right _ _
      · have lastLt : i % 256 < j % 256 := by omega
        have lastBytes : Before [i.toUInt8] [j.toUInt8] := by
          apply Before.of_head_lt
          rw [UInt8.lt_iff_toNat_lt]
          simpa only [Nat.toUInt8_eq, UInt8.toNat_ofNat', Nat.reducePow] using lastLt
        simp only [bigEndian, same]
        exact lastBytes.append_left _

theorem intsize_pos (i : Nat) : 1 ≤ intsize i := by
  unfold intsize
  split_ifs <;> omega

theorem intsize_le (i : Nat) : intsize i ≤ 8 := by
  unfold intsize
  split_ifs <;> omega

theorem intsize_mono {i j : Nat} (le : i ≤ j) : intsize i ≤ intsize j := by
  unfold intsize
  simp only [Nat.reducePow]
  split_ifs <;> omega

/-- A number below 2^64 fits in its intsize bytes. -/
theorem lt_pow_intsize {i : Nat} (below : i < 2 ^ 64) : i < 256 ^ intsize i := by
  unfold intsize
  simp only [Nat.reducePow] at *
  split_ifs <;> norm_num <;> omega

/-- A key of a number from 128 up: its byte count after 0x80, then its bytes. -/
theorem appendUint64_of_le {i : Nat} (large : 128 ≤ i) :
    appendUint64 [] i = (0x80 + (intsize i).toUInt8) :: putint i := by
  simp [appendUint64, show i ≠ 0 by omega, show ¬ i < 128 by omega]

/-- The header byte of a key from 128 up: 0x80 plus a byte count from 1 to 8. -/
theorem header_toNat (i : Nat) : (0x80 + (intsize i).toUInt8 : UInt8).toNat = 128 + intsize i := by
  have := intsize_le i
  simp only [UInt8.toNat_add, Nat.toUInt8_eq, UInt8.toNat_ofNat', UInt8.reduceToNat, Nat.reducePow]
  omega

/-- Keys of positive numbers below 2^64 are in branching order. -/
theorem appendUint64_before {i j : Nat} (positive : 0 < i) (lt : i < j) (below : j < 2 ^ 64) :
    Before (appendUint64 [] i) (appendUint64 [] j) := by
  by_cases small : j < 128
  · -- both keys are single bytes
    simp only [appendUint64, show i ≠ 0 by omega, show j ≠ 0 by omega, show i < 128 by omega, small,
      if_false, if_true, List.nil_append]
    exact Before.of_head_lt (toUInt8_lt lt (by omega)) [] []
  · rw [appendUint64_of_le (show 128 ≤ j by omega)]
    by_cases smallI : i < 128
    · -- a single byte below 0x80 against a header from 0x81 up
      simp only [appendUint64, show i ≠ 0 by omega, smallI, if_false, if_true, List.nil_append]
      apply Before.of_head_lt
      rw [UInt8.lt_iff_toNat_lt, header_toNat]
      simp only [Nat.toUInt8_eq, UInt8.toNat_ofNat', Nat.reducePow]
      omega
    · rw [appendUint64_of_le (by omega), Before.cons_cons_iff, UInt8.lt_iff_toNat_lt, header_toNat,
        header_toNat]
      rcases (intsize_mono lt.le).lt_or_eq with fewer | same
      · exact .inl (by omega)
      · -- one byte count: the headers agree and the numbers' bytes are ordered
        right
        refine ⟨by rw [same], ?_⟩
        unfold putint
        rw [same]
        exact bigEndian_before _ lt (lt_pow_intsize below)

/-- The key of a number from 1 to 127 comes before the key of 0. -/
theorem appendUint64_before_zero {i : Nat} (positive : 0 < i) (small : i < 128) :
    Before (appendUint64 [] i) (appendUint64 [] 0) := by
  simp only [appendUint64, show i ≠ 0 by omega, small, if_false, if_true, List.nil_append]
  apply Before.of_head_lt
  rw [UInt8.lt_iff_toNat_lt]
  simp only [Nat.toUInt8_eq, UInt8.toNat_ofNat', UInt8.reduceToNat, Nat.reducePow]
  omega

/-- The key of 0 comes before the key of any number from 128 up. -/
theorem appendUint64_zero_before {j : Nat} (large : 128 ≤ j) :
    Before (appendUint64 [] 0) (appendUint64 [] j) := by
  rw [appendUint64_of_le large]
  simp only [appendUint64, if_true, List.nil_append]
  apply Before.of_head_lt
  rw [UInt8.lt_iff_toNat_lt, header_toNat]
  have := intsize_pos j
  simp only [UInt8.reduceToNat]
  omega

end Order

end Kardia.Rlp
