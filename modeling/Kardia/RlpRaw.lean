import Mathlib
import Kardia.Rlp
import Kardia.Runs

/-!
# Splitting RLP values

The functions of raw.go that read RLP without reflection: readKind reads the
header of the first value of a byte string, Split, SplitString and SplitList
cut that value off, SplitUint64 reads an integer, and CountValues counts the
values of a list's content.  readKind accepts only the canonical header of a
value: no byte below 0x80 as a string of one byte, no long form for a size
below 56, and no size with a leading zero byte.

What the encoder writes, Split reads back in front of any rest
(split_writeBytes, split_wrapList, splitUint64_appendUint64), and what Split
accepts is what the encoder writes for the content it returns (split_sound):
Split accepts exactly the encodings of values followed by any rest
(split_eq_ok_iff), so a value has one encoding, and Split inverts it.

Go's functions also return a kind, content or rest alongside an error; every
caller looks at the error first, so an error here carries nothing else.
-/

namespace Kardia.Rlp

/-- Kind: a single byte below 0x80, a string, or a list. -/
inductive Kind where
  | byte
  | string
  | list
  deriving DecidableEq, Repr

/-- The errors of package rlp that raw.go returns. -/
inductive Error where
  /-- io.ErrUnexpectedEOF -/
  | unexpectedEOF
  /-- ErrExpectedString: "rlp: expected String or Byte" -/
  | expectedString
  /-- ErrExpectedList: "rlp: expected List" -/
  | expectedList
  /-- ErrCanonInt: "rlp: non-canonical integer format" -/
  | canonInt
  /-- ErrCanonSize: "rlp: non-canonical size information" -/
  | canonSize
  /-- ErrValueTooLarge: "rlp: value size exceeds available input length" -/
  | valueTooLarge
  /-- errUintOverflow: "rlp: uint overflow" -/
  | uintOverflow
  deriving DecidableEq, Repr

/-- The number some bytes spell, most significant first. -/
def readBigEndian (b : List UInt8) : Nat :=
  b.foldl (fun s x => s * 256 + x.toNat) 0

/--
readSize: the size in the first slen bytes of b.  Go's switch reads 1 to 8
bytes and leaves 0 for any other slen; sizes below 56 and sizes with a
leading zero byte are not canonical.
-/
def readSize (b : List UInt8) (slen : Nat) : Except Error Nat :=
  if slen > b.length then .error .unexpectedEOF
  else
    let s := if slen ≤ 8 then readBigEndian (b.take slen) else 0
    if s < 56 ∨ b.head? = some 0 then .error .canonSize else .ok s

/--
readKind: the kind, the size of the header and the size of the content of
the first value of buf.  The header never runs past buf once its size is
read, so Go's unsigned len(buf) - tagsize does not wrap.
-/
def readKind : List UInt8 → Except Error (Kind × Nat × Nat)
  | [] => .error .unexpectedEOF
  | b :: rest => do
      let (k, tagsize, contentsize) ←
        if b < 0x80 then pure (Kind.byte, 0, 1)
        else if b < 0xB8 then
          -- a string of one byte below 0x80 should have been that byte
          if b.toNat - 0x80 = 1 ∧ rest.head?.any (· < 128) then .error .canonSize
          else pure (.string, 1, b.toNat - 0x80)
        else if b < 0xC0 then
          (readSize rest (b.toNat - 0xB7)).map fun contentsize => (.string, b.toNat - 0xB7 + 1, contentsize)
        else if b < 0xF8 then pure (.list, 1, b.toNat - 0xC0)
        else (readSize rest (b.toNat - 0xF7)).map fun contentsize => (.list, b.toNat - 0xF7 + 1, contentsize)
      if contentsize > (b :: rest).length - tagsize then .error .valueTooLarge
      else pure (k, tagsize, contentsize)

/-- Split: the kind and content of the first value of b, and the bytes after it. -/
def split (b : List UInt8) : Except Error (Kind × List UInt8 × List UInt8) := do
  let (k, ts, cs) ← readKind b
  pure (k, (b.drop ts).take cs, b.drop (ts + cs))

/-- SplitString: the content of a first value that is a string or a byte, and the bytes after it. -/
def splitString (b : List UInt8) : Except Error (List UInt8 × List UInt8) := do
  let (k, content, rest) ← split b
  if k = .list then .error .expectedString else pure (content, rest)

/-- SplitList: the content of a first value that is a list, and the bytes after it. -/
def splitList (b : List UInt8) : Except Error (List UInt8 × List UInt8) := do
  let (k, content, rest) ← split b
  if k ≠ .list then .error .expectedList else pure (content, rest)

/--
SplitUint64: the integer at the start of b, and the bytes after it.  Zero is
the empty string; a zero byte, or a leading zero byte, is not canonical.
-/
def splitUint64 (b : List UInt8) : Except Error (Nat × List UInt8) := do
  let (content, rest) ← splitString b
  match content with
  | [] => pure (0, rest)
  | [x] => if x = 0 then .error .canonInt else pure (x.toNat, rest)
  | _ =>
      if content.length > 8 then .error .uintOverflow
      else
        match readSize content content.length with
        | .ok x => pure (x, rest)
        | .error _ => .error .canonInt

/-! ## What readKind accepts -/

section Accepted

variable {k : Kind} {ts cs : Nat}

/-- What readKind can accept: the five kinds of header, each with its canonical form, within the input. -/
theorem readKind_cons_cases {x : UInt8} {rest : List UInt8} (read : readKind (x :: rest) = .ok (k, ts, cs)) :
    cs ≤ rest.length + 1 - ts ∧
      (x.toNat < 0x80 ∧ k = .byte ∧ ts = 0 ∧ cs = 1 ∨
        0x80 ≤ x.toNat ∧ x.toNat < 0xB8 ∧ k = .string ∧ ts = 1 ∧ cs = x.toNat - 0x80 ∧
          ¬(cs = 1 ∧ rest.head?.any (· < 128)) ∨
        0xB8 ≤ x.toNat ∧ x.toNat < 0xC0 ∧ k = .string ∧ ts = x.toNat - 0xB7 + 1 ∧
          readSize rest (x.toNat - 0xB7) = .ok cs ∨
        0xC0 ≤ x.toNat ∧ x.toNat < 0xF8 ∧ k = .list ∧ ts = 1 ∧ cs = x.toNat - 0xC0 ∨
        0xF8 ≤ x.toNat ∧ k = .list ∧ ts = x.toNat - 0xF7 + 1 ∧ readSize rest (x.toNat - 0xF7) = .ok cs) := by
  simp only [readKind, bind, Except.bind, pure, Except.pure, UInt8.lt_iff_toNat_lt, UInt8.reduceToNat,
    List.length_cons] at read
  by_cases byte : x.toNat < 0x80
  · simp only [byte, if_true] at read
    split_ifs at read with tooLarge
    cases read
    exact ⟨by omega, .inl ⟨byte, rfl, rfl, rfl⟩⟩
  by_cases short : x.toNat < 0xB8
  · simp only [byte, short, if_true, if_false] at read
    split_ifs at read with canon tooLarge
    cases read
    exact ⟨by omega, .inr (.inl ⟨by omega, short, rfl, rfl, rfl, canon⟩)⟩
  by_cases long : x.toNat < 0xC0
  · simp only [byte, short, long, if_true, if_false] at read
    split at read
    · cases read
    · rename_i header
      obtain ⟨contentsize, sizeRead, made⟩ := Runs.map_eq_ok header
      cases made
      dsimp only at read
      split_ifs at read with tooLarge
      cases read
      exact ⟨by omega, .inr (.inr (.inl ⟨by omega, long, rfl, rfl, sizeRead⟩))⟩
  by_cases listShort : x.toNat < 0xF8
  · simp only [byte, short, long, listShort, if_true, if_false] at read
    split_ifs at read with tooLarge
    cases read
    exact ⟨by omega, .inr (.inr (.inr (.inl ⟨by omega, listShort, rfl, rfl, rfl⟩)))⟩
  · simp only [byte, short, long, listShort, if_false] at read
    split at read
    · cases read
    · rename_i header
      obtain ⟨contentsize, sizeRead, made⟩ := Runs.map_eq_ok header
      cases made
      dsimp only at read
      split_ifs at read with tooLarge
      cases read
      exact ⟨by omega, .inr (.inr (.inr (.inr ⟨by omega, rfl, rfl, sizeRead⟩)))⟩

theorem readSize_le {rest : List UInt8} {slen s : Nat} (read : readSize rest slen = .ok s) :
    slen ≤ rest.length := by
  unfold readSize at read
  split_ifs at read with tooShort <;> omega

/-- An accepted header and its content lie within the input, and take at least one byte. -/
theorem readKind_bounds {b : List UInt8} (read : readKind b = .ok (k, ts, cs)) :
    0 < ts + cs ∧ ts + cs ≤ b.length := by
  cases b with
  | nil => cases read
  | cons x rest =>
      obtain ⟨within, byte | short | long | listShort | listLong⟩ := readKind_cons_cases read
      · obtain ⟨-, -, rfl, rfl⟩ := byte
        simp
      · obtain ⟨-, -, -, rfl, -⟩ := short
        simp only [List.length_cons]
        omega
      · obtain ⟨-, -, -, rfl, sized⟩ := long
        have := readSize_le sized
        simp only [List.length_cons]
        omega
      · obtain ⟨-, -, -, rfl, -⟩ := listShort
        simp only [List.length_cons]
        omega
      · obtain ⟨-, -, rfl, sized⟩ := listLong
        have := readSize_le sized
        simp only [List.length_cons]
        omega

/-- A list's header takes at least one byte. -/
theorem readKind_list_tag {b : List UInt8} (read : readKind b = .ok (.list, ts, cs)) : 1 ≤ ts := by
  cases b with
  | nil => cases read
  | cons x rest =>
      obtain ⟨-, byte | short | long | listShort | listLong⟩ := readKind_cons_cases read
      · cases byte.2.1
      · cases short.2.2.1
      · cases long.2.2.1
      · omega
      · omega

/-- What follows the first value is shorter than the input. -/
theorem split_rest_lt {b content rest : List UInt8} (accepted : split b = .ok (k, content, rest)) :
    rest.length < b.length := by
  obtain ⟨⟨k', ts, cs⟩, read, made⟩ := Runs.bind_eq_ok accepted
  simp only [pure, Except.pure, Except.ok.injEq, Prod.mk.injEq] at made
  obtain ⟨-, -, rfl⟩ := made
  have := readKind_bounds read
  simp only [List.length_drop]
  omega

theorem splitString_rest_lt {b content rest : List UInt8} (accepted : splitString b = .ok (content, rest)) :
    rest.length < b.length := by
  obtain ⟨⟨k, content', rest'⟩, splitted, made⟩ := Runs.bind_eq_ok accepted
  dsimp only at made
  split_ifs at made
  cases made
  exact split_rest_lt splitted

/-- The content of a list is shorter than its encoding. -/
theorem splitList_content_lt {b content rest : List UInt8} (accepted : splitList b = .ok (content, rest)) :
    content.length < b.length := by
  obtain ⟨⟨k, content', rest'⟩, splitted, made⟩ := Runs.bind_eq_ok accepted
  dsimp only at made
  split_ifs at made with notList
  cases made
  obtain rfl : k = .list := not_not.mp notList
  obtain ⟨⟨k', ts, cs⟩, read, made⟩ := Runs.bind_eq_ok splitted
  simp only [pure, Except.pure, Except.ok.injEq, Prod.mk.injEq] at made
  obtain ⟨rfl, rfl, -⟩ := made
  have := readKind_bounds read
  have := readKind_list_tag read
  simp only [List.length_take, List.length_drop]
  omega

end Accepted

/--
CountValues: the number of values in b, one after another.  Each value takes
at least a byte, so the loop ends.
-/
def countValues : List UInt8 → Except Error Nat
  | [] => pure 0
  | b :: rest =>
      match read : readKind (b :: rest) with
      | .error e => .error e
      | .ok (_, tagsize, size) => (countValues ((b :: rest).drop (tagsize + size))).map (· + 1)
termination_by b => b.length
decreasing_by
  have consumed := (readKind_bounds read).1
  simp only [List.length_drop, List.length_cons]
  omega

/-! ## Sizes: readSize inverts putint -/

section Sizes

theorem foldl_readBigEndian (acc : Nat) (xs : List UInt8) :
    xs.foldl (fun s x => s * 256 + x.toNat) acc = acc * 256 ^ xs.length + readBigEndian xs := by
  induction xs generalizing acc with
  | nil => simp [readBigEndian]
  | cons x xs inductionHypothesis =>
      have unfolded : readBigEndian (x :: xs) = (0 * 256 + x.toNat) * 256 ^ xs.length + readBigEndian xs :=
        inductionHypothesis (0 * 256 + x.toNat)
      rw [List.foldl_cons, inductionHypothesis, unfolded, List.length_cons, pow_succ]
      ring

theorem readBigEndian_cons (x : UInt8) (xs : List UInt8) :
    readBigEndian (x :: xs) = x.toNat * 256 ^ xs.length + readBigEndian xs := by
  rw [readBigEndian, List.foldl_cons, foldl_readBigEndian]
  simp

theorem readBigEndian_append_singleton (xs : List UInt8) (x : UInt8) :
    readBigEndian (xs ++ [x]) = readBigEndian xs * 256 + x.toNat := by
  simp [readBigEndian, List.foldl_append]

theorem readBigEndian_lt (xs : List UInt8) : readBigEndian xs < 256 ^ xs.length := by
  induction xs with
  | nil => simp [readBigEndian]
  | cons x xs inductionHypothesis =>
      have byte := x.toNat_lt
      rw [readBigEndian_cons, List.length_cons, pow_succ']
      calc x.toNat * 256 ^ xs.length + readBigEndian xs
          < x.toNat * 256 ^ xs.length + 256 ^ xs.length := by omega
        _ = (x.toNat + 1) * 256 ^ xs.length := by ring
        _ ≤ 256 * 256 ^ xs.length := Nat.mul_le_mul_right _ (by omega)

/-- Reading back what bigEndian writes gives the number modulo the bytes it has room for. -/
theorem readBigEndian_bigEndian (size i : Nat) : readBigEndian (bigEndian size i) = i % 256 ^ size := by
  induction size generalizing i with
  | zero => simp [bigEndian, readBigEndian, Nat.mod_one]
  | succ size inductionHypothesis =>
      rw [bigEndian, readBigEndian_append_singleton, inductionHypothesis, pow_succ', Nat.mod_mul]
      simp only [Nat.toUInt8_eq, UInt8.toNat_ofNat', Nat.reducePow]
      ring

/-- Writing back what readBigEndian reads gives the same bytes. -/
theorem bigEndian_readBigEndian (xs : List UInt8) : bigEndian xs.length (readBigEndian xs) = xs := by
  induction xs using List.reverseRecOn with
  | nil => rfl
  | append_singleton xs x inductionHypothesis =>
      have byte := x.toNat_lt
      rw [List.length_append, List.length_singleton, bigEndian, readBigEndian_append_singleton]
      have quotient : (readBigEndian xs * 256 + x.toNat) / 256 = readBigEndian xs := by omega
      have low : (readBigEndian xs * 256 + x.toNat).toUInt8 = x := by
        apply UInt8.toNat_inj.mp
        simp only [Nat.toUInt8_eq, UInt8.toNat_ofNat', Nat.reducePow]
        omega
      rw [quotient, low, inductionHypothesis]

/-- A number from 1 up takes no more bytes than it needs. -/
theorem pow_intsize_le {i : Nat} (positive : 0 < i) : 256 ^ (intsize i - 1) ≤ i := by
  unfold intsize
  split_ifs <;> norm_num <;> omega

/-- The byte count of a number between 256^(n-1) and 256^n is n. -/
theorem intsize_eq_of_bounds {i n : Nat} (atLeastOne : 1 ≤ n) (atMostEight : n ≤ 8)
    (lower : 256 ^ (n - 1) ≤ i) (upper : i < 256 ^ n) : intsize i = n := by
  interval_cases n <;> (unfold intsize; norm_num at lower upper ⊢; split_ifs <;> omega)

@[simp] theorem putint_length (i : Nat) : (putint i).length = intsize i :=
  bigEndian_length _ _

theorem putint_ne_nil (i : Nat) : putint i ≠ [] := by
  have := intsize_pos i
  rw [putint, ← List.length_pos_iff, bigEndian_length]
  omega

/-- putint writes no leading zero byte. -/
theorem head_putint_ne_zero {i : Nat} (positive : 0 < i) (below : i < 2 ^ 64) : (putint i).head? ≠ some 0 := by
  obtain ⟨x, xs, written⟩ := List.exists_cons_of_ne_nil (putint_ne_nil i)
  have value : readBigEndian (putint i) = i := by
    rw [putint, readBigEndian_bigEndian, Nat.mod_eq_of_lt (lt_pow_intsize below)]
  have length : xs.length = intsize i - 1 := by
    have counted := bigEndian_length (intsize i) i
    rw [← putint, written, List.length_cons] at counted
    omega
  simp only [written, List.head?_cons, ne_eq, Option.some.injEq]
  intro zero
  rw [written, readBigEndian_cons, zero, length] at value
  have := readBigEndian_lt xs
  have := pow_intsize_le positive
  rw [length] at *
  simp only [UInt8.toNat_zero, zero_mul, zero_add] at value
  omega

/-- readSize reads a size from 56 up that putint wrote, in front of any rest. -/
theorem readSize_putint {s : Nat} (large : 56 ≤ s) (below : s < 2 ^ 64) (rest : List UInt8) :
    readSize (putint s ++ rest) (intsize s) = .ok s := by
  have length : (putint s).length = intsize s := bigEndian_length _ _
  have value : readBigEndian (putint s) = s := by
    rw [putint, readBigEndian_bigEndian, Nat.mod_eq_of_lt (lt_pow_intsize below)]
  have leading : (putint s ++ rest).head? ≠ some 0 := by
    obtain ⟨x, xs, written⟩ := List.exists_cons_of_ne_nil (putint_ne_nil s)
    have := head_putint_ne_zero (show 0 < s by omega) below
    rw [written] at this ⊢
    exact this
  have fits : ¬ intsize s > intsize s + rest.length := by omega
  have canonical : ¬ (s < 56 ∨ (putint s ++ rest).head? = some 0) := not_or.mpr ⟨by omega, leading⟩
  simp only [readSize, List.length_append, length, intsize_le, if_true, List.take_left' length, value,
    if_neg fits, if_neg canonical]

/-- What readSize accepts is a size from 56 to 2^64 that putint writes, in as many bytes as it reads. -/
theorem readSize_sound {rest : List UInt8} {slen s : Nat} (read : readSize rest slen = .ok s) :
    rest.take slen = putint s ∧ intsize s = slen ∧ 56 ≤ s ∧ s < 2 ^ 64 := by
  unfold readSize at read
  dsimp only at read
  have fits : slen ≤ rest.length := by
    by_contra tooShort
    rw [if_pos (by omega)] at read
    cases read
  rw [if_neg (by omega)] at read
  have eight : slen ≤ 8 := by
    by_contra more
    simp [more] at read
  rw [if_pos eight] at read
  split_ifs at read with bad
  cases read
  simp only [not_or] at bad
  obtain ⟨large, leading⟩ := bad
  have taken : (rest.take slen).length = slen := by simp; omega
  have upper := readBigEndian_lt (rest.take slen)
  rw [taken] at upper
  have below : readBigEndian (rest.take slen) < 2 ^ 64 :=
    lt_of_lt_of_le upper (by rw [show 2 ^ 64 = 256 ^ 8 by norm_num]; exact Nat.pow_le_pow_right (by norm_num) eight)
  obtain ⟨x, xs, front⟩ := List.exists_cons_of_ne_nil (show rest.take slen ≠ [] by
    intro none
    rw [none] at large
    simp [readBigEndian] at large)
  have notZero : x ≠ 0 := by
    intro zero
    apply leading
    rw [← List.take_append_drop slen rest, front, zero]
    rfl
  have lower : 256 ^ (slen - 1) ≤ readBigEndian (rest.take slen) := by
    have positive : 0 < x.toNat := by
      rcases Nat.eq_zero_or_pos x.toNat with zero | positive
      · exact absurd (UInt8.toNat_inj.mp (by simpa using zero)) notZero
      · exact positive
    have xsLength : xs.length = slen - 1 := by rw [front] at taken; simp at taken; omega
    rw [front, readBigEndian_cons, xsLength]
    have := Nat.le_mul_of_pos_left (256 ^ (slen - 1)) positive
    omega
  have count : intsize (readBigEndian (rest.take slen)) = slen :=
    intsize_eq_of_bounds (by rw [front] at taken; simp at taken; omega) eight lower upper
  refine ⟨?_, count, by omega, below⟩
  have written := bigEndian_readBigEndian (rest.take slen)
  rw [taken] at written
  rw [putint, count, written]

end Sizes

/-! ## Split reads what the encoder writes -/

section Written

variable {k : Kind} {ts cs : Nat}

/-- The converse of readKind_cons_cases: each canonical header within the input is accepted. -/
theorem readKind_cons_of_cases {x : UInt8} {rest : List UInt8} (within : cs ≤ rest.length + 1 - ts)
    (header : x.toNat < 0x80 ∧ k = .byte ∧ ts = 0 ∧ cs = 1 ∨
        0x80 ≤ x.toNat ∧ x.toNat < 0xB8 ∧ k = .string ∧ ts = 1 ∧ cs = x.toNat - 0x80 ∧
          ¬(cs = 1 ∧ rest.head?.any (· < 128)) ∨
        0xB8 ≤ x.toNat ∧ x.toNat < 0xC0 ∧ k = .string ∧ ts = x.toNat - 0xB7 + 1 ∧
          readSize rest (x.toNat - 0xB7) = .ok cs ∨
        0xC0 ≤ x.toNat ∧ x.toNat < 0xF8 ∧ k = .list ∧ ts = 1 ∧ cs = x.toNat - 0xC0 ∨
        0xF8 ≤ x.toNat ∧ k = .list ∧ ts = x.toNat - 0xF7 + 1 ∧ readSize rest (x.toNat - 0xF7) = .ok cs) :
    readKind (x :: rest) = .ok (k, ts, cs) := by
  have fits : ¬ cs > rest.length + 1 - ts := by omega
  rcases header with ⟨byte, kind, tag, content⟩ | ⟨notByte, short, kind, tag, content, canon⟩ |
    ⟨notShort, long, kind, tag, sized⟩ | ⟨notLong, listShort, kind, tag, content⟩ | ⟨notListShort, kind, tag, sized⟩
  all_goals
    subst kind tag
    simp only [readKind, bind, Except.bind, pure, Except.pure, UInt8.lt_iff_toNat_lt, UInt8.reduceToNat,
      List.length_cons]
  · subst content
    simp only [byte, if_true]
    rw [if_neg fits]
  · rw [content] at fits canon ⊢
    simp only [UInt8.lt_iff_toNat_lt, UInt8.reduceToNat] at canon
    simp only [show ¬ x.toNat < 128 by omega, short, if_true, if_false]
    rw [if_neg canon, if_neg fits]
  · simp only [show ¬ x.toNat < 128 by omega, show ¬ x.toNat < 184 by omega, long, if_true, if_false]
    rw [sized]
    exact if_neg fits
  · rw [content] at fits ⊢
    simp only [show ¬ x.toNat < 128 by omega, show ¬ x.toNat < 184 by omega, show ¬ x.toNat < 192 by omega,
      listShort, if_true, if_false]
    rw [if_neg fits]
  · simp only [show ¬ x.toNat < 128 by omega, show ¬ x.toNat < 184 by omega, show ¬ x.toNat < 192 by omega,
      show ¬ x.toNat < 248 by omega, if_false]
    rw [sized]
    exact if_neg fits

theorem tag_toNat {tag : UInt8} {n : Nat} (fits : tag.toNat + n < 256) :
    (tag + n.toUInt8).toNat = tag.toNat + n := by
  simp only [UInt8.toNat_add, Nat.toUInt8_eq, UInt8.toNat_ofNat', Nat.reducePow]
  omega

theorem puthead_of_lt {small large : UInt8} {size : Nat} (short : size < 56) :
    puthead small large size = [small + size.toUInt8] := by
  simp [puthead, short]

theorem puthead_of_le {small large : UInt8} {size : Nat} (long : 56 ≤ size) :
    puthead small large size = (large + (intsize size).toUInt8) :: putint size := by
  simp [puthead, show ¬ size < 56 by omega]

/-- Split cuts off the header and the content that readKind measures. -/
theorem split_of_readKind {header content rest : List UInt8}
    (read : readKind (header ++ content ++ rest) = .ok (k, header.length, content.length)) :
    split (header ++ content ++ rest) = .ok (k, content, rest) := by
  simp only [split, bind, Except.bind, read, pure, Except.pure]
  simp [List.append_assoc]

/-- The header of a string of any length but one byte below 0x80, in front of the string and any rest. -/
theorem readKind_stringHeader {content rest : List UInt8} (below : content.length < 2 ^ 64)
    (notByte : ∀ x, content = [x] → 128 ≤ x.toNat) :
    readKind (puthead 0x80 0xB7 content.length ++ content ++ rest) =
      .ok (.string, (puthead 0x80 0xB7 content.length).length, content.length) := by
  by_cases short : content.length < 56
  · have header : ((0x80 : UInt8) + content.length.toUInt8).toNat = 128 + content.length :=
      tag_toNat (by simp only [UInt8.reduceToNat]; omega)
    rw [puthead_of_lt short, List.singleton_append, List.cons_append, List.length_singleton]
    refine readKind_cons_of_cases (by simp) (.inr (.inl ⟨by omega, by omega, rfl, rfl, by omega, ?_⟩))
    rintro ⟨one, small⟩
    obtain ⟨x, rfl⟩ := List.length_eq_one_iff.mp one
    have := notByte x rfl
    simp only [List.cons_append, List.head?_cons, Option.any_some, decide_eq_true_eq,
      UInt8.lt_iff_toNat_lt, UInt8.reduceToNat] at small
    omega
  · have count := intsize_le content.length
    have header : ((0xB7 : UInt8) + (intsize content.length).toUInt8).toNat = 183 + intsize content.length :=
      tag_toNat (by simp only [UInt8.reduceToNat]; omega)
    have positive := intsize_pos content.length
    rw [puthead_of_le (by omega), List.cons_append, List.cons_append, List.length_cons, putint_length]
    refine readKind_cons_of_cases (by simp) (.inr (.inr (.inl ⟨by omega, by omega, rfl, by omega, ?_⟩)))
    rw [header, show 183 + intsize content.length - 0xB7 = intsize content.length by omega, List.append_assoc]
    exact readSize_putint (by omega) below _

/-- The header of a list, in front of its payload and any rest. -/
theorem readKind_listHeader {payload rest : List UInt8} (below : payload.length < 2 ^ 64) :
    readKind (puthead 0xC0 0xF7 payload.length ++ payload ++ rest) =
      .ok (.list, (puthead 0xC0 0xF7 payload.length).length, payload.length) := by
  by_cases short : payload.length < 56
  · have header : ((0xC0 : UInt8) + payload.length.toUInt8).toNat = 192 + payload.length :=
      tag_toNat (by simp only [UInt8.reduceToNat]; omega)
    rw [puthead_of_lt short, List.singleton_append, List.cons_append, List.length_singleton]
    exact readKind_cons_of_cases (by simp) (.inr (.inr (.inr (.inl ⟨by omega, by omega, rfl, rfl, by omega⟩))))
  · have count := intsize_le payload.length
    have header : ((0xF7 : UInt8) + (intsize payload.length).toUInt8).toNat = 247 + intsize payload.length :=
      tag_toNat (by simp only [UInt8.reduceToNat]; omega)
    have positive := intsize_pos payload.length
    rw [puthead_of_le (by omega), List.cons_append, List.cons_append, List.length_cons, putint_length]
    refine readKind_cons_of_cases (by simp) (.inr (.inr (.inr (.inr ⟨by omega, rfl, by omega, ?_⟩))))
    rw [header, show 247 + intsize payload.length - 0xF7 = intsize payload.length by omega, List.append_assoc]
    exact readSize_putint (by omega) below _

/-- The kind of what WriteBytes writes: a byte up to 0x7F stands alone, anything else is a string. -/
def bytesKind (b : List UInt8) : Kind :=
  match b with
  | [x] => if x ≤ 0x7F then .byte else .string
  | _ => .string

theorem writeBytes_length_ge (b : List UInt8) : b.length ≤ (writeBytes b).length := by
  unfold writeBytes
  split
  · split <;> simp
  · simp

/-- Split reads back what WriteBytes writes, in front of any rest. -/
theorem split_writeBytes {b : List UInt8} (below : b.length < 2 ^ 64) (rest : List UInt8) :
    split (writeBytes b ++ rest) = .ok (bytesKind b, b, rest) := by
  -- a byte up to 0x7F is written as itself; everything else after a string header
  by_cases alone : ∃ x, b = [x] ∧ x ≤ 0x7F
  · obtain ⟨x, rfl, small⟩ := alone
    have byte : x.toNat < 0x80 := by
      rw [UInt8.le_iff_toNat_le] at small
      simpa using Nat.lt_succ_of_le small
    simp only [writeBytes, bytesKind, small, if_true]
    rw [show [x] ++ rest = [] ++ [x] ++ rest from rfl]
    exact split_of_readKind (readKind_cons_of_cases (by simp) (.inl ⟨byte, rfl, rfl, rfl⟩))
  · have notByte : ∀ x, b = [x] → 128 ≤ x.toNat := by
      rintro x rfl
      have := UInt8.le_iff_toNat_le.not.mp fun small => alone ⟨x, rfl, small⟩
      simp only [UInt8.reduceToNat] at this
      omega
    have written : writeBytes b = puthead 0x80 0xB7 b.length ++ b := by
      unfold writeBytes
      split
      · rename_i x
        simp [show ¬ x ≤ 0x7F from fun small => alone ⟨x, rfl, small⟩]
      · rfl
    have kind : bytesKind b = .string := by
      unfold bytesKind
      split
      · rename_i x
        simp [show ¬ x ≤ 0x7F from fun small => alone ⟨x, rfl, small⟩]
      · rfl
    rw [written, kind]
    exact split_of_readKind (readKind_stringHeader below notByte)

theorem bytesKind_of_length_ne_one {b : List UInt8} (notOne : b.length ≠ 1) : bytesKind b = .string := by
  unfold bytesKind
  split
  · simp at notOne
  · rfl

theorem bytesKind_ne_list (b : List UInt8) : bytesKind b ≠ .list := by
  unfold bytesKind
  split
  · split <;> simp
  · simp

theorem splitString_writeBytes {b : List UInt8} (below : b.length < 2 ^ 64) (rest : List UInt8) :
    splitString (writeBytes b ++ rest) = .ok (b, rest) := by
  simp [splitString, split_writeBytes below, bind, Except.bind, bytesKind_ne_list, pure, Except.pure]

/-- Split reads back the list a payload is wrapped in, in front of any rest. -/
theorem split_wrapList {payload : List UInt8} (below : payload.length < 2 ^ 64) (rest : List UInt8) :
    split (wrapList payload ++ rest) = .ok (.list, payload, rest) :=
  split_of_readKind (readKind_listHeader below)

theorem splitList_wrapList {payload : List UInt8} (below : payload.length < 2 ^ 64) (rest : List UInt8) :
    splitList (wrapList payload ++ rest) = .ok (payload, rest) := by
  simp [splitList, split_wrapList below, bind, Except.bind, pure, Except.pure]

/-- WriteBytes of a string that is no byte up to 0x7F: the string header, then the bytes. -/
theorem writeBytes_of_not_byte {b : List UInt8} (notByte : ∀ x, b = [x] → 128 ≤ x.toNat) :
    writeBytes b = puthead 0x80 0xB7 b.length ++ b := by
  unfold writeBytes
  split
  · rename_i x
    have large := notByte x rfl
    have : ¬ x ≤ 0x7F := by
      rw [UInt8.le_iff_toNat_le]
      simp only [UInt8.reduceToNat]
      omega
    simp [this]
  · rfl

/-- A tag byte below the long form is the header puthead writes for its size. -/
theorem puthead_of_tag {small large x : UInt8} {n : Nat} (short : n < 56) (tag : x.toNat = small.toNat + n) :
    puthead small large n = [x] := by
  rw [puthead_of_lt short]
  have fits : small.toNat + n < 256 := tag ▸ x.toNat_lt
  have same : small + n.toUInt8 = x := UInt8.toNat_inj.mp (by rw [tag_toNat fits, tag])
  rw [same]

/-- A tag byte of the long form, with the size after it, is the header puthead writes for that size. -/
theorem puthead_of_long_tag {small large x : UInt8} {n slen : Nat} (long : 56 ≤ n) (count : intsize n = slen)
    (tag : x.toNat = large.toNat + slen) :
    puthead small large n = x :: putint n := by
  rw [puthead_of_le long, count]
  have fits : large.toNat + slen < 256 := tag ▸ x.toNat_lt
  have same : large + slen.toUInt8 = x := UInt8.toNat_inj.mp (by rw [tag_toNat fits, tag])
  rw [same]

/-- A value after a header of d + 1 bytes: the tag byte, d more header bytes, the content, and the rest. -/
theorem cons_eq_header_content_rest (x : UInt8) (tail : List UInt8) (d cs : Nat) :
    x :: tail = (x :: tail.take d) ++ (tail.drop d).take cs ++ (x :: tail).drop (d + 1 + cs) := by
  rw [show d + 1 + cs = (d + cs) + 1 by omega, List.drop_succ_cons, ← List.drop_drop]
  simp

/-- A string that is no byte up to 0x7F is written as a string. -/
theorem bytesKind_of_not_byte {b : List UInt8} (notByte : ∀ x, b = [x] → 128 ≤ x.toNat) : bytesKind b = .string := by
  unfold bytesKind
  split
  · rename_i x
    have large := notByte x rfl
    have : ¬ x ≤ 0x7F := by
      rw [UInt8.le_iff_toNat_le]
      simp only [UInt8.reduceToNat]
      omega
    simp [this]
  · rfl

/--
What Split accepts is the encoding of the content it returns, followed by the
rest: a list header and its payload, or a string as WriteBytes writes it,
with a size that RLP can state.
-/
theorem split_sound {b content rest : List UInt8} (accepted : split b = .ok (k, content, rest)) :
    content.length < 2 ^ 64 ∧ (k = .list ∨ k = bytesKind content) ∧
      b = (if k = .list then wrapList content else writeBytes content) ++ rest := by
  obtain ⟨⟨k', ts, cs⟩, read, made⟩ := Runs.bind_eq_ok accepted
  simp only [pure, Except.pure, Except.ok.injEq, Prod.mk.injEq] at made
  obtain ⟨rfl, rfl, rfl⟩ := made
  cases b with
  | nil => cases read
  | cons x tail =>
      obtain ⟨within, header⟩ := readKind_cons_cases read
      -- the sizes stay named: substituting x.toNat - 0x80 for them runs out of recursion depth
      rcases header with ⟨byte, rfl, rfl, rfl⟩ | ⟨notByte, short, rfl, rfl, size, canon⟩ |
        ⟨notShort, long, rfl, rfl, sized⟩ | ⟨notLong, listShort, rfl, rfl, size⟩ | ⟨notListShort, rfl, rfl, sized⟩
      · have small : x ≤ 0x7F := by
          rw [UInt8.le_iff_toNat_le]
          simp only [UInt8.reduceToNat]
          omega
        refine ⟨by simp, Or.inr (by simp [bytesKind, small]), ?_⟩
        simp [writeBytes, small]
      · rw [show (x :: tail).drop 1 = tail from rfl]
        have length : (tail.take cs).length = cs := by
          simp only [List.length_take]
          omega
        have notByteContent : ∀ y, tail.take cs = [y] → 128 ≤ y.toNat := by
          intro y one
          have single : cs = 1 := by rw [← length, one, List.length_singleton]
          obtain ⟨rest', rfl⟩ : ∃ rest', tail = y :: rest' := by
            rw [single] at one
            cases tail with
            | nil => simp at one
            | cons z rest' => simp at one; exact ⟨rest', by rw [one]⟩
          simp only [single, List.head?_cons, Option.any_some, decide_eq_true_eq, true_and] at canon
          rw [UInt8.lt_iff_toNat_lt] at canon
          simpa using canon
        refine ⟨by omega, Or.inr (bytesKind_of_not_byte notByteContent).symm, ?_⟩
        rw [if_neg (by simp), writeBytes_of_not_byte notByteContent, length,
          puthead_of_tag (by omega) (show x.toNat = (0x80 : UInt8).toNat + cs by
            simp only [UInt8.reduceToNat]; omega)]
        simpa using cons_eq_header_content_rest x tail 0 cs
      · obtain ⟨taken, count, large, below⟩ := readSize_sound sized
        have content : ((x :: tail).drop (x.toNat - 0xB7 + 1)).take cs = (tail.drop (x.toNat - 0xB7)).take cs := by
          rw [List.drop_succ_cons]
        rw [content]
        have length : ((tail.drop (x.toNat - 0xB7)).take cs).length = cs := by
          simp only [List.length_take, List.length_drop]
          omega
        have notByteContent : ∀ y, (tail.drop (x.toNat - 0xB7)).take cs = [y] → 128 ≤ y.toNat := by
          intro y one
          have := congrArg List.length one
          rw [length, List.length_singleton] at this
          omega
        refine ⟨by rw [length]; exact below, Or.inr (bytesKind_of_not_byte notByteContent).symm, ?_⟩
        rw [if_neg (by simp), writeBytes_of_not_byte notByteContent, length,
          puthead_of_long_tag large count (show x.toNat = (0xB7 : UInt8).toNat + (x.toNat - 0xB7) by
            simp only [UInt8.reduceToNat]; omega), ← taken]
        exact cons_eq_header_content_rest x tail _ cs
      · rw [show (x :: tail).drop 1 = tail from rfl]
        have length : (tail.take cs).length = cs := by
          simp only [List.length_take]
          omega
        refine ⟨by omega, Or.inl rfl, ?_⟩
        rw [if_pos rfl, wrapList, length,
          puthead_of_tag (by omega) (show x.toNat = (0xC0 : UInt8).toNat + cs by
            simp only [UInt8.reduceToNat]; omega)]
        simpa using cons_eq_header_content_rest x tail 0 cs
      · obtain ⟨taken, count, large, below⟩ := readSize_sound sized
        have content : ((x :: tail).drop (x.toNat - 0xF7 + 1)).take cs = (tail.drop (x.toNat - 0xF7)).take cs := by
          rw [List.drop_succ_cons]
        rw [content]
        have length : ((tail.drop (x.toNat - 0xF7)).take cs).length = cs := by
          simp only [List.length_take, List.length_drop]
          omega
        refine ⟨by rw [length]; exact below, Or.inl rfl, ?_⟩
        rw [if_pos rfl, wrapList, length,
          puthead_of_long_tag large count (show x.toNat = (0xF7 : UInt8).toNat + (x.toNat - 0xF7) by
            simp only [UInt8.reduceToNat]; omega), ← taken]
        exact cons_eq_header_content_rest x tail _ cs

/--
Split accepts exactly an encoding followed by any rest: a list header and its
payload, or a string as WriteBytes writes it, of a size RLP can state.
-/
theorem split_eq_ok_iff {b content rest : List UInt8} :
    split b = .ok (k, content, rest) ↔
      content.length < 2 ^ 64 ∧ (k = .list ∨ k = bytesKind content) ∧
        b = (if k = .list then wrapList content else writeBytes content) ++ rest := by
  constructor
  · exact split_sound
  · rintro ⟨below, kind, rfl⟩
    rcases kind with rfl | rfl
    · rw [if_pos rfl]
      exact split_wrapList below rest
    · rw [if_neg (bytesKind_ne_list content)]
      exact split_writeBytes below rest

/-- From 128 up, AppendUint64 writes a number's bytes as a string. -/
theorem appendUint64_eq_writeBytes {i : Nat} (large : 128 ≤ i) : appendUint64 [] i = writeBytes (putint i) := by
  have notByte : ∀ x, putint i = [x] → 128 ≤ x.toNat := by
    intro x one
    have count : intsize i = 1 := by rw [← putint_length, one, List.length_singleton]
    have value := readBigEndian_bigEndian (intsize i) i
    rw [← putint, one, count] at value
    simp only [readBigEndian, List.foldl_cons, List.foldl_nil, zero_mul, zero_add, pow_one] at value
    have : i < 256 := by
      by_contra big
      unfold intsize at count
      split_ifs at count <;> omega
    omega
  have short : (putint i).length < 56 := by
    have := intsize_le i
    rw [putint_length]
    omega
  rw [appendUint64_of_le large, writeBytes_of_not_byte notByte, puthead_of_lt short, putint_length]
  rfl

/-- SplitUint64 reads back what AppendUint64 writes, in front of any rest. -/
theorem splitUint64_appendUint64 {i : Nat} (below : i < 2 ^ 64) (rest : List UInt8) :
    splitUint64 (appendUint64 [] i ++ rest) = .ok (i, rest) := by
  by_cases zero : i = 0
  · subst zero
    have empty : appendUint64 [] 0 = writeBytes [] := rfl
    simp [splitUint64, empty, splitString_writeBytes, bind, Except.bind, pure, Except.pure]
  by_cases small : i < 128
  · have single : appendUint64 [] i = writeBytes [i.toUInt8] := by
      have byte : i.toUInt8 ≤ 0x7F := by
        rw [UInt8.le_iff_toNat_le]
        simp only [Nat.toUInt8_eq, UInt8.toNat_ofNat', UInt8.reduceToNat, Nat.reducePow]
        omega
      simp [appendUint64, zero, small, writeBytes, byte]
    have value : i.toUInt8.toNat = i := by
      simp only [Nat.toUInt8_eq, UInt8.toNat_ofNat', Nat.reducePow]
      omega
    have notZero : i.toUInt8 ≠ 0 := fun same => zero (by rw [← value, same]; rfl)
    simp [splitUint64, single, splitString_writeBytes, bind, Except.bind, pure, Except.pure, notZero, value]
  · have count := intsize_le i
    have readBack := splitString_writeBytes (show (putint i).length < 2 ^ 64 by rw [putint_length]; omega) rest
    rw [appendUint64_eq_writeBytes (by omega)]
    simp only [splitUint64, readBack, bind, Except.bind]
    obtain ⟨x, xs, written⟩ := List.exists_cons_of_ne_nil (putint_ne_nil i)
    rcases xs with _ | ⟨y, ys⟩
    · -- one byte: the number is that byte, which is not zero
      have value := readBigEndian_bigEndian (intsize i) i
      rw [← putint, written, Nat.mod_eq_of_lt (lt_pow_intsize below)] at value
      simp only [readBigEndian, List.foldl_cons, List.foldl_nil, zero_mul, zero_add] at value
      have notZero : x ≠ 0 := by
        intro same
        rw [same] at value
        simp at value
        omega
      simp [written, notZero, value, pure, Except.pure]
    · -- two to eight bytes: readSize reads them back
      have read := readSize_putint (by omega) below []
      rw [List.append_nil] at read
      have length : (x :: y :: ys).length = intsize i := by rw [← written, putint_length]
      have fits : ¬ (x :: y :: ys).length > 8 := by omega
      rw [written, ← length] at read
      simp only [written]
      rw [if_neg fits, read]
      rfl

theorem splitUint64_appendUint64_large :
    (1000 : Nat) < 2 ^ 64 ∧ splitUint64 (appendUint64 [] 1000 ++ [0xC0]) = .ok (1000, [0xC0]) :=
  ⟨by norm_num, splitUint64_appendUint64 (by norm_num) [0xC0]⟩

@[simp] theorem countValues_nil : countValues [] = .ok 0 := by
  rw [countValues]
  rfl

/-- CountValues counts the value Split cuts off, then goes on after it. -/
theorem countValues_of_split {b content rest : List UInt8} (accepted : split b = .ok (k, content, rest)) :
    countValues b = (countValues rest).map (· + 1) := by
  obtain ⟨⟨k', ts, cs⟩, read, made⟩ := Runs.bind_eq_ok accepted
  simp only [pure, Except.pure, Except.ok.injEq, Prod.mk.injEq] at made
  obtain ⟨rfl, rfl, rfl⟩ := made
  cases b with
  | nil => cases read
  | cons x tail =>
      rw [countValues]
      split
      · rename_i failed
        rw [read] at failed
        cases failed
      · rename_i found
        rw [read] at found
        cases found
        rfl

end Written

end Kardia.Rlp
