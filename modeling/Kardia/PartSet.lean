import Kardia.Block
import Kardia.MerkleTree

namespace Kardia

/-!
# Block parts

The model of types/part_set.go and of the parts of lib/merkle it uses.  A
block travels as parts: NewPartSetFromData splits the encoded block into
parts of partSize bytes and gives each a Merkle inclusion proof against the
root of all parts, which the part set header carries.  A receiving node
starts from NewPartSetFromHeader, fills it with AddPart and, once it is
complete, reads the block back through a PartSetReader.

merkle.Sum, SHA-256, is a parameter; leafHash and innerHash hash behind the
tag bytes 0 and 1, and the tree is MerkleTree's.  Go's uint32 arithmetic on
the part count and the slice bounds is kept with its wrap, and a panic is the
error of Except.

AddPart checks a part's index against the total and its proof against the
root, and the proof's check reads the index written in the proof, never the
part's own.  An honest part filed under another index is therefore accepted,
and the reassembled block is not the one the header commits to.
-/

/-! ## Proofs and parts -/

/-- The Go runtime's message for an integer division by zero. -/
def divideByZero : String :=
  "runtime error: integer divide by zero"

/-- The Go runtime's message for a slice expression with bounds out of range. -/
def sliceBoundsOutOfRange : String :=
  "runtime error: slice bounds out of range"

/-- common.Hash.Bytes: the 32 bytes of a hash, most significant first. -/
def Hash.bytes (hash : Hash) : List UInt8 :=
  (List.range 32).reverse.map fun position => (hash.val / 256 ^ position % 256).toUInt8

/--
merkle.SimpleProof.  ProofFromProto's ValidateBasic checks that the leaf hash
and every aunt are 32 bytes long, so in a decoded part they are hashes.
-/
structure SimpleProof where
  total : Nat
  index : Nat
  leafHash : Hash
  aunts : List Hash
  deriving DecidableEq, Repr

/-- The zero SimpleProof{}. -/
instance : Inhabited SimpleProof :=
  ⟨⟨0, 0, Hash.zero, []⟩⟩

/-- A block part, types.Part: index, bytes and Merkle proof. -/
structure Part where
  index : Nat
  bytes : List UInt8
  proof : SimpleProof
  deriving DecidableEq, Repr

/-- A part set, types.PartSet: the header, the parts received and their count. -/
structure PartSet where
  total : Nat
  hash : Hash
  parts : List (Option Part)
  count : Nat
  deriving DecidableEq, Repr

namespace PartSet

/-- NewPartSetFromHeader: no part yet. -/
def newPartSetFromHeader (header : PartSetHeader) : PartSet where
  total := header.total
  hash := header.hash
  parts := List.replicate header.total none
  count := 0

/-- PartSet.Header of a possibly nil part set: the zero header for nil. -/
def header : Option PartSet → PartSetHeader
  | none => ⟨0, Hash.zero⟩
  | some partSet => ⟨partSet.total, partSet.hash⟩

/-- PartSet.HasHeader: never for nil. -/
def hasHeader (partSet : Option PartSet) (header : PartSetHeader) : Bool :=
  match partSet with
  | none => false
  | some partSet => partSet.total == header.total && partSet.hash == header.hash

/-- PartSet.IsComplete. -/
def isComplete (partSet : PartSet) : Bool :=
  partSet.count == partSet.total

/--
PartSet.AddPart: a part in range, not yet received and with a valid proof
against the set's hash is stored.  Returns whether it was added.
-/
def addPart (verifyProof : Hash → Part → Bool) (partSet : PartSet) (part : Part) :
    PartSet × Bool × Option String :=
  if partSet.total ≤ part.index then
    (partSet, false, some "error part set unexpected index")
  else
    match partSet.parts[part.index]? with
    | some (some _) => (partSet, false, none)
    | _ =>
        if !verifyProof partSet.hash part then
          (partSet, false, some "error part set invalid proof")
        else
          ({ partSet with
              parts := partSet.parts.set part.index (some part)
              count := partSet.count + 1 },
            true, none)

/-- The bytes of a complete part set, as its reader returns them. -/
def bytes (partSet : PartSet) : List UInt8 :=
  partSet.parts.flatMap fun part => (part.map Part.bytes).getD []

end PartSet

/-! ## The Merkle proofs of lib/merkle -/

namespace Merkle

variable (sum : List UInt8 → Hash)

/-- leafHash: the sum of the leaf behind the tag byte 0. -/
def leafHash (leaf : List UInt8) : Hash :=
  sum (0 :: leaf)

/-- innerHash: the sum of the two hashes behind the tag byte 1. -/
def innerHash (left right : Hash) : Hash :=
  sum (1 :: (left.bytes ++ right.bytes))

/--
SimpleProofsFromByteSlices: the root and the proof of every item.  The root
is the hash of the root node trailsFromByteSlices returns, a nil node for no
items, whose hash dereferences nil.
-/
def simpleProofsFromByteSlices (items : List (List UInt8)) :
    Except String (Hash × List SimpleProof) :=
  match MerkleTree.trails (leafHash sum) (innerHash sum) items with
  | (_, none) => .error nilDereference
  | (itemTrails, some root) =>
      .ok (root, itemTrails.mapIdx fun index trail => ⟨items.length, index, trail.1, trail.2⟩)

end Merkle

namespace SimpleProof

variable (sum : List UInt8 → Hash)

/--
SimpleProof.ComputeRootHash.  The index and the total are converted to int,
negative from 2^63 on, which computeHashFromAunts rejects.
-/
def computeRootHash (proof : SimpleProof) : Option Hash :=
  if 2 ^ 63 ≤ proof.index ∨ 2 ^ 63 ≤ proof.total then
    none
  else
    MerkleTree.computeHashFromAunts (Merkle.innerHash sum) proof.index proof.total
      proof.leafHash proof.aunts

/--
SimpleProof.Verify: the leaf must hash to the proof's leaf hash, and the
proof must lead to the root.  The index and the total are uint64, so the
checks for negative values never fail.
-/
def verify (proof : SimpleProof) (rootHash : Hash) (leaf : List UInt8) : Except String Unit :=
  if proof.leafHash ≠ Merkle.leafHash sum leaf then
    .error "invalid leaf hash"
  else if proof.computeRootHash sum ≠ some rootHash then
    .error "invalid root hash"
  else
    .ok ()

end SimpleProof

/-- The proof check of AddPart: part.Proof.Verify(ps.Hash().Bytes(), part.Bytes) is nil. -/
def Part.verifyProof (sum : List UInt8 → Hash) (rootHash : Hash) (part : Part) : Bool :=
  match part.proof.verify sum rootHash part.bytes with
  | .ok () => true
  | .error _ => false

/-- The check of a part's proof does not read the part's own index. -/
@[simp] theorem Part.verifyProof_index
    (sum : List UInt8 → Hash)
    (rootHash : Hash)
    (part : Part)
    (index : Nat) :
    Part.verifyProof sum rootHash { part with index := index } =
      Part.verifyProof sum rootHash part :=
  rfl

namespace Merkle

variable (sum : List UInt8 → Hash)

/--
The proofs SimpleProofsFromByteSlices builds for one or more items, fewer
than 2^63, verify: the proof of every item has the item's index and leads from
the item to the root.
-/
theorem simpleProofsFromByteSlices_verify
    {items : List (List UInt8)}
    (nonempty : items ≠ [])
    (fewItems : items.length < 2 ^ 63) :
    ∃ root proofs,
      simpleProofsFromByteSlices sum items = .ok (root, proofs) ∧
        proofs.length = items.length ∧
        ∀ (index : Nat) (inRange : index < items.length), ∃ proof,
          proofs[index]? = some proof ∧ proof.index = index ∧
            proof.verify sum root items[index] = .ok () := by
  obtain ⟨root, rootIs⟩ := MerkleTree.rootHash_isSome (leafHash sum) (innerHash sum) nonempty
  have trailsRoot : (MerkleTree.trails (leafHash sum) (innerHash sum) items).2 = some root :=
    (MerkleTree.trails_snd _ _ items).trans rootIs
  refine ⟨root, (MerkleTree.trails (leafHash sum) (innerHash sum) items).1.mapIdx
    fun index trail => ⟨items.length, index, trail.1, trail.2⟩, ?_, ?_, ?_⟩
  · unfold simpleProofsFromByteSlices
    rw [← Prod.mk.eta (p := MerkleTree.trails (leafHash sum) (innerHash sum) items), trailsRoot]
  · rw [List.length_mapIdx, MerkleTree.trails_length]
  · intro index inRange
    obtain ⟨trail, found, leafOk, verifies⟩ :=
      MerkleTree.trails_verify (leafHash sum) (innerHash sum) items index inRange
    refine ⟨⟨items.length, index, trail.1, trail.2⟩, by simp [found], rfl, ?_⟩
    have computed : SimpleProof.computeRootHash sum ⟨items.length, index, trail.1, trail.2⟩ =
        some root := by
      unfold SimpleProof.computeRootHash
      rw [if_neg (show ¬(2 ^ 63 ≤ index ∨ 2 ^ 63 ≤ items.length) by omega)]
      exact verifies.trans rootIs
    unfold SimpleProof.verify
    rw [if_neg (by simpa using leafOk), if_neg (by simpa using computed)]

end Merkle

/-! ## Splitting a block -/

/-- The slice data[low:high], a panic unless low ≤ high ≤ len(data). -/
def slice (data : List UInt8) (low high : Nat) : Except String (List UInt8) :=
  if low ≤ high ∧ high ≤ data.length then
    .ok ((data.take high).drop low)
  else
    .error sliceBoundsOutOfRange

/--
NewPartSetFromData: the data cut into parts of partSize bytes, each with its
proof, under the header of their root.  The part count and the slice bounds
are computed in uint32; a zero part size divides by zero.
-/
def newPartSetFromData (sum : List UInt8 → Hash) (data : List UInt8) (partSize : Nat) :
    Except String PartSet := do
  if partSize = 0 then
    throw divideByZero
  let total := (data.length % 2 ^ 32 + partSize - 1) % 2 ^ 32 / partSize
  let chunks ← (List.range total).mapM fun index =>
    slice data (index * partSize % 2 ^ 32) (min data.length ((index + 1) * partSize % 2 ^ 32))
  let (root, proofs) ← Merkle.simpleProofsFromByteSlices sum chunks
  pure
    { total := total
      hash := root
      parts := (chunks.zip proofs).mapIdx fun index chunk => some ⟨index, chunk.1, chunk.2⟩
      count := total }

/-- The number of parts of `length` bytes cut into parts of `partSize` bytes. -/
def partCount (length partSize : Nat) : Nat :=
  (length + partSize - 1) / partSize

/-- The bytes of the part at an index: partSize bytes of the data from index * partSize on. -/
def chunk (data : List UInt8) (partSize index : Nat) : List UInt8 :=
  (data.drop (index * partSize)).take partSize

section Splitting

variable {data : List UInt8} {partSize : Nat}

/-- A part of the data starts before its end. -/
theorem start_lt_of_lt_partCount
    {index : Nat}
    (positive : 0 < partSize)
    (inRange : index < partCount data.length partSize) :
    index * partSize < data.length := by
  have below : (index + 1) * partSize ≤ data.length + partSize - 1 :=
    (Nat.le_div_iff_mul_le positive).mp inRange
  rw [Nat.add_mul, Nat.one_mul] at below
  omega

/-- The parts cover the data. -/
theorem length_le_partCount_mul (positive : 0 < partSize) :
    data.length ≤ partCount data.length partSize * partSize := by
  have split := Nat.div_add_mod (data.length + partSize - 1) partSize
  have remainder := Nat.mod_lt (data.length + partSize - 1) positive
  unfold partCount
  rw [Nat.mul_comm]
  omega

/-- Without a uint32 wrap, the slice of a part is its chunk. -/
theorem slice_eq_chunk
    {index : Nat}
    (positive : 0 < partSize)
    (noWrap : data.length + partSize ≤ 2 ^ 32)
    (inRange : index < partCount data.length partSize) :
    slice data (index * partSize % 2 ^ 32) (min data.length ((index + 1) * partSize % 2 ^ 32)) =
      .ok (chunk data partSize index) := by
  have starts := start_lt_of_lt_partCount positive inRange
  have lowNoWrap : index * partSize % 2 ^ 32 = index * partSize := Nat.mod_eq_of_lt (by omega)
  have highNoWrap : (index + 1) * partSize % 2 ^ 32 = index * partSize + partSize := by
    rw [Nat.add_mul, Nat.one_mul]
    exact Nat.mod_eq_of_lt (by omega)
  have takeHigh : data.take (min data.length (index * partSize + partSize)) =
      data.take (index * partSize + partSize) := by
    rw [List.take_eq_take_iff]
    omega
  unfold slice
  rw [lowNoWrap, highNoWrap, if_pos (by omega), takeHigh, List.drop_take,
    Nat.add_sub_cancel_left]
  rfl

/-- The chunks of the first `count` parts are the first count * partSize bytes. -/
theorem flatten_chunks_take (count : Nat) :
    ((List.range count).map (chunk data partSize)).flatten = data.take (count * partSize) := by
  induction count with
  | zero => simp
  | succ count inductionHypothesis =>
      rw [List.range_succ, List.map_append, List.flatten_append, inductionHypothesis,
        Nat.succ_mul, List.take_add]
      simp [chunk]

/-- The chunks of all parts are the data. -/
theorem flatten_chunks (positive : 0 < partSize) :
    ((List.range (partCount data.length partSize)).map (chunk data partSize)).flatten = data := by
  rw [flatten_chunks_take, List.take_of_length_le (length_le_partCount_mul positive)]

/-- Without a uint32 wrap, the part count of NewPartSetFromData is partCount. -/
theorem total_eq_partCount
    (noWrap : data.length + partSize ≤ 2 ^ 32)
    (positive : 0 < partSize) :
    (data.length % 2 ^ 32 + partSize - 1) % 2 ^ 32 / partSize =
      partCount data.length partSize := by
  rw [Nat.mod_eq_of_lt (show data.length < 2 ^ 32 by omega),
    Nat.mod_eq_of_lt (show data.length + partSize - 1 < 2 ^ 32 by omega)]
  rfl

/-- Nonempty data has a part. -/
theorem partCount_pos (positive : 0 < partSize) (nonempty : data ≠ []) :
    0 < partCount data.length partSize := by
  have lengthPositive : 0 < data.length := List.length_pos_iff.mpr nonempty
  unfold partCount
  exact Nat.div_pos (by omega) positive

/--
NewPartSetFromData on nonempty data without a uint32 wrap: a full part set of
partCount parts, where the part at every index holds its chunk and a proof
that verifies against the set's hash.
-/
theorem newPartSetFromData_eq_ok
    (sum : List UInt8 → Hash)
    (positive : 0 < partSize)
    (nonempty : data ≠ [])
    (noWrap : data.length + partSize ≤ 2 ^ 32) :
    ∃ source, newPartSetFromData sum data partSize = .ok source ∧
      source.total = partCount data.length partSize ∧
      source.count = source.total ∧
      source.parts.length = source.total ∧
      ∀ index, index < source.total → ∃ part,
        source.parts[index]? = some (some part) ∧ part.index = index ∧
          part.bytes = chunk data partSize index ∧
          Part.verifyProof sum source.hash part = true := by
  have chunked : (List.range (partCount data.length partSize)).mapM
      (fun index => slice data (index * partSize % 2 ^ 32)
        (min data.length ((index + 1) * partSize % 2 ^ 32))) =
      .ok ((List.range (partCount data.length partSize)).map (chunk data partSize)) :=
    Runs.mapM_eq_ok fun index member => slice_eq_chunk positive noWrap (List.mem_range.mp member)
  have someChunk : (List.range (partCount data.length partSize)).map (chunk data partSize) ≠ [] := by
    simpa using (partCount_pos positive nonempty).ne'
  obtain ⟨root, proofs, proved, proofCount, verified⟩ :=
    Merkle.simpleProofsFromByteSlices_verify sum someChunk (by
      simp only [List.length_map, List.length_range]
      have := Nat.div_le_self (data.length + partSize - 1) partSize
      unfold partCount
      omega)
  refine ⟨⟨partCount data.length partSize, root,
    (((List.range (partCount data.length partSize)).map (chunk data partSize)).zip proofs).mapIdx
      fun index chunk => some ⟨index, chunk.1, chunk.2⟩,
    partCount data.length partSize⟩, ?_, rfl, rfl, ?_, ?_⟩
  · unfold newPartSetFromData
    simp only [positive.ne', ↓reduceIte, total_eq_partCount noWrap positive, chunked, proved,
      bind, Except.bind, pure, Except.pure]
  · simp [proofCount]
  · intro index inRange
    have inChunks : index < ((List.range (partCount data.length partSize)).map
        (chunk data partSize)).length := by simpa using inRange
    obtain ⟨proof, foundProof, proofIndex, proofVerifies⟩ := verified index inChunks
    have foundChunk : ((List.range (partCount data.length partSize)).map
        (chunk data partSize))[index]? = some (chunk data partSize index) := by
      simp [List.getElem?_range (show index < partCount data.length partSize from inRange)]
    refine ⟨⟨index, chunk data partSize index, proof⟩, ?_, rfl, rfl, ?_⟩
    · rw [List.getElem?_mapIdx, (List.getElem?_zip_eq_some (z := (chunk data partSize index, proof))).mpr
        ⟨foundChunk, foundProof⟩]
      rfl
    · simp only [List.getElem_map, List.getElem_range] at proofVerifies
      unfold Part.verifyProof
      rw [proofVerifies]

end Splitting

/-- Empty data has no parts, and the root of no parts dereferences nil. -/
theorem newPartSetFromData_nil
    (sum : List UInt8 → Hash)
    {partSize : Nat}
    (positive : 0 < partSize) :
    newPartSetFromData sum [] partSize = .error nilDereference := by
  have noParts : (0 % 2 ^ 32 + partSize - 1) % 2 ^ 32 / partSize = 0 := by
    apply Nat.div_eq_of_lt
    have := Nat.mod_le (partSize - 1) (2 ^ 32)
    simp only [Nat.zero_mod, Nat.zero_add]
    omega
  have noRoot : Merkle.simpleProofsFromByteSlices sum [] = .error nilDereference := by
    unfold Merkle.simpleProofsFromByteSlices
    rw [MerkleTree.trails_nil]
  unfold newPartSetFromData
  simp only [positive.ne', ↓reduceIte, List.length_nil, noParts, List.range_zero, List.mapM_nil,
    bind, Except.bind, pure, Except.pure, noRoot]

/-! ## Reading a block back -/

/--
A PartSetReader: the index of the current part, the parts, and the unread
bytes of the current part's bytes.Reader.
-/
structure PartSetReader where
  index : Nat
  parts : List (Option Part)
  reader : List UInt8
  deriving DecidableEq, Repr

/-- NewPartSetReader: reading starts with the first part. -/
def newPartSetReader (parts : List (Option Part)) : Except String PartSetReader :=
  match parts[0]? with
  | none => .error indexOutOfRange
  | some none => .error nilDereference
  | some (some first) => .ok ⟨0, parts, first.bytes⟩

/-- PartSet.GetReader: a panic on an incomplete part set. -/
def PartSet.getReader (partSet : PartSet) : Except String PartSetReader :=
  if !partSet.isComplete then
    .error "Panicked on a Sanity Check: Cannot GetReader() on incomplete PartSet"
  else
    newPartSetReader partSet.parts

namespace PartSetReader

/--
PartSetReader.Read into a buffer of `size` bytes: the reader after the call,
the bytes read and whether io.EOF was returned.  Of the two recursive calls
of the middle case the first drains the current part and cannot fail, so it
is written out.
-/
def read (psr : PartSetReader) (size : Nat) :
    Except String (PartSetReader × List UInt8 × Bool) :=
  if size ≤ psr.reader.length then
    -- bytes.Reader.Read returns io.EOF only once the reader is exhausted
    if psr.reader.isEmpty then
      .ok (psr, [], true)
    else
      .ok ({ psr with reader := psr.reader.drop size }, psr.reader.take size, false)
  else if 0 < psr.reader.length then
    (read { psr with reader := [] } (size - psr.reader.length)).map
      fun (next, rest, eof) => (next, psr.reader ++ rest, eof)
  else if psr.parts.length ≤ psr.index + 1 then
    .ok ({ psr with index := psr.index + 1 }, [], true)
  else
    match psr.parts[psr.index + 1]? with
    | some (some part) => read { psr with index := psr.index + 1, reader := part.bytes } size
    | _ => .error nilDereference
termination_by 2 * (psr.parts.length - psr.index) + (if psr.reader = [] then 0 else 1)
decreasing_by
  · simp only [List.length_pos_iff] at *
    simp_all
  · split_ifs <;> omega

/--
ioutil.ReadAll: reads into buffers of the given sizes until io.EOF, and
returns everything read; none if the sizes run out first.
-/
def readAll : List Nat → PartSetReader → Except String (Option (List UInt8))
  | [], _ => .ok none
  | size :: sizes, psr => do
      let (next, bytes, eof) ← psr.read size
      if eof then
        pure (some bytes)
      else
        (readAll sizes next).map (Option.map (bytes ++ ·))

/-- The bytes still to be read: the rest of the current part, then every later part. -/
def remaining (psr : PartSetReader) : List UInt8 :=
  psr.reader ++ (psr.parts.drop (psr.index + 1)).flatMap fun part => (part.map Part.bytes).getD []

/-- Every part after the current one has arrived. -/
def Loaded (psr : PartSetReader) : Prop :=
  ∀ part ∈ psr.parts.drop (psr.index + 1), part.isSome

/-- Moving to the next part keeps the later parts loaded. -/
theorem Loaded.next
    {psr : PartSetReader}
    (loaded : psr.Loaded)
    (reader : List UInt8) :
    Loaded { psr with index := psr.index + 1, reader := reader } := by
  intro part member
  apply loaded part
  have later : psr.parts.drop (psr.index + 1 + 1) ⊆ psr.parts.drop (psr.index + 1) := by
    rw [← List.drop_drop]
    exact List.drop_subset _ _
  exact later member

/--
One read into a nonempty buffer: it returns bytes that, followed by what is
left, are what was left before; io.EOF only with nothing left, and some bytes
otherwise.
-/
theorem read_spec
    {psr : PartSetReader}
    {size : Nat}
    (positive : 0 < size)
    (loaded : psr.Loaded) :
    ∃ next bytes eof,
      psr.read size = .ok (next, bytes, eof) ∧ next.Loaded ∧
        bytes ++ next.remaining = psr.remaining ∧
        (eof = true → next.remaining = []) ∧
        (eof = false → bytes ≠ []) := by
  induction psr, size using read.induct with
  | case1 psr size fits exhausted =>
      simp only [List.isEmpty_iff] at exhausted
      rw [exhausted] at fits
      simp at fits
      omega
  | case2 psr size fits unread =>
      have nonempty : psr.reader ≠ [] := by simpa using unread
      refine ⟨{ psr with reader := psr.reader.drop size }, psr.reader.take size, false, ?_, loaded,
        ?_, by simp, ?_⟩
      · rw [read, if_pos fits, if_neg unread]
      · simp only [remaining, ← List.append_assoc, List.take_append_drop]
      · intro _
        simpa [List.take_eq_nil_iff] using And.intro positive.ne' nonempty
  | case3 psr size beyond unread inductionHypothesis =>
      obtain ⟨next, bytes, eof, stepped, nextLoaded, consumed, atEof, progress⟩ :=
        inductionHypothesis (by omega) loaded
      have nonempty : psr.reader ≠ [] := List.length_pos_iff.mp unread
      refine ⟨next, psr.reader ++ bytes, eof, ?_, nextLoaded, ?_, atEof, ?_⟩
      · rw [read, if_neg beyond, if_pos unread, stepped]
        rfl
      · rw [List.append_assoc, consumed]
        rfl
      · intro _
        simp [nonempty]
  | case4 psr size beyond drained lastPart =>
      have nothingLater : psr.parts.drop (psr.index + 1) = [] := List.drop_eq_nil_of_le lastPart
      have readerEmpty : psr.reader = [] := List.eq_nil_of_length_eq_zero (by omega)
      refine ⟨{ psr with index := psr.index + 1 }, [], true, ?_, ?_, ?_, ?_, by simp⟩
      · rw [read, if_neg beyond, if_neg drained, if_pos lastPart]
      · intro part member
        simp [List.drop_eq_nil_of_le (show psr.parts.length ≤ psr.index + 1 + 1 by omega)] at member
      · simp [remaining, readerEmpty, nothingLater,
          List.drop_eq_nil_of_le (show psr.parts.length ≤ psr.index + 1 + 1 by omega)]
      · intro _
        simp [remaining, readerEmpty,
          List.drop_eq_nil_of_le (show psr.parts.length ≤ psr.index + 1 + 1 by omega)]
  | case5 psr size beyond drained notLast part found inductionHypothesis =>
      obtain ⟨next, bytes, eof, stepped, nextLoaded, consumed, atEof, progress⟩ :=
        inductionHypothesis positive (loaded.next part.bytes)
      have readerEmpty : psr.reader = [] := List.eq_nil_of_length_eq_zero (by omega)
      refine ⟨next, bytes, eof, ?_, nextLoaded, ?_, atEof, progress⟩
      · rw [read, if_neg beyond, if_neg drained, if_neg notLast, found]
        exact stepped
      · obtain ⟨inRange, isPart⟩ := List.getElem?_eq_some_iff.mp found
        rw [consumed]
        simp only [remaining, readerEmpty, List.nil_append, List.drop_eq_getElem_cons inRange,
          isPart, List.flatMap_cons, Option.map_some, Option.getD_some]
  | case6 psr size beyond drained notLast missing =>
      exfalso
      have inRange : psr.index + 1 < psr.parts.length := by omega
      have present := loaded psr.parts[psr.index + 1] (by
        rw [List.mem_drop_iff_getElem]
        exact ⟨0, by simpa using inRange, by simp⟩)
      obtain ⟨part, isPart⟩ := Option.isSome_iff_exists.mp present
      exact missing part (by rw [List.getElem?_eq_getElem inRange, isPart])

/--
ioutil.ReadAll returns everything left, whatever the sizes of its buffers,
given at least one more read than bytes left.
-/
theorem readAll_remaining
    {sizes : List Nat}
    {psr : PartSetReader}
    (positive : ∀ size ∈ sizes, 0 < size)
    (loaded : psr.Loaded)
    (enough : psr.remaining.length < sizes.length) :
    psr.readAll sizes = .ok (some psr.remaining) := by
  induction sizes generalizing psr with
  | nil => simp at enough
  | cons size rest inductionHypothesis =>
      obtain ⟨next, bytes, eof, stepped, nextLoaded, consumed, atEof, progress⟩ :=
        read_spec (positive size List.mem_cons_self) loaded
      cases eof with
      | true =>
          rw [readAll, stepped, ← consumed, atEof rfl, List.append_nil]
          rfl
      | false =>
          have shorter : next.remaining.length < rest.length := by
            have bytesLength := List.length_pos_iff.mpr (progress rfl)
            have total := congrArg List.length consumed
            simp only [List.length_append, List.length_cons] at total enough
            omega
          rw [readAll, stepped]
          simp only [bind, Except.bind, Bool.false_eq_true, ↓reduceIte]
          rw [inductionHypothesis (fun other member => positive other (List.mem_cons_of_mem size member))
            nextLoaded shorter, ← consumed]
          rfl

end PartSetReader

namespace PartSet

/-- The count of a part set is the number of its parts received, and every part has a slot. -/
def WellFormed (partSet : PartSet) : Prop :=
  partSet.parts.length = partSet.total ∧ partSet.count = partSet.parts.countP Option.isSome

/-- An empty part set is well formed. -/
theorem newPartSetFromHeader_wellFormed (header : PartSetHeader) :
    (newPartSetFromHeader header).WellFormed := by
  simp [WellFormed, newPartSetFromHeader, List.countP_replicate]

/--
AddPart either leaves the part set as it was and reports the part as not
added, or stores the part in its slot: a slot in range, empty, for a part
whose proof checks.
-/
theorem addPart_cases
    {verifyProof : Hash → Part → Bool}
    {partSet next : PartSet}
    {part : Part}
    {added : Bool}
    {error : Option String}
    (stored : partSet.addPart verifyProof part = (next, added, error)) :
    (next = partSet ∧ added = false) ∨
      (part.index < partSet.total ∧ (∀ other, partSet.parts[part.index]? ≠ some (some other)) ∧
        verifyProof partSet.hash part = true ∧ added = true ∧ error = none ∧
        next = { partSet with
          parts := partSet.parts.set part.index (some part)
          count := partSet.count + 1 }) := by
  unfold addPart at stored
  split at stored
  · cases stored
    exact Or.inl ⟨rfl, rfl⟩
  · rename_i inRange
    split at stored
    · cases stored
      exact Or.inl ⟨rfl, rfl⟩
    · rename_i notStored
      split at stored
      · cases stored
        exact Or.inl ⟨rfl, rfl⟩
      · rename_i verified
        cases stored
        refine Or.inr ⟨by omega, fun other found => notStored other found, by simpa using verified,
          rfl, rfl, rfl⟩

/-- A part whose proof checks is stored in its empty slot. -/
theorem addPart_of_empty
    {verifyProof : Hash → Part → Bool}
    {partSet : PartSet}
    {part : Part}
    (inRange : part.index < partSet.total)
    (empty : partSet.parts[part.index]? = some none)
    (verified : verifyProof partSet.hash part = true) :
    partSet.addPart verifyProof part =
      ({ partSet with
          parts := partSet.parts.set part.index (some part)
          count := partSet.count + 1 }, true, none) := by
  unfold addPart
  rw [if_neg (by omega), empty]
  simp [verified]

/-- AddPart keeps a part set well formed. -/
theorem addPart_wellFormed
    {verifyProof : Hash → Part → Bool}
    {partSet : PartSet}
    (wellFormed : partSet.WellFormed)
    (part : Part) :
    (partSet.addPart verifyProof part).1.WellFormed := by
  obtain ⟨slots, counted⟩ := wellFormed
  generalize result : partSet.addPart verifyProof part = outcome
  obtain ⟨next, added, error⟩ := outcome
  rcases addPart_cases result with ⟨unchanged, -⟩ | ⟨inRange, notStored, -, -, -, stored⟩
  · rw [unchanged]
    exact ⟨slots, counted⟩
  · have inSlots : part.index < partSet.parts.length := by omega
    have wasEmpty : partSet.parts[part.index] = none := by
      cases found : partSet.parts[part.index] with
      | none => rfl
      | some other =>
          exact (notStored other (by rw [List.getElem?_eq_getElem inSlots, found])).elim
    rw [stored]
    refine ⟨by simp [slots], ?_⟩
    simp only [List.countP_set inSlots, wasEmpty, counted]
    simp

/-- A complete, well-formed part set has received every part. -/
theorem WellFormed.isSome_of_complete
    {partSet : PartSet}
    (wellFormed : partSet.WellFormed)
    (complete : partSet.isComplete = true) :
    ∀ part ∈ partSet.parts, part.isSome := by
  obtain ⟨slots, counted⟩ := wellFormed
  have everyPart : partSet.parts.countP Option.isSome = partSet.parts.length := by
    simp only [isComplete, beq_iff_eq] at complete
    omega
  exact List.countP_eq_length.mp everyPart

/--
A complete, well-formed part set of one or more parts reads back as its
bytes, whatever the sizes of ioutil.ReadAll's buffers.
-/
theorem getReader_readAll
    {partSet : PartSet}
    (wellFormed : partSet.WellFormed)
    (complete : partSet.isComplete = true)
    (someParts : 0 < partSet.total)
    {sizes : List Nat}
    (positive : ∀ size ∈ sizes, 0 < size)
    (enough : partSet.bytes.length < sizes.length) :
    (partSet.getReader >>= PartSetReader.readAll sizes) = .ok (some partSet.bytes) := by
  have received := wellFormed.isSome_of_complete complete
  have firstInRange : 0 < partSet.parts.length := by
    rw [wellFormed.1]
    exact someParts
  obtain ⟨first, isFirst⟩ := Option.isSome_iff_exists.mp
    (received partSet.parts[0] (List.getElem_mem firstInRange))
  have started : partSet.getReader = .ok ⟨0, partSet.parts, first.bytes⟩ := by
    unfold getReader newPartSetReader
    rw [if_neg (by simpa using complete), List.getElem?_eq_getElem firstInRange, isFirst]
  have allBytes : PartSetReader.remaining ⟨0, partSet.parts, first.bytes⟩ = partSet.bytes := by
    have shape : partSet.parts = some first :: partSet.parts.drop 1 := by
      rw [← isFirst, List.getElem_cons_drop, List.drop_zero]
    unfold PartSetReader.remaining bytes
    conv => rhs; rw [shape]
    simp
  have loaded : PartSetReader.Loaded ⟨0, partSet.parts, first.bytes⟩ :=
    fun part member => received part (List.mem_of_mem_drop member)
  rw [started]
  show PartSetReader.readAll sizes ⟨0, partSet.parts, first.bytes⟩ = _
  rw [PartSetReader.readAll_remaining positive loaded (by rw [allBytes]; exact enough), allBytes]

/--
A part that verifies against a header, filed under another empty slot of a
part set with that header, is stored there: nothing compares the part's index
with the index in its proof.
-/
theorem addPart_relabelled
    (sum : List UInt8 → Hash)
    {partSet : PartSet}
    {honest : Part}
    {target : Nat}
    (verified : Part.verifyProof sum partSet.hash honest = true)
    (inRange : target < partSet.total)
    (empty : partSet.parts[target]? = some none) :
    partSet.addPart (Part.verifyProof sum) { honest with index := target } =
      ({ partSet with
          parts := partSet.parts.set target (some { honest with index := target })
          count := partSet.count + 1 }, true, none) :=
  addPart_of_empty inRange empty (by rw [Part.verifyProof_index]; exact verified)

end PartSet

open PartSet in
/--
The block [0, 1] cut into parts of one byte: the honest first part, filed a
second time as part 1, and then the first part itself complete a part set
with the header of the block, and the block read back is [0, 0].
-/
theorem replayed_part_corrupts_block (sum : List UInt8 → Hash) :
    ∃ source : PartSet, newPartSetFromData sum [0, 1] 1 = .ok source ∧
      ∃ honest : Part, source.parts[0]? = some (some honest) ∧
        ∃ first second : PartSet,
          (newPartSetFromHeader (header (some source))).addPart (Part.verifyProof sum)
              { honest with index := 1 } = (first, true, none) ∧
            first.addPart (Part.verifyProof sum) honest = (second, true, none) ∧
            second.isComplete = true ∧
            ∀ sizes : List Nat, (∀ size ∈ sizes, 0 < size) → 2 < sizes.length →
              (second.getReader >>= PartSetReader.readAll sizes) = .ok (some [0, 0]) := by
  obtain ⟨source, built, total, -, -, partsOf⟩ :=
    @newPartSetFromData_eq_ok [0, 1] 1 sum (by decide) (by simp) (by simp)
  have twoParts : source.total = 2 := by
    rw [total]
    rfl
  obtain ⟨honest, found, honestIndex, honestBytes, verified⟩ := partsOf 0 (by omega)
  have firstBytes : honest.bytes = [0] := by
    rw [honestBytes]
    rfl
  let forged : Part := { honest with index := 1 }
  let start := newPartSetFromHeader (header (some source))
  have startWellFormed : start.WellFormed := newPartSetFromHeader_wellFormed _
  have startParts : start.parts = [none, none] := by
    simp [start, newPartSetFromHeader, header, twoParts]
  -- the forged part goes into the empty slot 1 of the fresh part set
  let first : PartSet := { start with parts := [none, some forged], count := 1 }
  have forgedStored : start.addPart (Part.verifyProof sum) forged = (first, true, none) := by
    rw [@addPart_relabelled sum start honest 1 verified (by simp [start, newPartSetFromHeader,
      header, twoParts]) (by rw [startParts]; rfl), startParts]
    rfl
  -- the honest part then fills the empty slot 0
  let second : PartSet := { start with parts := [some honest, some forged], count := 2 }
  have honestStored : first.addPart (Part.verifyProof sum) honest = (second, true, none) := by
    have stored := @addPart_of_empty (Part.verifyProof sum) first honest
      (by simp [first, start, newPartSetFromHeader, header, twoParts, honestIndex])
      (by rw [honestIndex]; rfl) verified
    rw [stored, honestIndex]
    rfl
  have secondWellFormed : second.WellFormed := by
    have kept := @addPart_wellFormed (Part.verifyProof sum) _
      (@addPart_wellFormed (Part.verifyProof sum) _ startWellFormed forged) honest
    rwa [forgedStored, honestStored] at kept
  have complete : second.isComplete = true := by
    simp [second, start, newPartSetFromHeader, header, twoParts, isComplete]
  have secondBytes : second.bytes = [0, 0] := by
    simp [second, forged, bytes, firstBytes]
  refine ⟨source, built, honest, found, first, second, forgedStored, honestStored, complete, ?_⟩
  intro sizes positive enough
  rw [getReader_readAll secondWellFormed complete
    (by simp [second, start, newPartSetFromHeader, header, twoParts]) positive
    (by rw [secondBytes]; exact enough), secondBytes]

end Kardia
