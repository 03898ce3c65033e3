import Kardia.PeerState

namespace Kardia

/-!
# Receiving an honest block

A node that has learnt a part set header fills an empty part set with the
parts it is sent, in whatever order and however often they arrive.  When they
are the parts of NewPartSetFromData, AddPart accepts each index the first time
it comes and ignores it after, never reports an invalid proof, and the part set
is complete exactly when every index has come.
-/

namespace PartSet

/-- GetPart: the part in a slot, nil for an empty one. -/
def getPart (partSet : PartSet) (index : Nat) : Option Part :=
  partSet.parts[index]?.join

/-- Offer parts one after another to AddPart: the part set after, and what AddPart returned for each. -/
def addParts (verifyProof : Hash → Part → Bool) :
    PartSet → List Part → PartSet × List (Bool × Option String)
  | partSet, [] => (partSet, [])
  | partSet, part :: parts =>
    let (next, added, error) := partSet.addPart verifyProof part
    let (final, results) := addParts verifyProof next parts
    (final, (added, error) :: results)

/-- A full part set whose part at every index carries that index and a proof that checks against its hash. -/
def Honest (sum : List UInt8 → Hash) (source : PartSet) : Prop :=
  ∀ index < source.total, ∃ part, source.parts[index]? = some (some part) ∧ part.index = index ∧
    Part.verifyProof sum source.hash part = true

/-- A part set under the header of source that holds exactly source's parts at the indices offered. -/
structure Receiving (source partSet : PartSet) (offered : Finset Nat) : Prop where
  total_eq : partSet.total = source.total
  hash_eq : partSet.hash = source.hash
  length_eq : partSet.parts.length = source.total
  count_eq : partSet.count = offered.card
  offered_lt : ∀ index ∈ offered, index < source.total
  slot_eq : ∀ index < source.total,
    partSet.parts[index]? = if index ∈ offered then source.parts[index]? else some none

theorem receiving_newPartSetFromHeader (source : PartSet) :
    Receiving source (newPartSetFromHeader (header (some source))) ∅ where
  total_eq := rfl
  hash_eq := rfl
  length_eq := by simp [newPartSetFromHeader, header]
  count_eq := rfl
  offered_lt := by simp
  slot_eq := by
    intro index inRange
    simp [newPartSetFromHeader, header, inRange]

/-- Bit b of a word built by setting bit p for each p below width where chosen p holds. -/
theorem testBit_foldl_setBits (chosen : Nat → Bool) (bit : Nat) :
    ∀ width : Nat, ((List.range width).foldl
        (fun word position => if chosen position then word ||| 2 ^ position else word) 0).testBit bit =
      (decide (bit < width) && chosen bit) := by
  intro width
  induction width with
  | zero => simp
  | succ width inductionHypothesis =>
      rw [List.range_succ, List.foldl_append, List.foldl_cons, List.foldl_nil]
      by_cases same : bit = width
      · subst same
        cases present : chosen bit <;> simp [present, Nat.testBit_or, inductionHypothesis]
      · have below : decide (bit ≤ width) = decide (bit < width) := by
          simp only [decide_eq_decide]
          omega
        split_ifs <;> simp [Nat.testBit_or, Ne.symm same, inductionHypothesis, below]

/-- The bits of a part set's BitArray are the slots that hold a part. -/
theorem bitsOf_bitArray {partSet : PartSet} (slots : partSet.parts.length = partSet.total) :
    BitArray.bitsOf partSet.bitArray = partSet.parts.map Option.isSome := by
  unfold PartSet.bitArray
  split_ifs with empty
  · rw [empty] at slots
    simp [BitArray.bitsOf, List.eq_nil_of_length_eq_zero slots]
  · apply List.ext_getElem
    · simp [BitArray.bitsOf, slots]
    · intro index inBits _
      have inRange : index < partSet.total := by simpa [BitArray.bitsOf] using inBits
      have word : index / 64 < (partSet.total + 63) / 64 := by omega
      simp only [BitArray.bitsOf, BitArray.toBools, List.getElem_map, List.getElem_range,
        List.getElem?_map, List.getElem?_range word, Option.map_some, Option.getD_some,
        PartSet.partsWord, testBit_foldl_setBits]
      have position : index / 64 * 64 + index % 64 = index := by omega
      rw [position]
      simp [Nat.mod_lt, List.getD_eq_getElem?_getD, List.getElem?_eq_getElem (slots ▸ inRange)]

section Honest

variable {sum : List UInt8 → Hash} {source : PartSet}

theorem Honest.partAt (honest : Honest sum source) {index : Nat} (inRange : index < source.total) :
    ∃ part, source.getPart index = some part ∧ source.parts[index]? = some (some part) ∧
      part.index = index ∧ Part.verifyProof sum source.hash part = true := by
  obtain ⟨part, found, partIndex, verified⟩ := honest index inRange
  exact ⟨part, by simp [getPart, found], found, partIndex, verified⟩

/--
Offering the part of an honest source at an index to a part set receiving it
stores the part the first time and leaves the part set as it was after, with
no error either way.
-/
theorem Receiving.addPart (honest : Honest sum source) {partSet : PartSet} {offered : Finset Nat}
    (receiving : Receiving source partSet offered) {index : Nat} (inRange : index < source.total)
    {part : Part} (found : source.getPart index = some part) :
    ∃ next, partSet.addPart (Part.verifyProof sum) part = (next, decide (index ∉ offered), none) ∧
      Receiving source next (insert index offered) := by
  obtain ⟨honestPart, gotten, stored, partIndex, verified⟩ := honest.partAt inRange
  obtain rfl : part = honestPart := Option.some.inj (found.symm.trans gotten)
  have slot := receiving.slot_eq index inRange
  by_cases seen : index ∈ offered
  · -- the slot already holds the part: AddPart returns (false, nil)
    refine ⟨partSet, ?_, by rwa [Finset.insert_eq_of_mem seen]⟩
    rw [if_pos seen, stored] at slot
    unfold PartSet.addPart
    rw [if_neg (by rw [receiving.total_eq, partIndex]; omega), partIndex, slot]
    simp [seen]
  · rw [if_neg seen] at slot
    have inSlots : index < partSet.parts.length := by
      rw [receiving.length_eq]
      exact inRange
    refine ⟨{ partSet with
        parts := partSet.parts.set index (some part)
        count := partSet.count + 1 }, ?_, ?_⟩
    · rw [addPart_of_empty (by rw [receiving.total_eq, partIndex]; exact inRange)
        (by rw [partIndex]; exact slot) (by rw [receiving.hash_eq]; exact verified), partIndex]
      simp [seen]
    · refine ⟨receiving.total_eq, receiving.hash_eq, by simp [receiving.length_eq], ?_, ?_, ?_⟩
      · rw [Finset.card_insert_of_notMem seen, receiving.count_eq]
      · intro other member
        rcases Finset.mem_insert.mp member with rfl | old
        · exact inRange
        · exact receiving.offered_lt other old
      · intro other otherInRange
        by_cases same : other = index
        · subst same
          simp [inSlots, stored]
        · rw [List.getElem?_set_ne (Ne.symm same), receiving.slot_eq other otherInRange]
          simp [Finset.mem_insert, same]

/--
Offering the parts of an honest source at the indices offers, in that order:
each index is stored the first time it comes and ignored after, and no offer
fails.
-/
theorem Receiving.addParts_eq (honest : Honest sum source) :
    ∀ (offers : List Nat) {partSet : PartSet} {offered : Finset Nat},
      Receiving source partSet offered → (∀ index ∈ offers, index < source.total) →
      ∃ final, addParts (Part.verifyProof sum) partSet (offers.filterMap source.getPart) =
          (final, offers.mapIdx fun position index =>
            (decide (index ∉ offered ∧ index ∉ offers.take position), none)) ∧
        Receiving source final (offered ∪ offers.toFinset) := by
  intro offers
  induction offers with
  | nil =>
      intro partSet offered receiving _
      exact ⟨partSet, rfl, by simpa using receiving⟩
  | cons index rest inductionHypothesis =>
      intro partSet offered receiving inRange
      obtain ⟨part, gotten, -⟩ := honest.partAt (inRange index List.mem_cons_self)
      obtain ⟨next, stepped, nextReceiving⟩ :=
        receiving.addPart honest (inRange index List.mem_cons_self) gotten
      obtain ⟨final, ran, finalReceiving⟩ := inductionHypothesis nextReceiving
        fun other member => inRange other (List.mem_cons_of_mem index member)
      refine ⟨final, ?_, ?_⟩
      · rw [List.filterMap_cons_some gotten, List.mapIdx_cons]
        simp only [PartSet.addParts, stepped, ran, List.take_zero, List.not_mem_nil,
          not_false_eq_true, and_true, List.take_succ_cons, List.mem_cons, Finset.mem_insert, not_or,
          and_assoc, and_left_comm]
      · rwa [List.toFinset_cons, Finset.union_insert, ← Finset.insert_union]

/-- A part set receiving an honest source holds a part exactly at the indices offered. -/
theorem Receiving.parts_isSome (honest : Honest sum source) {partSet : PartSet}
    {offered : Finset Nat} (receiving : Receiving source partSet offered) :
    partSet.parts.map Option.isSome = (List.range source.total).map fun index => decide (index ∈ offered) := by
  apply List.ext_getElem
  · simp [receiving.length_eq]
  · intro index inParts _
    have inRange : index < source.total := by simpa [receiving.length_eq] using inParts
    obtain ⟨part, -, stored, -⟩ := honest.partAt inRange
    have slot := receiving.slot_eq index inRange
    rw [List.getElem?_eq_getElem (by simpa using inParts)] at slot
    simp only [List.getElem_map, List.getElem_range]
    split_ifs at slot with seen
    · simp [Option.some.inj (slot.trans stored), seen]
    · simp [Option.some.inj slot, seen]

/-- A part set receiving a source is complete exactly when every index has been offered. -/
theorem Receiving.isComplete_iff {partSet : PartSet} {offered : Finset Nat}
    (receiving : Receiving source partSet offered) :
    partSet.isComplete = true ↔ ∀ index < source.total, index ∈ offered := by
  have within : offered ⊆ Finset.range source.total :=
    fun index member => Finset.mem_range.mpr (receiving.offered_lt index member)
  simp only [isComplete, beq_iff_eq, receiving.count_eq, receiving.total_eq]
  constructor
  · intro full index inRange
    have everything : offered = Finset.range source.total :=
      Finset.eq_of_subset_of_card_le within (by rw [Finset.card_range, full])
    rw [everything]
    exact Finset.mem_range.mpr inRange
  · intro every
    have everything : offered = Finset.range source.total :=
      Finset.Subset.antisymm within fun index member => every index (Finset.mem_range.mp member)
    rw [everything, Finset.card_range]

end Honest

end PartSet

open PartSet in
/--
The parts of NewPartSetFromData, offered to a part set built from its header
in any order and with any repetitions: AddPart returns (true, nil) for an
index the first time and (false, nil) after, the count is the number of
distinct indices offered, the bit array marks exactly them, and the part set
is complete exactly when every index has been offered.
-/
theorem honest_parts_complete_part_set (sum : List UInt8 → Hash) {data : List UInt8}
    {partSize : Nat} (nonempty : data ≠ []) (positive : 0 < partSize)
    (noWrap : data.length + partSize - 1 < 2 ^ 32) :
    ∃ source, newPartSetFromData sum data partSize = .ok source ∧
      ∀ offers : List Nat, (∀ index ∈ offers, index < source.total) →
        ∃ final, addParts (Part.verifyProof sum) (newPartSetFromHeader (header (some source)))
              (offers.filterMap source.getPart) =
            (final, offers.mapIdx fun position index => (decide (index ∉ offers.take position), none)) ∧
          final.count = offers.toFinset.card ∧
          BitArray.bitsOf final.bitArray = (List.range source.total).map (fun index => decide (index ∈ offers)) ∧
          (final.isComplete = true ↔ ∀ index < source.total, index ∈ offers) := by
  obtain ⟨source, built, -, -, -, partsOf⟩ := newPartSetFromData_eq_ok sum positive nonempty (by omega)
  have honest : Honest sum source := by
    intro index inRange
    obtain ⟨part, found, partIndex, -, verified⟩ := partsOf index inRange
    exact ⟨part, found, partIndex, verified⟩
  refine ⟨source, built, fun offers inRange => ?_⟩
  obtain ⟨final, ran, receiving⟩ :=
    Receiving.addParts_eq honest offers (receiving_newPartSetFromHeader source) inRange
  rw [Finset.empty_union] at receiving
  refine ⟨final, by simpa using ran, receiving.count_eq, ?_, ?_⟩
  · rw [bitsOf_bitArray (receiving.length_eq.trans receiving.total_eq.symm),
      receiving.parts_isSome honest]
    simp
  · rw [receiving.isComplete_iff]
    simp

open PartSet in
theorem two_byte_block_parts_accepted :
    ([0, 1] : List UInt8) ≠ [] ∧ 0 < 1 ∧ ([0, 1] : List UInt8).length + 1 - 1 < 2 ^ 32 ∧
      ∃ source, newPartSetFromData (fun _ => Hash.zero) [0, 1] 1 = .ok source ∧
        ∀ offers : List Nat, (∀ index ∈ offers, index < source.total) →
          ∃ final, addParts (Part.verifyProof fun _ => Hash.zero)
                (newPartSetFromHeader (header (some source))) (offers.filterMap source.getPart) =
              (final, offers.mapIdx fun position index => (decide (index ∉ offers.take position), none)) ∧
            final.count = offers.toFinset.card ∧
            BitArray.bitsOf final.bitArray = (List.range source.total).map (fun index => decide (index ∈ offers)) ∧
            (final.isComplete = true ↔ ∀ index < source.total, index ∈ offers) :=
  ⟨by decide, by decide, by decide,
    honest_parts_complete_part_set (fun _ => Hash.zero) (by decide) (by decide) (by decide)⟩

end Kardia
