import Mathlib

namespace SlotArray

/-!
# Weighted slot arrays

A slot array is a fixed-length list of optional entries, one slot per
participant, and its occupied weight is the total weight of the participants
whose slot is filled.  Tallies of this kind count every participant at most
once however often its slot is written, which is what a vote tally relies on.

The lemmas describe how the occupied weight changes when one slot is filled,
when a filled slot is overwritten, and when a second array is laid over the
first.
-/

variable {α β : Type _}

/-- The weight of the occupied slots, the first slot standing at an offset. -/
def occupiedWeightFrom (weight : Nat → Int) : Nat → List (Option α) → Int
  | _, [] => 0
  | offset, slot :: rest =>
      (if slot.isSome then weight offset else 0) +
        occupiedWeightFrom weight (offset + 1) rest

/-- The weight of the occupied slots. -/
def occupiedWeight (weight : Nat → Int) (slots : List (Option α)) : Int :=
  occupiedWeightFrom weight 0 slots

/-- The occupancy pattern: which slots are filled. -/
def occupancy (slots : List (Option α)) : List Bool :=
  slots.map Option.isSome

/--
Lay the entries of a second array over the first: every filled slot of the
overlay replaces the slot at the same index, the other slots are kept.
-/
def overlay : List (Option α) → List (Option α) → List (Option α)
  | [], _ => []
  | slots, [] => slots
  | slot :: rest, layer :: layerRest => (layer <|> slot) :: overlay rest layerRest

@[simp] theorem occupiedWeightFrom_nil
    (weight : Nat → Int)
    (offset : Nat) :
    occupiedWeightFrom weight offset ([] : List (Option α)) = 0 :=
  rfl

@[simp] theorem occupancy_length
    (slots : List (Option α)) :
    (occupancy slots).length = slots.length := by
  simp [occupancy]

/-- A bit of the occupancy pattern, read with a default, says whether a slot is filled. -/
theorem occupancy_getD
    (slots : List (Option α))
    (index : Nat) :
    (occupancy slots).getD index false = (slots[index]?.bind id).isSome := by
  cases slot : slots[index]? with
  | none =>
      simp [occupancy, slot]
  | some entry =>
      cases entry <;> simp [occupancy, slot]

/-- The occupied weight depends on the occupancy pattern alone. -/
theorem occupiedWeightFrom_eq_of_occupancy_eq
    (weight : Nat → Int)
    {first : List (Option α)}
    {second : List (Option β)}
    (sameOccupancy : occupancy first = occupancy second)
    (offset : Nat) :
    occupiedWeightFrom weight offset first =
      occupiedWeightFrom weight offset second := by
  induction first generalizing second offset with
  | nil =>
      cases second with
      | nil =>
          rfl
      | cons _ _ =>
          simp [occupancy] at sameOccupancy
  | cons slot rest inductionHypothesis =>
      cases second with
      | nil =>
          simp [occupancy] at sameOccupancy
      | cons otherSlot otherRest =>
          simp only [occupancy, List.map_cons, List.cons.injEq] at sameOccupancy
          obtain ⟨headSame, restSame⟩ := sameOccupancy
          simp only [occupiedWeightFrom, headSame,
            inductionHypothesis restSame (offset + 1)]

/-- An array of empty slots weighs nothing. -/
@[simp] theorem occupiedWeightFrom_replicate_none
    (weight : Nat → Int)
    (count offset : Nat) :
    occupiedWeightFrom weight offset (List.replicate count (none : Option α)) = 0 := by
  induction count generalizing offset with
  | zero =>
      rfl
  | succ count inductionHypothesis =>
      simp [List.replicate_succ, occupiedWeightFrom, inductionHypothesis]

/-- Filling an empty slot adds that slot's weight. -/
theorem occupiedWeightFrom_set_of_none
    (weight : Nat → Int)
    {slots : List (Option α)}
    {index : Nat}
    (empty : slots[index]? = some none)
    (entry : α)
    (offset : Nat) :
    occupiedWeightFrom weight offset (slots.set index (some entry)) =
      occupiedWeightFrom weight offset slots + weight (offset + index) := by
  induction slots generalizing index offset with
  | nil =>
      simp at empty
  | cons slot rest inductionHypothesis =>
      cases index with
      | zero =>
          simp only [List.getElem?_cons_zero, Option.some.injEq] at empty
          subst slot
          simp only [List.set_cons_zero, occupiedWeightFrom, Option.isSome_some,
            ↓reduceIte, Option.isSome_none, Bool.false_eq_true, Nat.add_zero]
          ring
      | succ index =>
          simp only [List.getElem?_cons_succ] at empty
          simp only [List.set_cons_succ, occupiedWeightFrom,
            inductionHypothesis empty (offset + 1)]
          rw [Nat.add_assoc, Nat.add_comm 1 index]
          ring

/-- Overwriting a filled slot keeps the occupancy pattern. -/
theorem occupancy_set_of_isSome
    {slots : List (Option α)}
    {index : Nat}
    {entry : α}
    (filled : (slots[index]?.bind id).isSome) :
    occupancy (slots.set index (some entry)) = occupancy slots := by
  induction slots generalizing index with
  | nil =>
      simp at filled
  | cons slot rest inductionHypothesis =>
      cases index with
      | zero =>
          cases slot with
          | none =>
              simp at filled
          | some _ =>
              simp [occupancy]
      | succ index =>
          simp only [List.getElem?_cons_succ] at filled
          have restSame := inductionHypothesis filled
          simp only [occupancy] at restSame ⊢
          simp [restSame]

/-- A filled slot lies below the end of the array. -/
theorem lt_length_of_isSome
    {slots : List (Option α)}
    {index : Nat}
    (filled : (slots[index]?.bind id).isSome) :
    index < slots.length := by
  cases slot : slots[index]? with
  | none =>
      simp [slot] at filled
  | some _ =>
      exact (List.getElem?_eq_some_iff.mp slot).1

/-- Writing an entry into a slot leaves every filled slot filled. -/
theorem isSome_set_of_isSome
    {slots : List (Option α)}
    {other : Nat}
    (filled : (slots[other]?.bind id).isSome)
    (index : Nat)
    (entry : α) :
    ((slots.set index (some entry))[other]?.bind id).isSome := by
  rw [List.getElem?_set]
  split
  · rename_i sameIndex
    subst sameIndex
    simp [lt_length_of_isSome filled]
  · exact filled

/-- An entry found after a write is the written one or was there before. -/
theorem eq_or_getElem?_of_set
    {slots : List (Option α)}
    {index other : Nat}
    {entry found : α}
    (stored : (slots.set index (some entry))[other]? = some (some found)) :
    (other = index ∧ found = entry) ∨ slots[other]? = some (some found) := by
  rw [List.getElem?_set] at stored
  split at stored
  · rename_i sameIndex
    split at stored
    · cases stored
      exact .inl ⟨sameIndex.symm, rfl⟩
    · cases stored
  · exact .inr stored

/-- Two arrays of one occupancy pattern fill the same slots. -/
theorem isSome_iff_of_occupancy_eq
    {first second : List (Option α)}
    (sameOccupancy : occupancy first = occupancy second)
    (index : Nat) :
    (first[index]?.bind id).isSome = (second[index]?.bind id).isSome := by
  rw [← occupancy_getD, ← occupancy_getD, sameOccupancy]

/-- Filling an empty slot sets its bit of the occupancy pattern. -/
theorem occupancy_set_of_none
    {slots : List (Option α)}
    (index : Nat)
    (entry : α) :
    occupancy (slots.set index (some entry)) = (occupancy slots).set index true := by
  simp [occupancy, List.map_set]

/-- An overlay has the length of the array it is laid on. -/
@[simp] theorem overlay_length
    (slots layer : List (Option α)) :
    (overlay slots layer).length = slots.length := by
  induction slots generalizing layer with
  | nil =>
      rfl
  | cons slot rest inductionHypothesis =>
      cases layer with
      | nil =>
          rfl
      | cons _ layerRest =>
          simp [overlay, inductionHypothesis]

/-- A slot of an overlay holds the overlaid entry when there is one. -/
theorem overlay_getElem?
    (slots layer : List (Option α))
    (index : Nat) :
    (overlay slots layer)[index]? =
      (slots[index]?).map fun slot => (layer[index]?.bind id) <|> slot := by
  induction slots generalizing layer index with
  | nil =>
      rfl
  | cons slot rest inductionHypothesis =>
      cases layer with
      | nil =>
          cases index <;> simp [overlay]
      | cons layerSlot layerRest =>
          cases index with
          | zero =>
              simp [overlay]
          | succ index =>
              simp [overlay, inductionHypothesis]

/--
An overlay whose filled slots are all filled below keeps the occupancy
pattern.
-/
theorem occupancy_overlay_of_subset
    {slots layer : List (Option α)}
    (covered :
      ∀ (index : Nat) (entry : α),
        layer[index]? = some (some entry) →
        (slots[index]?.bind id).isSome) :
    occupancy (overlay slots layer) = occupancy slots := by
  induction slots generalizing layer with
  | nil =>
      rfl
  | cons slot rest inductionHypothesis =>
      cases layer with
      | nil =>
          rfl
      | cons layerSlot layerRest =>
          have restCovered :
              ∀ (index : Nat) (entry : α),
                layerRest[index]? = some (some entry) →
                (rest[index]?.bind id).isSome := by
            intro index entry layerAt
            exact covered (index + 1) entry (by simpa using layerAt)
          have restSame := inductionHypothesis restCovered
          simp only [occupancy] at restSame
          cases layerSlot with
          | none =>
              simp [overlay, occupancy, restSame]
          | some entry =>
              have headFilled := covered 0 entry rfl
              cases slot with
              | none =>
                  simp at headFilled
              | some _ =>
                  simp [overlay, occupancy, restSame]

end SlotArray
