import Kardia.ValidatorSetUpdate
import Kardia.Runs

namespace Kardia

/-!
# The priority window and int64 priorities

computeMaxMinPriorityDiff starts its scan from math.MaxInt64 as the maximum
and math.MinInt64 as the minimum.  No int64 priority lies outside them, so
the scan ends where it started, and MaxInt64 - MinInt64 wraps to -1: the
function returns 1 for every set.  RescalePriorities then never rescales,
and the window PriorityWindowSizeFactor * TotalVotingPower bounds nothing.

Without the window, only centring keeps the priorities in range.  A new
validator starts at -(U + U >> 3), with U the total before the removals of
the same change set, so that removing a validator of almost all the power
while adding one of power 1 leaves a spread of the removed power among
validators of power 1.  Repeating it lifts one validator's priority past
MaxInt64: shiftByAvgProposerPriority clips it, and the unchecked addition of
incrementProposerPriority wraps it to MinInt64.
-/

/-- A value an int64 holds. -/
def InInt64 (value : Int) : Prop :=
  minInt64 ≤ value ∧ value ≤ maxInt64

theorem wrapInt64_eq_self {value : Int} (inRange : InInt64 value) : wrapInt64 value = value := by
  unfold wrapInt64
  apply Int.bmod_eq_of_le
  · have lower := inRange.1
    unfold minInt64 at lower
    push_cast
    omega
  · have upper := inRange.2
    unfold maxInt64 at upper
    push_cast
    omega

namespace ValidatorSet

variable {vals : ValidatorSet}

/-- The scan of computeMaxMinPriorityDiff over int64 priorities ends at its start. -/
theorem maxMinScan_eq_start
    (inRange : ∀ v ∈ vals.validators, InInt64 v.proposerPriority) :
    vals.validators.foldl
        (fun (bounds : Int × Int) (v : Validator) =>
          ((if v.proposerPriority > bounds.1 then v.proposerPriority else bounds.1),
            (if v.proposerPriority < bounds.2 then v.proposerPriority else bounds.2)))
        (maxInt64, minInt64) =
      (maxInt64, minInt64) := by
  apply Runs.invariant_of_foldl (· = (maxInt64, minInt64))
  · rintro bounds v member rfl
    have notAbove : ¬ v.proposerPriority > maxInt64 := not_lt.mpr (inRange v member).2
    have notBelow : ¬ v.proposerPriority < minInt64 := not_lt.mpr (inRange v member).1
    simp only [notAbove, notBelow, if_false]
  · rfl

/-- computeMaxMinPriorityDiff returns 1 for every nonempty set of int64 priorities. -/
theorem computeMaxMinPriorityDiff_eq_one
    (nonempty : vals.validators ≠ [])
    (inRange : ∀ v ∈ vals.validators, InInt64 v.proposerPriority) :
    computeMaxMinPriorityDiff vals = .ok 1 := by
  unfold computeMaxMinPriorityDiff
  rw [if_neg (by simpa using nonempty)]
  have scanned := maxMinScan_eq_start inRange
  -- the loop body of the source, with its lets, is the scan above
  simp only at scanned ⊢
  rw [scanned]
  decide

/-- RescalePriorities changes no nonempty set of int64 priorities for a positive window. -/
theorem rescalePriorities_eq_self
    {diffMax : Int}
    (nonempty : vals.validators ≠ [])
    (inRange : ∀ v ∈ vals.validators, InInt64 v.proposerPriority)
    (positive : 1 ≤ diffMax) :
    vals.rescalePriorities diffMax = .ok vals := by
  unfold rescalePriorities
  rw [if_neg (by simpa using nonempty), if_neg (by omega),
    computeMaxMinPriorityDiff_eq_one nonempty inRange]
  simp only [Except.map, gt_iff_lt]
  rw [if_neg (by omega)]

/-- A successful UpdateWithChangeSet as a step of a run; an error or a panic ends the run. -/
def updateStep (vs : ValidatorSet) (changes : List Validator) :
    Except (ValidatorSetPanic ⊕ UpdateError) ValidatorSet :=
  match vs.UpdateWithChangeSet changes with
  | .error panic => .error (.inl panic)
  | .ok (_, some err) => .error (.inr err)
  | .ok (next, none) => .ok next

end ValidatorSet

/-! ## A spread beyond the window -/

namespace Window

/-- A of power 1 and B of power 100. -/
def genesis : List Validator :=
  [⟨⟨1⟩, 1, 0⟩, ⟨⟨2⟩, 100, 0⟩]

/-- B removed and C of power 1 added. -/
def changes : List Validator :=
  [⟨⟨2⟩, 0, 0⟩, ⟨⟨3⟩, 1, 0⟩]

end Window

/--
NewValidatorSet and one change set: the two validators of power 1 end 115
apart, more than PriorityWindowSizeFactor times their total of 2.  The
cached total is the sum, and the priorities sum to 1.
-/
theorem priority_window_exceeded :
    newValidatorSet Window.genesis =
        .ok ⟨[⟨⟨2⟩, 100, -1⟩, ⟨⟨1⟩, 1, 1⟩], some ⟨⟨2⟩, 100, -1⟩, 101⟩ ∧
      ValidatorSet.UpdateWithChangeSet ⟨[⟨⟨2⟩, 100, -1⟩, ⟨⟨1⟩, 1, 1⟩], some ⟨⟨2⟩, 100, -1⟩, 101⟩
          Window.changes =
        .ok (⟨[⟨⟨1⟩, 1, 58⟩, ⟨⟨3⟩, 1, -57⟩], some ⟨⟨2⟩, 100, -1⟩, 2⟩, none) ∧
      priorityWindowSizeFactor * 2 < 58 - (-57) := by
  decide +kernel

/-! ## A priority past MaxInt64 -/

namespace Overflow

/-- Validator 1 of power 1 beside validator 1000 of almost all the power. -/
def genesis : List Validator :=
  [⟨⟨1⟩, 1, 0⟩, ⟨⟨1000⟩, maxTotalVotingPower - 1, 0⟩]

/--
Fourteen change sets: each removes the validator of almost all the power and
adds another, adds a validator of power 1, and removes the validators of
power 1 other than validator 1 whose priority is positive.
-/
def changeSets : List (List Validator) :=
  [[⟨⟨1000⟩, 0, 0⟩, ⟨⟨2⟩, 1, 0⟩, ⟨⟨1001⟩, maxTotalVotingPower - 2, 0⟩],
    [⟨⟨1001⟩, 0, 0⟩, ⟨⟨3⟩, 1, 0⟩, ⟨⟨1002⟩, maxTotalVotingPower - 3, 0⟩],
    [⟨⟨1002⟩, 0, 0⟩, ⟨⟨2⟩, 0, 0⟩, ⟨⟨4⟩, 1, 0⟩, ⟨⟨1003⟩, maxTotalVotingPower - 3, 0⟩],
    [⟨⟨1003⟩, 0, 0⟩, ⟨⟨5⟩, 1, 0⟩, ⟨⟨1004⟩, maxTotalVotingPower - 4, 0⟩],
    [⟨⟨1004⟩, 0, 0⟩, ⟨⟨3⟩, 0, 0⟩, ⟨⟨6⟩, 1, 0⟩, ⟨⟨1005⟩, maxTotalVotingPower - 4, 0⟩],
    [⟨⟨1005⟩, 0, 0⟩, ⟨⟨7⟩, 1, 0⟩, ⟨⟨1006⟩, maxTotalVotingPower - 5, 0⟩],
    [⟨⟨1006⟩, 0, 0⟩, ⟨⟨4⟩, 0, 0⟩, ⟨⟨8⟩, 1, 0⟩, ⟨⟨1007⟩, maxTotalVotingPower - 5, 0⟩],
    [⟨⟨1007⟩, 0, 0⟩, ⟨⟨9⟩, 1, 0⟩, ⟨⟨1008⟩, maxTotalVotingPower - 6, 0⟩],
    [⟨⟨1008⟩, 0, 0⟩, ⟨⟨5⟩, 0, 0⟩, ⟨⟨10⟩, 1, 0⟩, ⟨⟨1009⟩, maxTotalVotingPower - 6, 0⟩],
    [⟨⟨1009⟩, 0, 0⟩, ⟨⟨6⟩, 0, 0⟩, ⟨⟨11⟩, 1, 0⟩, ⟨⟨1010⟩, maxTotalVotingPower - 6, 0⟩],
    [⟨⟨1010⟩, 0, 0⟩, ⟨⟨12⟩, 1, 0⟩, ⟨⟨1011⟩, maxTotalVotingPower - 7, 0⟩],
    [⟨⟨1011⟩, 0, 0⟩, ⟨⟨7⟩, 0, 0⟩, ⟨⟨13⟩, 1, 0⟩, ⟨⟨1012⟩, maxTotalVotingPower - 7, 0⟩],
    [⟨⟨1012⟩, 0, 0⟩, ⟨⟨8⟩, 0, 0⟩, ⟨⟨14⟩, 1, 0⟩, ⟨⟨1013⟩, maxTotalVotingPower - 7, 0⟩],
    [⟨⟨1013⟩, 0, 0⟩, ⟨⟨9⟩, 0, 0⟩, ⟨⟨15⟩, 1, 0⟩, ⟨⟨1014⟩, maxTotalVotingPower - 7, 0⟩]]

end Overflow

/--
After NewValidatorSet and fourteen successful change sets, centring has
clipped validator 1's priority at MaxInt64; one IncrementProposerPriority
later the unchecked addition of its power has wrapped it to MinInt64.
-/
theorem unchecked_priority_addition_overflows :
    ∃ start reached next,
      newValidatorSet Overflow.genesis = .ok start ∧
        Runs.run ValidatorSet.updateStep start Overflow.changeSets = .ok reached ∧
        reached.IncrementProposerPriority 1 = .ok next ∧
        ⟨⟨1⟩, 1, maxInt64⟩ ∈ reached.validators ∧
        ⟨⟨1⟩, 1, minInt64⟩ ∈ next.validators := by
  -- the run evaluated by the kernel, the results read off by cases
  have evaluated :
      (match newValidatorSet Overflow.genesis with
        | .ok start =>
            match Runs.run ValidatorSet.updateStep start Overflow.changeSets with
            | .ok reached =>
                match reached.IncrementProposerPriority 1 with
                | .ok next =>
                    reached.validators.contains ⟨⟨1⟩, 1, maxInt64⟩ &&
                      next.validators.contains ⟨⟨1⟩, 1, minInt64⟩
                | .error _ => false
            | .error _ => false
        | .error _ => false) = true := by
    decide +kernel
  split at evaluated
  case h_2 => cases evaluated
  rename_i start created
  split at evaluated
  case h_2 => cases evaluated
  rename_i reached ran
  split at evaluated
  case h_2 => cases evaluated
  rename_i next incremented
  simp only [Bool.and_eq_true, List.contains_iff_mem] at evaluated
  exact ⟨start, reached, next, created, ran, incremented, evaluated⟩

end Kardia
