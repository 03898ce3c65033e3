import Mathlib

namespace Loops

/-!
# Loops that exit from their body

A loop of the form "for { ... if done { return result } ... }" runs a body that
either ends the loop with a result or hands the next state to the following
iteration.  Here the body returns the result as the error of Except, so that
an exit is any early return, and the loop is run with fuel: it answers none
when the fuel runs out before the body exits.

The rules are those a proof about such a loop needs: what every iteration
preserves holds at every state the loop reaches and at the one it exits from;
a measure that every iteration lowers bounds the fuel the loop needs, so the
loop exits; and more fuel never changes an answer.
-/

variable {σ α : Type _} (body : σ → Except α σ)

/-- The loop with fuel: one iteration per unit, none once the fuel is used up. -/
def loop : Nat → σ → Option α
  | 0, _ => none
  | fuel + 1, state =>
      match body state with
      | .error result => some result
      | .ok next => loop fuel next

/-- One iteration goes on from the first state to the second. -/
def Continues (state next : σ) : Prop :=
  body state = .ok next

/-- The states the loop reaches by iterations that go on. -/
def Reaches : σ → σ → Prop :=
  Relation.ReflTransGen (Continues body)

variable {body}

@[simp] theorem loop_zero (state : σ) : loop body 0 state = none := rfl

theorem loop_succ_of_error {state : σ} {result : α} (fuel : Nat)
    (exits : body state = .error result) :
    loop body (fuel + 1) state = some result := by
  simp only [loop, exits]

theorem loop_succ_of_ok {state next : σ} (fuel : Nat)
    (goesOn : body state = .ok next) :
    loop body (fuel + 1) state = loop body fuel next := by
  simp only [loop, goesOn]

/-- A loop that answers exits from a state it reaches. -/
theorem exits_of_loop_eq_some :
    ∀ {fuel : Nat} {state : σ} {result : α}, loop body fuel state = some result →
      ∃ last, Reaches body state last ∧ body last = .error result
  | 0, _, _, answered => by cases answered
  | fuel + 1, state, result, answered => by
      cases stepped : body state with
      | error exitResult =>
          rw [loop_succ_of_error fuel stepped] at answered
          cases answered
          exact ⟨state, Relation.ReflTransGen.refl, stepped⟩
      | ok next =>
          rw [loop_succ_of_ok fuel stepped] at answered
          obtain ⟨last, reaches, exits⟩ := exits_of_loop_eq_some answered
          exact ⟨last, Relation.ReflTransGen.head stepped reaches, exits⟩

/-- What every iteration that goes on preserves holds at every state the loop reaches. -/
theorem invariant_of_reaches {invariant : σ → Prop}
    (preserved : ∀ state next, invariant state → body state = .ok next → invariant next)
    {start state : σ} (initially : invariant start) (reaches : Reaches body start state) :
    invariant state := by
  induction reaches with
  | refl => exact initially
  | tail _ stepped holds => exact preserved _ _ holds stepped

/-- More fuel gives the same answer. -/
theorem loop_mono :
    ∀ {fuel more : Nat} {state : σ} {result : α}, fuel ≤ more →
      loop body fuel state = some result → loop body more state = some result
  | 0, _, _, _, _, answered => by cases answered
  | fuel + 1, more + 1, state, result, enough, answered => by
      cases stepped : body state with
      | error exitResult =>
          rw [loop_succ_of_error fuel stepped] at answered
          rw [loop_succ_of_error more stepped, answered]
      | ok next =>
          rw [loop_succ_of_ok fuel stepped] at answered
          rw [loop_succ_of_ok more stepped]
          exact loop_mono (Nat.le_of_succ_le_succ enough) answered
  | _ + 1, 0, _, _, enough, _ => absurd enough (Nat.not_succ_le_zero _)

/--
A loop whose every iteration that goes on lowers a measure exits: with more
fuel than the measure of the start it answers.
-/
theorem loop_isSome_of_measure (measure : σ → Nat)
    (lowers : ∀ state next, body state = .ok next → measure next < measure state) :
    ∀ {fuel : Nat} {state : σ}, measure state < fuel → ∃ result, loop body fuel state = some result
  | 0, _, enough => absurd enough (Nat.not_lt_zero _)
  | fuel + 1, state, enough => by
      cases stepped : body state with
      | error result => exact ⟨result, loop_succ_of_error fuel stepped⟩
      | ok next =>
          rw [loop_succ_of_ok fuel stepped]
          have lower := lowers state next stepped
          exact loop_isSome_of_measure measure lowers (by omega)

end Loops
