import Mathlib

namespace Runs

/-!
# Runs of partial step functions

A component that is driven by a sequence of calls, each of which either
returns the next state or fails (a panic, a rejected request that aborts the
run), is a partial step function.  A run feeds it a list of inputs and stops
at the first failure.

This module gives the rules the proofs of such components rest on: an
invariant that every successful step preserves holds at the end of every
successful run; a run whose steps all succeed while they keep an invariant
succeeds; a rank that no step lowers does not decrease along a run; and every
state a run reaches is reachable through the step relation.  A step function
that commutes with an abstraction of its states is simulated by the abstract
one, run for run.  A loop that
cannot fail is a fold, and keeps an invariant the same way.  Every input of
a successful run had a successful step, and a run of checked additions
returns the sum of what it added.
Before them stand the inversions of a successful bind and map, with which a
step written in do notation is taken apart without unfolding the monad, the
guard that returns an error when a condition holds, and the result of a mapM
whose calls all succeed.  Last comes the log a run writes, one entry a step:
the last entry about a key, which an entry about the key replaces and an entry
about another leaves.  For an interpreter written in the state monad with
exceptions, a throw fails in the state it is run from and a catch runs its
handler from the state the failure left.
-/

variable {σ ι ε α β : Type _}

/-- A successful bind is a successful first computation continued successfully. -/
theorem bind_eq_ok
    {first : Except ε α}
    {rest : α → Except ε β}
    {result : β}
    (succeeded : (first >>= rest) = .ok result) :
    ∃ value, first = .ok value ∧ rest value = .ok result := by
  cases firstResult : first with
  | error failure =>
      rw [firstResult] at succeeded
      cases succeeded
  | ok value =>
      rw [firstResult] at succeeded
      exact ⟨value, rfl, succeeded⟩

/-- A failed bind whose continuation returns is a failure of the first computation. -/
theorem bind_pure_eq_error
    {first : Except ε α}
    {next : α → β}
    {failure : ε}
    (failed : (first >>= fun value => pure (next value)) = .error failure) :
    first = .error failure := by
  cases firstResult : first with
  | error firstFailure =>
      rw [firstResult] at failed
      cases failed
      rfl
  | ok value =>
      rw [firstResult] at failed
      cases failed

/-- The guard "if bad { return err }": an error exactly when the condition holds. -/
def failIf (bad : Prop) [Decidable bad] (message : ε) : Except ε Unit :=
  if bad then .error message else .ok ()

@[simp] theorem failIf_eq_ok
    {bad : Prop}
    [Decidable bad]
    {message : ε} :
    failIf bad message = .ok () ↔ ¬ bad := by
  unfold failIf
  split_ifs with holds <;> simp [holds]

/-- A successful map is a successful computation with its result mapped. -/
theorem map_eq_ok
    {first : Except ε α}
    {transform : α → β}
    {result : β}
    (succeeded : first.map transform = .ok result) :
    ∃ value, first = .ok value ∧ transform value = result := by
  cases firstResult : first with
  | error failure =>
      rw [firstResult] at succeeded
      cases succeeded
  | ok value =>
      rw [firstResult] at succeeded
      cases succeeded
      exact ⟨value, rfl, rfl⟩

/-- A mapM whose every call succeeds returns the list of the results. -/
theorem mapM_eq_ok
    {call : α → Except ε β}
    {result : α → β}
    {items : List α}
    (succeeds : ∀ item ∈ items, call item = .ok (result item)) :
    items.mapM call = .ok (items.map result) := by
  induction items with
  | nil => rfl
  | cons item rest inductionHypothesis =>
      rw [List.mapM_cons, succeeds item List.mem_cons_self,
        inductionHypothesis fun other member => succeeds other (List.mem_cons_of_mem item member)]
      rfl

/-- Feed the inputs to the step function in order, stopping at the first error. -/
def run (step : σ → ι → Except ε σ) (start : σ) (inputs : List ι) : Except ε σ :=
  inputs.foldlM step start

/-- A run over a nonempty list takes its first step and continues from there. -/
theorem run_cons
    (step : σ → ι → Except ε σ)
    (start : σ)
    (input : ι)
    (rest : List ι) :
    run step start (input :: rest) =
      (step start input).bind fun next => run step next rest :=
  rfl

/-- A successful run over a nonempty list starts with a successful step. -/
theorem run_cons_eq_ok
    {step : σ → ι → Except ε σ}
    {start final : σ}
    {input : ι}
    {rest : List ι}
    (finished : run step start (input :: rest) = .ok final) :
    ∃ next, step start input = .ok next ∧ run step next rest = .ok final :=
  bind_eq_ok finished

/--
An invariant preserved by every successful step on an input of the run holds
after the run.
-/
theorem invariant_of_run_of_mem
    {step : σ → ι → Except ε σ}
    (invariant : σ → Prop)
    {inputs : List ι}
    (preserved :
      ∀ state input next,
        input ∈ inputs →
        invariant state →
        step state input = .ok next →
        invariant next)
    {start final : σ}
    (initially : invariant start)
    (finished : run step start inputs = .ok final) :
    invariant final := by
  induction inputs generalizing start with
  | nil =>
      cases finished
      exact initially
  | cons input rest inductionHypothesis =>
      obtain ⟨next, stepped, restFinished⟩ := run_cons_eq_ok finished
      have nextInvariant :=
        preserved start input next List.mem_cons_self initially stepped
      exact inductionHypothesis
        (fun state other next member => preserved state other next (List.mem_cons_of_mem input member))
        nextInvariant restFinished

/-- An invariant preserved by every successful step holds after every run. -/
theorem invariant_of_run
    {step : σ → ι → Except ε σ}
    (invariant : σ → Prop)
    (preserved :
      ∀ state input next,
        invariant state →
        step state input = .ok next →
        invariant next)
    {start final : σ}
    {inputs : List ι}
    (initially : invariant start)
    (finished : run step start inputs = .ok final) :
    invariant final :=
  invariant_of_run_of_mem invariant (fun state input next _ => preserved state input next)
    initially finished

/--
A loop that never fails is a fold; an invariant that its body keeps on every
element of the list holds after it.
-/
theorem invariant_of_foldl
    {step : σ → ι → σ}
    (invariant : σ → Prop)
    {inputs : List ι}
    (preserved : ∀ state input, input ∈ inputs → invariant state → invariant (step state input))
    {start : σ}
    (initially : invariant start) :
    invariant (inputs.foldl step start) := by
  induction inputs generalizing start with
  | nil => exact initially
  | cons input rest inductionHypothesis =>
      exact inductionHypothesis
        (fun state other member => preserved state other (List.mem_cons_of_mem input member))
        (preserved start input List.mem_cons_self initially)

/--
Two loops over the same inputs, one on abstract states, whose steps keep a
relation between their states: the states they end in are related.  The
concrete loop simulates the abstract one.
-/
theorem related_of_foldl
    {τ : Type _}
    {step : σ → ι → σ}
    {abstractStep : τ → ι → τ}
    (related : τ → σ → Prop)
    (preserved : ∀ abstract state input, related abstract state →
      related (abstractStep abstract input) (step state input))
    {inputs : List ι}
    {abstractStart : τ}
    {start : σ}
    (initially : related abstractStart start) :
    related (inputs.foldl abstractStep abstractStart) (inputs.foldl step start) := by
  induction inputs generalizing abstractStart start with
  | nil => exact initially
  | cons input rest inductionHypothesis =>
      exact inductionHypothesis (preserved abstractStart start input initially)

/-- Every input of a successful run is one on which a step succeeded. -/
theorem step_ok_of_run_of_mem
    {step : σ → ι → Except ε σ}
    {start final : σ}
    {inputs : List ι}
    (finished : run step start inputs = .ok final)
    {input : ι}
    (member : input ∈ inputs) :
    ∃ state next, step state input = .ok next := by
  induction inputs generalizing start with
  | nil => cases member
  | cons first rest inductionHypothesis =>
      obtain ⟨next, stepped, restFinished⟩ := run_cons_eq_ok finished
      rcases List.mem_cons.mp member with rfl | later
      · exact ⟨start, next, stepped⟩
      · exact inductionHypothesis restFinished later

/--
A run whose successful steps each add the value of their input to the state
returns the start plus the sum of the values.
-/
theorem run_eq_add_sum
    [AddMonoid α]
    {step : α → ι → Except ε α}
    (value : ι → α)
    {inputs : List ι}
    (adds :
      ∀ state input next,
        input ∈ inputs →
        step state input = .ok next →
        next = state + value input)
    {start final : α}
    (finished : run step start inputs = .ok final) :
    final = start + (inputs.map value).sum := by
  induction inputs generalizing start with
  | nil =>
      cases finished
      simp
  | cons input rest inductionHypothesis =>
      obtain ⟨next, stepped, restFinished⟩ := run_cons_eq_ok finished
      have added := adds start input next List.mem_cons_self stepped
      have restSum :=
        inductionHypothesis
          (fun state other next member => adds state other next (List.mem_cons_of_mem input member))
          restFinished
      rw [restSum, added, List.map_cons, List.sum_cons, add_assoc]

/--
A run in which every step, from a state that satisfies an invariant, succeeds
and keeps it, succeeds and ends in the invariant.
-/
theorem run_eq_ok_of_step
    {step : σ → ι → Except ε σ}
    (invariant : σ → Prop)
    {inputs : List ι}
    (succeeds :
      ∀ state input, input ∈ inputs → invariant state →
        ∃ next, step state input = .ok next ∧ invariant next)
    {start : σ}
    (initially : invariant start) :
    ∃ final, run step start inputs = .ok final ∧ invariant final := by
  induction inputs generalizing start with
  | nil =>
      exact ⟨start, rfl, initially⟩
  | cons input rest inductionHypothesis =>
      obtain ⟨next, stepped, nextInvariant⟩ :=
        succeeds start input List.mem_cons_self initially
      obtain ⟨final, finished, finalInvariant⟩ :=
        inductionHypothesis
          (fun state other member => succeeds state other (List.mem_cons_of_mem input member))
          nextInvariant
      refine ⟨final, ?_, finalInvariant⟩
      rw [run_cons, stepped]
      exact finished

/-- A rank that no successful step lowers does not decrease along a run. -/
theorem rank_le_of_run
    [Preorder α]
    {step : σ → ι → Except ε σ}
    (rank : σ → α)
    (monotone :
      ∀ state input next,
        step state input = .ok next →
        rank state ≤ rank next)
    {start final : σ}
    {inputs : List ι}
    (finished : run step start inputs = .ok final) :
    rank start ≤ rank final := by
  have atLeastStart :=
    invariant_of_run (fun state => rank start ≤ rank state)
      (fun state input next below stepped =>
        le_trans below (monotone state input next stepped))
      (le_refl (rank start)) finished
  exact atLeastStart

/-- Some input leads from the first state to the second. -/
def Steps (step : σ → ι → Except ε σ) (state next : σ) : Prop :=
  ∃ input, step state input = .ok next

/-- Every state a run reaches is reachable through single steps. -/
theorem reflTransGen_of_run
    {step : σ → ι → Except ε σ}
    {start final : σ}
    {inputs : List ι}
    (finished : run step start inputs = .ok final) :
    Relation.ReflTransGen (Steps step) start final := by
  induction inputs generalizing start with
  | nil =>
      cases finished
      exact Relation.ReflTransGen.refl
  | cons input rest inductionHypothesis =>
      obtain ⟨next, stepped, restFinished⟩ := run_cons_eq_ok finished
      exact Relation.ReflTransGen.head ⟨input, stepped⟩
        (inductionHypothesis restFinished)

/-- A run over a concatenation is a run over the prefix continued by the rest. -/
theorem run_append
    (step : σ → ι → Except ε σ)
    (start : σ)
    (first second : List ι) :
    run step start (first ++ second) =
      (run step start first).bind fun middle => run step middle second := by
  unfold run
  rw [List.foldlM_append]
  rfl

/--
A step function that commutes with an abstraction of its states is simulated
by the abstract step function: the abstraction of a run is the abstract run
from the abstraction of its start.
-/
theorem map_run
    {τ : Type _}
    {step : σ → ι → Except ε σ}
    {abstractStep : τ → ι → Except ε τ}
    {abstraction : σ → τ}
    (commutes : ∀ state input,
      (step state input).map abstraction = abstractStep (abstraction state) input)
    (start : σ)
    (inputs : List ι) :
    (run step start inputs).map abstraction = run abstractStep (abstraction start) inputs := by
  induction inputs generalizing start with
  | nil => rfl
  | cons input rest inductionHypothesis =>
      rw [run_cons, run_cons, ← commutes]
      cases step start input with
      | error failure => rfl
      | ok next => exact inductionHypothesis next

section Log

variable {κ : Type _} [DecidableEq κ]

/-- The last entry of a log that is about the key, if there is one. -/
def lastAbout (about : α → Option κ) (log : List α) (key : κ) : Option α :=
  (log.filter fun entry => about entry = some key).getLast?

variable {about : α → Option κ} {log : List α} {entry : α} {key : κ}

/-- An entry about the key becomes the last one about it. -/
theorem lastAbout_append_of_about (aboutKey : about entry = some key) :
    lastAbout about (log ++ [entry]) key = some entry := by
  simp [lastAbout, aboutKey]

/-- An entry about another key leaves the last one about the key. -/
theorem lastAbout_append_of_not_about (notAbout : about entry ≠ some key) :
    lastAbout about (log ++ [entry]) key = lastAbout about log key := by
  simp [lastAbout, notAbout]

end Log

section StateMonad

/-- A throw fails in the state it is run from; the core lemma covers Unit results only. -/
@[simp] theorem run_throw_state (fault : ε) (state : σ) :
    EStateM.run (throw fault : EStateM ε σ α) state = .error fault state :=
  rfl

/-- A catch runs its handler from the state the failure left. -/
theorem run_tryCatch (x : EStateM ε σ α) (handle : ε → EStateM ε σ α) (state : σ) :
    EStateM.run (tryCatch x handle) state =
      match EStateM.run x state with
      | .ok value next => .ok value next
      | .error fault next => EStateM.run (handle fault) next := by
  simp only [EStateM.run]
  show EStateM.tryCatch x handle state = _
  unfold EStateM.tryCatch
  cases x state <;> rfl

/-- A discarded result keeps the state and the failure of the computation. -/
theorem run_discard (x : EStateM ε σ α) (state : σ) :
    EStateM.run (discard x) state =
      match EStateM.run x state with
      | .ok _ next => .ok () next
      | .error fault next => .error fault next := by
  simp only [EStateM.run, discard, Functor.mapConst, Function.comp_apply]
  show EStateM.map _ x state = _
  unfold EStateM.map
  cases x state <;> rfl

end StateMonad

end Runs
