import Mathlib.Data.List.Basic
import Mathlib.Tactic.Common

/-!
# Machines with observable events

A machine answers an action with its next state and the events the step makes
observable, or refuses the action. A run is a sequence of accepted actions; its
trace is the concatenation of their events. Restrictions on runs ("in every run
in which ...") are conditions on single steps, which may inspect the states on
both sides and the trace so far.
-/

namespace Foundation

universe u v w

/-- `step state action = none` says the action is not enabled in `state`. -/
structure Machine (σ : Type u) (α : Type v) (ε : Type w) where
  step : σ → α → Option (σ × List ε)

namespace Machine

variable {σ : Type u} {α : Type v} {ε : Type w}

/-- A condition on one step: the state and trace before it, the action, and the
state after it. -/
abbrev StepCondition (σ : Type u) (α : Type v) (ε : Type w) := σ → List ε → α → σ → Prop

/-- States reached from `start`, with their traces, by runs all of whose steps
meet `allowed`. -/
inductive Reach (machine : Machine σ α ε) (allowed : StepCondition σ α ε) (start : σ) :
    σ → List ε → Prop
  | start : Reach machine allowed start start []
  | step {state next : σ} {trace events : List ε} {action : α}
      (hprior : Reach machine allowed start state trace)
      (hstep : machine.step state action = some (next, events))
      (hallowed : allowed state trace action next) :
      Reach machine allowed start next (trace ++ events)

/-- Every run. -/
def always : StepCondition σ α ε := fun _ _ _ _ => True

variable {machine : Machine σ α ε} {allowed : StepCondition σ α ε} {start state : σ}
  {trace : List ε}

/-- A predicate that holds initially and that every allowed step preserves holds
of every state reached. -/
theorem Reach.invariant (invariant : σ → List ε → Prop) (hstart : invariant start [])
    (hpreserved : ∀ state trace action next events, invariant state trace →
      machine.step state action = some (next, events) → allowed state trace action next →
      invariant next (trace ++ events))
    (hreach : machine.Reach allowed start state trace) : invariant state trace := by
  induction hreach with
  | start => exact hstart
  | step _ hstep hallowed ih => exact hpreserved _ _ _ _ _ ih hstep hallowed

/-- Weakening the condition keeps the runs. The weaker condition may be derived
from facts about the states already reached. -/
theorem Reach.weaken {weaker : StepCondition σ α ε}
    (hweaker : ∀ state trace action next events, machine.Reach allowed start state trace →
      machine.step state action = some (next, events) → allowed state trace action next →
      weaker state trace action next)
    (hreach : machine.Reach allowed start state trace) :
    machine.Reach weaker start state trace := by
  induction hreach with
  | start => exact .start
  | step hprior hstep hallowed ih =>
      exact .step ih hstep (hweaker _ _ _ _ _ hprior hstep hallowed)

theorem Reach.unrestricted (hreach : machine.Reach allowed start state trace) :
    machine.Reach always start state trace :=
  hreach.weaken fun _ _ _ _ _ _ _ _ => trivial

/-- A view of a machine that another machine can follow: every step is a step of
the other machine with the events kept, or is invisible to it. -/
theorem Reach.simulate {τ : Type u} {β : Type v} {other : Machine τ β ε}
    {followed : StepCondition τ β ε} (view : σ → τ) (keep : ε → Bool)
    (hfollow : ∀ state trace action next events, machine.Reach allowed start state trace →
      machine.step state action = some (next, events) → allowed state trace action next →
      (view next = view state ∧ events.filter keep = []) ∨
      ∃ move, other.step (view state) move = some (view next, events.filter keep) ∧
        followed (view state) (trace.filter keep) move (view next))
    (hreach : machine.Reach allowed start state trace) :
    other.Reach followed (view start) (view state) (trace.filter keep) := by
  induction hreach with
  | start => exact .start
  | step hprior hstep hallowed ih =>
      rw [List.filter_append]
      rcases hfollow _ _ _ _ _ hprior hstep hallowed with ⟨hview, hevents⟩ | ⟨move, hmove, hok⟩
      · rw [hview, hevents, List.append_nil]
        exact ih
      · exact .step ih hmove hok

/-- A view of the states and of the events that another machine can follow: every step is a
step of the other machine, or is invisible to it. -/
theorem Reach.project {τ β ε' : Type*} {other : Machine τ β ε'} {followed : StepCondition τ β ε'}
    (view : σ → τ) (see : ε → Option ε')
    (hfollow : ∀ state trace action next events, machine.Reach allowed start state trace →
      machine.step state action = some (next, events) → allowed state trace action next →
      (view next = view state ∧ events.filterMap see = []) ∨
      ∃ move, other.step (view state) move = some (view next, events.filterMap see) ∧
        followed (view state) (trace.filterMap see) move (view next))
    (hreach : machine.Reach allowed start state trace) :
    other.Reach followed (view start) (view state) (trace.filterMap see) := by
  induction hreach with
  | start => exact .start
  | step hprior hstep hallowed ih =>
      rw [List.filterMap_append]
      rcases hfollow _ _ _ _ _ hprior hstep hallowed with ⟨hview, hevents⟩ | ⟨move, hmove, hok⟩
      · rw [hview, hevents, List.append_nil]
        exact ih
      · exact .step ih hmove hok

/-- A machine whose steps another machine can match, event for event, has the traces of the
other machine. -/
theorem Reach.refine {τ : Type*} {β : Type*} {other : Machine τ β ε} {origin : τ}
    (related : σ → τ → Prop) (hstart : related start origin)
    (hmatch : ∀ state action next events spec, related state spec →
      machine.step state action = some (next, events) →
      ∃ move spec', other.step spec move = some (spec', events) ∧ related next spec')
    (hreach : machine.Reach allowed start state trace) :
    ∃ spec, other.Reach always origin spec trace ∧ related state spec := by
  induction hreach with
  | start => exact ⟨origin, .start, hstart⟩
  | step hprior hstep hallowed ih =>
      obtain ⟨spec, hspec, hrelated⟩ := ih
      obtain ⟨move, spec', hmove, hnext⟩ := hmatch _ _ _ _ spec hrelated hstep
      exact ⟨spec', .step hspec hmove trivial, hnext⟩

/-- A run extended by an action. -/
theorem Reach.extend {next : σ} {events : List ε}
    (hreach : machine.Reach allowed start state trace) (action : α)
    (hstep : machine.step state action = some (next, events))
    (hallowed : allowed state trace action next) :
    machine.Reach allowed start next (trace ++ events) :=
  .step hreach hstep hallowed

/-- A condition on runs, for what follows a trace. -/
def after (earlier : List ε) (allowed : StepCondition σ α ε) : StepCondition σ α ε :=
  fun state trace action next => allowed state (earlier ++ trace) action next

/-- An event of a run belongs to a step of the run. One run leads to the state after the step,
and another one goes on from there. -/
theorem Reach.exists_step (hreach : machine.Reach allowed start state trace) {event : ε}
    (hevent : event ∈ trace) :
    ∃ before action next events earlier later, machine.step before action = some (next, events) ∧
      event ∈ events ∧ machine.Reach allowed start next earlier ∧
      machine.Reach (after earlier allowed) next state later ∧ trace = earlier ++ later := by
  induction hreach with
  | start => cases hevent
  | @step before next trace events action hprior hstep hallowed ih =>
      rcases List.mem_append.mp hevent with hold | hlast
      · obtain ⟨before, move, found, moved, earlier, later, hmove, hmem, hearlier, hlater, rfl⟩ :=
          ih hold
        refine ⟨before, move, found, moved, earlier, later ++ events, hmove, hmem, hearlier,
          hlater.extend action hstep hallowed, ?_⟩
        rw [List.append_assoc]
      · exact ⟨before, action, next, events, trace ++ events, [], hstep, hlast,
          .step hprior hstep hallowed, .start, (List.append_nil _).symm⟩

/-- Run a list of actions on a state reached with a trace, checking the condition
at every step. -/
def exec (machine : Machine σ α ε) (allowed : StepCondition σ α ε)
    [∀ state trace action next, Decidable (allowed state trace action next)] :
    σ → List ε → List α → Option (σ × List ε)
  | state, trace, [] => some (state, trace)
  | state, trace, action :: rest =>
      match machine.step state action with
      | none => none
      | some (next, events) =>
          if allowed state trace action next then
            machine.exec allowed next (trace ++ events) rest
          else none

instance (state : σ) (trace : List ε) (action : α) (next : σ) :
    Decidable (always state trace action next) :=
  inferInstanceAs (Decidable True)

/-- An executed list of actions extends any run to its starting state. -/
theorem Reach.exec [∀ state trace action next, Decidable (allowed state trace action next)]
    {actions : List α} {final : σ} {later : List ε}
    (hreach : machine.Reach allowed start state trace)
    (hexec : machine.exec allowed state trace actions = some (final, later)) :
    machine.Reach allowed start final later := by
  induction actions generalizing state trace with
  | nil =>
      obtain ⟨rfl, rfl⟩ : state = final ∧ trace = later := by simpa [Machine.exec] using hexec
      exact hreach
  | cons action rest ih =>
      simp only [Machine.exec] at hexec
      cases hstep : machine.step state action with
      | none => simp [hstep] at hexec
      | some result =>
          obtain ⟨next, events⟩ := result
          simp only [hstep] at hexec
          split at hexec
          next hallowed => exact ih (.step hreach hstep hallowed) hexec
          next => cases hexec

/-- The run that a list of actions executes from the start, seen through a view
of its state and trace. -/
theorem reach_of_exec [∀ state trace action next, Decidable (allowed state trace action next)]
    {β : Type*} (view : σ → List ε → β) {value : β} {actions : List α}
    (hexec : (machine.exec allowed start [] actions).map (fun result => view result.1 result.2) =
      some value) :
    ∃ final later, machine.Reach allowed start final later ∧ view final later = value := by
  obtain ⟨⟨final, later⟩, hresult, hview⟩ := Option.map_eq_some_iff.mp hexec
  exact ⟨final, later, Reach.exec .start hresult, hview⟩

end Machine

end Foundation
