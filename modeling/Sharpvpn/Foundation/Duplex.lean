import Sharpvpn.Foundation.Machine
import Mathlib.Logic.Function.Basic

/-!
# Two machines over a lossy network

Two machines exchange messages through channels that may lose, duplicate, delay
and reorder. A channel is the list of all messages ever sent to an end: an end
may take any message of its channel at any time, any number of times or never.
Messages are never invented.
-/

namespace Foundation

universe u v w x

inductive Side
  | a
  | b
  deriving DecidableEq, Repr

/-- The end a message of this end goes to. -/
def Side.peer : Side → Side
  | .a => .b
  | .b => .a

@[simp] theorem Side.peer_ne (side : Side) : side.peer ≠ side := by cases side <;> decide

@[simp] theorem Side.ne_peer (side : Side) : side ≠ side.peer := by cases side <;> decide

@[simp] theorem Side.peer_peer (side : Side) : side.peer.peer = side := by cases side <;> rfl

theorem Side.eq_or_eq_peer (side other : Side) : other = side ∨ other = side.peer := by
  cases side <;> cases other <;> decide

/-- The two ends, the message an action takes from the network, the message an
event puts on it, and the message an event reports as taken. -/
structure Duplex (σ : Type u) (α : Type v) (ε : Type w) (μ : Type x) where
  ends : Side → Machine σ α ε
  takes : α → Option μ
  emits : ε → Option μ
  observes : ε → Option μ
  /-- An end reports only messages it takes. -/
  observes_taken : ∀ side state action next events event message,
    (ends side).step state action = some (next, events) → event ∈ events →
    observes event = some message → takes action = some message

namespace Duplex

variable {σ : Type u} {α : Type v} {ε : Type w} {μ : Type x}

structure State (σ : Type u) (μ : Type x) where
  ends : Side → σ
  channel : Side → List μ

def State.init (ends : Side → σ) : State σ μ := ⟨ends, fun _ => []⟩

/-- One end takes a step; the messages it emits join the peer's channel. -/
def advance [DecidableEq μ] (net : Duplex σ α ε μ) (state : State σ μ) (side : Side)
    (action : α) : Option (State σ μ × List (Side × ε)) :=
  if ∀ message ∈ net.takes action, message ∈ state.channel side then
    match (net.ends side).step (state.ends side) action with
    | none => none
    | some (next, events) =>
        some (⟨Function.update state.ends side next,
          Function.update state.channel side.peer
            (state.channel side.peer ++ events.filterMap net.emits)⟩,
          events.map (Prod.mk side))
  else none

/-- The pair as one machine: its events carry the end they happen at. -/
def machine [DecidableEq μ] (net : Duplex σ α ε μ) :
    Machine (State σ μ) (Side × α) (Side × ε) where
  step state action := net.advance state action.1 action.2

/-- The part of a trace that happens at one end. -/
def at_ (side : Side) (trace : List (Side × ε)) : List ε :=
  trace.filterMap fun event => if event.1 = side then some event.2 else none

@[simp] theorem at_nil (side : Side) : at_ side ([] : List (Side × ε)) = [] := rfl

@[simp] theorem at_append (side : Side) (first second : List (Side × ε)) :
    at_ side (first ++ second) = at_ side first ++ at_ side second :=
  List.filterMap_append

@[simp] theorem at_map_self (side : Side) (events : List ε) :
    at_ side (events.map (Prod.mk side)) = events := by
  simp [at_, List.filterMap_map]

theorem at_map_ne {side other : Side} (hne : other ≠ side) (events : List ε) :
    at_ side (events.map (Prod.mk other)) = [] := by
  simp [at_, List.filterMap_map, hne]

/-- The pair with its ends exchanged. -/
def State.swap (state : State σ μ) : State σ μ where
  ends side := state.ends side.peer
  channel side := state.channel side.peer

def swap (net : Duplex σ α ε μ) : Duplex σ α ε μ where
  ends side := net.ends side.peer
  takes := net.takes
  emits := net.emits
  observes := net.observes
  observes_taken side := net.observes_taken side.peer

/-- The trace of the pair with its ends exchanged. -/
def swapTrace (trace : List (Side × ε)) : List (Side × ε) :=
  trace.map fun event => (event.1.peer, event.2)

@[simp] theorem State.swap_ends (state : State σ μ) (side : Side) :
    state.swap.ends side = state.ends side.peer := rfl

@[simp] theorem State.swap_swap (state : State σ μ) : state.swap.swap = state := by
  unfold swap
  simp only [Side.peer_peer]

@[simp] theorem swapTrace_swapTrace (trace : List (Side × ε)) :
    swapTrace (swapTrace trace) = trace := by
  simp [swapTrace, Function.comp_def]

theorem at_swapTrace (side : Side) (trace : List (Side × ε)) :
    at_ side (swapTrace trace) = at_ side.peer trace := by
  unfold at_ swapTrace
  rw [List.filterMap_map]
  refine List.filterMap_congr fun event _ => ?_
  have hsame : event.1.peer = side ↔ event.1 = side.peer := by
    cases event.1 <;> cases side <;> decide
  simp [hsame]

variable [DecidableEq μ] {net : Duplex σ α ε μ}
  {allowed : Machine.StepCondition (State σ μ) (Side × α) (Side × ε)}
  {start : Side → σ} {state : State σ μ} {trace : List (Side × ε)}

/-- What a step of the pair does: a step of one end, fed from its channel. -/
theorem advance_eq_some {side : Side} {action : α} {next : State σ μ}
    {events : List (Side × ε)} (hstep : net.advance state side action = some (next, events)) :
    ∃ moved local', (net.ends side).step (state.ends side) action = some (moved, local') ∧
      (∀ message, net.takes action = some message → message ∈ state.channel side) ∧
      next = ⟨Function.update state.ends side moved,
        Function.update state.channel side.peer
          (state.channel side.peer ++ local'.filterMap net.emits)⟩ ∧
      events = local'.map (Prod.mk side) := by
  unfold advance at hstep
  split at hstep
  next htakes =>
    cases hlocal : (net.ends side).step (state.ends side) action with
    | none => simp [hlocal] at hstep
    | some result =>
        obtain ⟨moved, local'⟩ := result
        simp only [hlocal, Option.some.injEq, Prod.mk.injEq] at hstep
        exact ⟨moved, local', rfl, fun message hmessage => htakes message hmessage,
          hstep.1.symm, hstep.2.symm⟩
  next => cases hstep

/-- A run of the pair is a run of each end. A condition on the end's steps may
be derived from what is known of the pair's runs. -/
theorem reach_side (side : Side) {local' : Machine.StepCondition σ α ε}
    (hlocal : ∀ state trace action next events,
      net.machine.Reach allowed (State.init start) state trace →
      net.machine.step state (side, action) = some (next, events) →
      allowed state trace (side, action) next →
      local' (state.ends side) (at_ side trace) action (next.ends side))
    (hreach : net.machine.Reach allowed (State.init start) state trace) :
    (net.ends side).Reach local' (start side) (state.ends side) (at_ side trace) := by
  induction hreach with
  | start => exact .start
  | @step state next trace events action hprior hstep hallowed ih =>
      obtain ⟨who, action⟩ := action
      obtain ⟨moved, inner, hinner, _, hnext, hevents⟩ := advance_eq_some hstep
      by_cases hwho : who = side
      · subst who
        have hends : next.ends side = moved := by simp [hnext]
        have hlocal' := hlocal state trace action next events hprior hstep hallowed
        rw [hends] at hlocal' ⊢
        rw [at_append, hevents, at_map_self]
        exact .step ih hinner hlocal'
      · have hends : next.ends side = state.ends side := by
          simp [hnext, Function.update_of_ne (Ne.symm hwho)]
        rw [hends, at_append, hevents, at_map_ne hwho, List.append_nil]
        exact ih

/-- An event at an end belongs to a step that this end takes in the run. -/
theorem exists_step_at {side : Side} {event : ε}
    (hreach : net.machine.Reach allowed (State.init start) state trace)
    (hevent : event ∈ at_ side trace) :
    ∃ before action events, ∃ next earlier later,
      (net.ends side).step before action = some (next.ends side, events) ∧ event ∈ events ∧
      net.machine.Reach allowed (State.init start) next earlier ∧
      net.machine.Reach (Machine.after earlier allowed) next state later ∧
      trace = earlier ++ later := by
  obtain ⟨⟨who, source⟩, hmem, hsource⟩ := List.mem_filterMap.mp hevent
  split at hsource
  next hwho =>
    obtain rfl : who = side := hwho
    obtain rfl := Option.some.inj hsource
    obtain ⟨before, action, next, events, earlier, later, hstep, hmoved, hearlier, hlater,
      htrace⟩ := hreach.exists_step hmem
    obtain ⟨moved, inner, hinner, -, hnext, hevents⟩ := advance_eq_some hstep
    rw [hevents] at hmoved
    obtain ⟨found, hfound, heq⟩ := List.mem_map.mp hmoved
    obtain ⟨hside, rfl⟩ := Prod.mk.inj heq
    rw [hside] at hinner hnext
    have hends : next.ends who = moved := by simp [hnext]
    exact ⟨before.ends who, action.2, inner, next, earlier, later, hends ▸ hinner, hfound, hearlier,
      hlater, htrace⟩
  next => cases hsource

theorem update_peer {β : Type*} (values : Side → β) (side : Side) (value : β) :
    (fun other : Side => Function.update values side value other.peer) =
      Function.update (fun other => values other.peer) side.peer value := by
  funext other
  cases side <;> cases other <;> rfl

theorem advance_swap {side : Side} {action : α} {next : State σ μ} {events : List (Side × ε)}
    (hstep : net.advance state side action = some (next, events)) :
    net.swap.advance state.swap side.peer action = some (next.swap, swapTrace events) := by
  obtain ⟨moved, inner, hinner, htakes, rfl, rfl⟩ := advance_eq_some hstep
  have hchannel : state.swap.channel side.peer = state.channel side :=
    congrArg state.channel side.peer_peer
  have hlocal : (net.swap.ends side.peer).step (state.swap.ends side.peer) action =
      some (moved, inner) := by
    simpa only [swap, State.swap, Side.peer_peer] using hinner
  unfold advance
  rw [if_pos fun message hmessage => hchannel ▸ htakes message hmessage, hlocal]
  simp only [swapTrace, List.map_map, Function.comp_def, State.swap, update_peer, swap,
    Side.peer_peer]

/-- A run of the pair is a run of the pair with its ends exchanged. -/
theorem reach_swap {followed : Machine.StepCondition (State σ μ) (Side × α) (Side × ε)}
    (hfollow : ∀ state trace side action next, allowed state trace (side, action) next →
      followed state.swap (swapTrace trace) (side.peer, action) next.swap)
    (hreach : net.machine.Reach allowed (State.init start) state trace) :
    net.swap.machine.Reach followed (State.init fun side => start side.peer) state.swap
      (swapTrace trace) := by
  induction hreach with
  | start => exact .start
  | @step state next trace events action _ hstep hallowed ih =>
      have htrace : swapTrace (trace ++ events) = swapTrace trace ++ swapTrace events :=
        List.map_append
      rw [htrace]
      exact ih.extend (action.1.peer, action.2) (advance_swap hstep)
        (hfollow state trace action.1 action.2 next hallowed)

/-- Every message in a channel was emitted by the peer. -/
theorem channel_emitted
    (hreach : net.machine.Reach allowed (State.init start) state trace) (side : Side)
    {message : μ} (hmessage : message ∈ state.channel side) :
    ∃ event ∈ at_ side.peer trace, net.emits event = some message := by
  induction hreach with
  | start => simp [State.init] at hmessage
  | @step state next trace events action hprior hstep _ ih =>
      obtain ⟨who, action⟩ := action
      obtain ⟨moved, inner, _, _, hnext, hevents⟩ := advance_eq_some hstep
      have hsplit : message ∈ state.channel side ∨
          (who = side.peer ∧ message ∈ inner.filterMap net.emits) := by
        by_cases hside : side = who.peer
        · subst hside
          simpa [hnext] using hmessage
        · left
          simpa [hnext, Function.update_of_ne hside] using hmessage
      rcases hsplit with hold | ⟨rfl, hnew⟩
      · obtain ⟨event, hmem, hemits⟩ := ih hold
        exact ⟨event, by simp [hmem], hemits⟩
      · obtain ⟨event, hmem, hemits⟩ := List.mem_filterMap.mp hnew
        exact ⟨event, by simp [hevents, hmem], hemits⟩

/-- Every message an end reports was emitted by the peer. -/
theorem observed_emitted
    (hreach : net.machine.Reach allowed (State.init start) state trace) {side : Side}
    {event : ε} {message : μ} (hevent : event ∈ at_ side trace)
    (hobserves : net.observes event = some message) :
    ∃ source ∈ at_ side.peer trace, net.emits source = some message := by
  induction hreach with
  | start => simp at hevent
  | @step state next trace events action hprior hstep _ ih =>
      obtain ⟨who, action⟩ := action
      obtain ⟨moved, inner, hinner, htakes, _, hevents⟩ := advance_eq_some hstep
      rw [at_append, List.mem_append] at hevent
      rcases hevent with hold | hnew
      · obtain ⟨source, hmem, hemits⟩ := ih hold
        exact ⟨source, by simp [hmem], hemits⟩
      · by_cases hwho : who = side
        · subst who
          rw [hevents, at_map_self] at hnew
          have htaken := net.observes_taken _ _ _ _ _ _ _ hinner hnew hobserves
          obtain ⟨source, hmem, hemits⟩ := channel_emitted hprior side (htakes _ htaken)
          exact ⟨source, by simp [hmem], hemits⟩
        · rw [hevents, at_map_ne hwho] at hnew
          cases hnew

end Duplex

end Foundation
