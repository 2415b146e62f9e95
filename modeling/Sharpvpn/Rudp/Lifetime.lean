import Sharpvpn.Rudp.FastResend
import Sharpvpn.Rudp.References
import Sharpvpn.Rudp.SendFrom

/-!
# The lifetime of packages

While no ring is overrun, no package is transmitted without end, and no thread reads a
package that has been deleted. Packages need not be deleted once they are finished:
only one reference is released for a package that timed out or was coalesced.
-/

namespace Sharpvpn

open Foundation

namespace SendSide

variable {side next : SendSide} {trace events : List Event} {id : Nat} {action : SendAction}
  {memory : Memory} {allowed : Machine.StepCondition SendSide SendAction Event}

/-- No ring is overrun, and fast resends are asked for assigned ids. -/
structure KeepsRings (side : SendSide) (action : SendAction) (next : SendSide) : Prop where
  rings : next.WithinRings
  assigned : ∀ resendId, action = .fastResend resendId → 1 ≤ resendId ∧ resendId < side.sendId

/-- The ids held are less than a ring behind the next id. -/
def Recent (side : SendSide) : Prop := ∀ id ∈ side.heldIds, side.sendId ≤ id + ringCapacity

instance (side : SendSide) : Decidable side.Recent :=
  List.decidableBAll (fun id => side.sendId ≤ id + ringCapacity) side.heldIds

/-- No package that a thread or `ack_pool` may read has been deleted, a package that is
given up is still there after its `erase`, and the loop of `AckWaitList::pop` stays
within the list. -/
structure Alive (side : SendSide) (trace : List Event) : Prop where
  inHand : ∀ package ∈ side.inHand, .freed package.packageId ∉ trace
  dropped : ∀ package, side.ackHandler = .popped package →
    20 < side.sendCount package.packageId → side.sendPool.eraseFrees package.packageId = none
  popping : side.ackPool.cursor.len ≠ 0 → side.ackPool.pop.isSome

theorem tidy_init (memory : Memory) : (ReliableSocket.init memory).send.Tidy where
  sendPool := PackageQueueMap.lawful_empty (by decide)
  ackPool := AckWaitList.lawful_empty (by decide)
  slots := fun _ hslot => absurd rfl hslot
  one_le := le_refl 1
  positive := by
    intro id hmem
    cases hmem

/-- Nothing has happened to a package at the start. -/
theorem life_init (memory : Memory) (hone : 1 ≤ id) :
    (ReliableSocket.init memory).send.life [] id = {} := by
  have hzero : 0 ≠ id := by omega
  have hborn : ¬id < 1 := by omega
  ext <;> simp [life, ReliableSocket.init, hzero, hborn] <;> rfl

theorem counted_init (memory : Memory) (hone : 1 ≤ id) :
    ((ReliableSocket.init memory).send.life [] id).Counted := by
  rw [life_init memory hone]
  constructor <;> simp [Life.total, Life.inHand]

/-- The counts of every package keep to their bounds. -/
structure Chronicled (side : SendSide) (trace : List Event) : Prop where
  tidy : side.Tidy
  popped : .popped 0 ∉ trace
  counted : ∀ id, 1 ≤ id → (side.life trace id).Counted

theorem chronicled_init (memory : Memory) : (ReliableSocket.init memory).send.Chronicled [] :=
  ⟨tidy_init memory, List.not_mem_nil, fun _ => counted_init memory⟩

/-- Popped ids are queued ones, which are positive. -/
theorem Transition.not_popped_zero (htransition : side.Transition action next events)
    (htidy : side.Tidy) : .popped 0 ∉ events := by
  have herase : ∀ erased, .popped 0 ∉ side.eraseEvents erased := by
    intro erased
    unfold eraseEvents
    cases side.sendPool.eraseFrees erased <;> simp
  cases htransition with
  | popped _ hsize hpop hdata =>
      obtain ⟨found, hfound, hid⟩ := htidy.packageId_eq hsize hpop
      have hone := htidy.positive _ (htidy.popId hsize)
      rw [hdata] at hfound
      obtain rfl := Option.some.inj hfound
      rw [List.mem_singleton, Event.popped.injEq]
      omega
  | assign =>
      unfold assignEvents
      cases side.sendPool.pushFrees side.sendId <;> simp
  | dropped | settled => simp [herase]
  | fastResend =>
      unfold fastResendEvents
      split <;> simp
  | senderMove | missed | vanished | sent | queued | handlerMove | handled | watch | expire
  | settle | timedOut | recvUna | ackRecv | fastResent => simp

theorem Chronicled.life_step (hchronicled : side.Chronicled trace)
    (htransition : side.Transition action next events) (hkeeps : side.KeepsRings action next)
    (hone : 1 ≤ id) :
    Life.Step (next.sendId ≤ id + ringCapacity) (side.Leaks id action) (side.life trace id)
      (next.life (trace ++ events) id) :=
  htransition.life hchronicled.tidy hone hkeeps.rings
    fun resendId heq => (hkeeps.assigned resendId heq).2

theorem Chronicled.step (hchronicled : side.Chronicled trace)
    (htransition : side.Transition action next events) (hkeeps : side.KeepsRings action next) :
    next.Chronicled (trace ++ events) where
  tidy := hchronicled.tidy.step htransition hkeeps.rings
    fun resendId heq => (hkeeps.assigned resendId heq).1
  popped := by
    rw [List.mem_append, not_or]
    exact ⟨hchronicled.popped, htransition.not_popped_zero hchronicled.tidy⟩
  counted := fun id hone =>
    (hchronicled.counted id hone).step (hchronicled.life_step htransition hkeeps hone)

theorem reach_chronicled
    (hreach : sendMachine.Reach (fun side _ action next => side.KeepsRings action next)
      (ReliableSocket.init memory).send side trace) : side.Chronicled trace :=
  hreach.invariant Chronicled (chronicled_init memory)
    fun _ _ _ _ _ hchronicled hstep hkeeps => hchronicled.step (step_transition hstep) hkeeps

/-- Recent packages are deleted only after their last reference. -/
theorem reach_sound
    (hreach : sendMachine.Reach
      (fun side _ action next => side.KeepsRings action next ∧ next.Recent)
      (ReliableSocket.init memory).send side trace) :
    side.Chronicled trace ∧ ∀ id, 1 ≤ id → (side.life trace id).Sound := by
  refine hreach.invariant (fun side trace => side.Chronicled trace ∧
    ∀ id, 1 ≤ id → (side.life trace id).Sound) ⟨chronicled_init memory, fun id hone => ?_⟩ ?_
  · rw [life_init memory hone]
    exact ⟨by rintro ⟨⟩, fun hhand => absurd rfl hhand, fun hfreed => absurd rfl hfreed⟩
  · rintro side trace action next events ⟨hchronicled, hsound⟩ hstep ⟨hkeeps, hrecent⟩
    have htransition := step_transition hstep
    refine ⟨hchronicled.step htransition hkeeps, fun id hone => ?_⟩
    refine (hsound id hone).step (hchronicled.counted id hone)
      (hchronicled.life_step htransition hkeeps hone) fun hheld => ?_
    rw [life_total, List.count_pos_iff] at hheld
    exact hrecent id hheld

/-- Without leaks the references of a package are counted exactly. -/
theorem reach_balanced (hone : 1 ≤ id)
    (hreach : sendMachine.Reach (fun side _ action next => side.KeepsRings action next ∧
      (side.sendPool.arr (id % ringCapacity) = id → ¬side.Leaks id action))
      (ReliableSocket.init memory).send side trace) :
    side.Chronicled trace ∧ (side.life trace id).Balanced := by
  refine hreach.invariant (fun side trace => side.Chronicled trace ∧
    (side.life trace id).Balanced) ⟨chronicled_init memory, ?_⟩ ?_
  · rw [life_init memory hone]
    rintro ⟨⟩
  · rintro side trace action next events ⟨hchronicled, hbalanced⟩ hstep ⟨hkeeps, hleaks⟩
    have htransition := step_transition hstep
    refine ⟨hchronicled.step htransition hkeeps, ?_⟩
    exact hbalanced.step (hchronicled.counted id hone)
      (hchronicled.life_step htransition hkeeps hone)
      fun hstored => hleaks (of_decide_eq_true hstored)

end SendSide

namespace ReliableSocket

variable {config : Config} {crypto : SharpCrypto} {memory : Memory} {socket next : ReliableSocket}
  {trace : List Event} {action : Action} {move : SendAction} {id : Nat}

/-- An Ack with `una` 1 arrives. -/
def ackTurn : List Action := [.receiver, .receive (.ack 1 0 []), .receiver]

/-- The ack handler pops a package and finds it acknowledged. -/
def settleTurn : List Action := List.replicate 5 (.ackHandler false)

/-- The receiver asks for assigned ids only. -/
theorem MovesSend.keepsRings (hmoves : socket.MovesSend action move)
    (hasks : socket.AsksOnce trace) {side : SendSide} (hrings : side.WithinRings) :
    socket.send.KeepsRings move side where
  rings := hrings
  assigned := by
    rintro resendId rfl
    cases hmoves with
    | fastResend hreceiver hlt =>
        obtain ⟨habove, _, hassigned⟩ := hasks.asking _ _ hreceiver
        omega

/-- A life is told by the events of the sending half. -/
theorem life_filter (side : SendSide) (trace : List Event) (id : Nat) :
    side.life (trace.filter Event.ofSend) id = side.life trace id := by
  have hcount : ∀ event, event.ofSend = true →
      (trace.filter Event.ofSend).count event = trace.count event :=
    fun event hsend => List.count_filter hsend
  have hfinished : (trace.filter Event.ofSend).countP (Event.finishes id) =
      trace.countP (Event.finishes id) := by
    rw [List.countP_filter]
    refine List.countP_congr fun event _ => ?_
    cases event <;> simp [Event.finishes, Event.ofSend]
  simp only [SendSide.life, hcount (.popped id) rfl, hcount (.timedOut id) rfl,
    hcount (.fastResent id) rfl, hcount (.freed id) rfl, hfinished]

/-- A run within the rings, with a condition on what each step does to the sending half. -/
theorem reach_keepsRings {allowed : Machine.StepCondition ReliableSocket Action Event}
    (condition : SendSide → SendAction → SendSide → Prop)
    (hallowed : ∀ socket trace action next move, allowed socket trace action next →
      socket.MovesSend action move →
      next.send.WithinRings ∧ condition socket.send move next.send)
    (hreach : (socketMachine config crypto).Reach allowed (init memory) socket trace) :
    sendMachine.Reach (fun side _ move next => side.KeepsRings move next ∧ condition side move next)
      (init memory).send socket.send (trace.filter Event.ofSend) := by
  refine reach_send (fun socket trace action next move hprior hcondition hmoves => ?_) hreach
  obtain ⟨hrings, hholds⟩ := hallowed _ _ _ _ _ hcondition hmoves
  exact ⟨hmoves.keepsRings (reach_asksOnce hprior) hrings, hholds⟩

/-- No package is transmitted more than 22 times while no ring is overrun. -/
theorem pops_le
    (hreach : (socketMachine config crypto).Reach (fun _ _ _ next => next.send.WithinRings)
      (init memory) socket trace) : trace.count (.popped id) ≤ 22 := by
  have hsend := reach_keepsRings (fun _ _ _ => True)
    (fun _ _ _ _ _ hrings _ => ⟨hrings, trivial⟩) hreach
  have hchronicled := SendSide.reach_chronicled
    (hsend.weaken fun _ _ _ _ _ _ _ hcondition => hcondition.1)
  -- Lives are told for positive ids, and 0 is never popped.
  rcases Nat.eq_zero_or_pos id with rfl | hone
  · have hnone : .popped 0 ∉ trace := fun hmem =>
      hchronicled.popped (List.mem_filter.mpr ⟨hmem, rfl⟩)
    rw [List.count_eq_zero.mpr hnone]
    exact Nat.zero_le _
  have hcounted := hchronicled.counted id hone
  rw [life_filter] at hcounted
  have hlimit := hcounted.limit
  have hfasts := (reach_asksOnce hreach).once id
  simp only [SendSide.life] at hlimit
  split at hfasts <;> omega

/-- A package is transmitted twice, after a timeout. -/
theorem pops_le_resend : ∃ socket trace,
    (socketMachine .standard .marking).Reach (fun _ _ _ next => next.send.WithinRings)
      (init .zeroed) socket trace ∧
    trace.count (.popped 1) = 2 ∧ trace.count (.popped 1) ≤ 22 := by
  obtain ⟨socket, trace, hreach, hcount⟩ := Machine.reach_of_exec
    (fun (_ : ReliableSocket) (trace : List Event) => trace.count (.popped 1))
    (show ((socketMachine .standard .marking).exec (fun _ _ _ next => next.send.WithinRings)
      (init .zeroed) [] (packTurn ++ senderTurn ++ handlerTurn ++ senderTurn)).map _ =
        some 2 by decide)
  exact ⟨socket, trace, hreach, hcount, pops_le hreach⟩

/-- What the threads and `ack_pool` read has not been deleted. -/
theorem packages_alive
    (hreach : (socketMachine config crypto).Reach
      (fun _ _ _ next => next.send.WithinRings ∧ next.send.Recent) (init memory) socket trace) :
    socket.send.Alive trace := by
  have hsend := reach_keepsRings (fun _ _ next => next.Recent)
    (fun _ _ _ _ _ hcondition _ => hcondition) hreach
  obtain ⟨hchronicled, hsound⟩ := SendSide.reach_sound hsend
  have hpositive : ∀ package ∈ socket.send.inHand, 1 ≤ package.packageId := fun package hmem =>
    hchronicled.tidy.positive _ (SendSide.mem_heldIds_of_inHand hmem)
  refine ⟨fun package hmem hfreed => ?_, fun package hhandler hsends => ?_,
    hchronicled.tidy.ackPool.pop_isSome⟩
  -- A package in hand has a counted reference, and a deleted one has none.
  · have hsound := hsound _ (hpositive package hmem)
    rw [life_filter] at hsound
    have hstored := hsound.alive (by
      rw [SendSide.life_inHand]
      exact (List.countP_pos_iff.mpr ⟨package, hmem, by simp⟩).ne')
    have hgone := hsound.gone (List.count_pos_iff.mpr hfreed).ne'
    rw [hstored] at hgone
    cases hgone
  · have hone := hpositive package (SendSide.mem_inHand.mpr (.inr (.inr (by
      simp [hhandler, AckHandlerThread.packages]))))
    have hsound := hsound _ hone
    have hcounted := hchronicled.counted _ hone
    have hfasts := (reach_asksOnce hreach).once package.packageId
    rw [life_filter] at hsound hcounted
    obtain ⟨hstored, hmore⟩ := hsound.outlives hcounted
      (by simp [SendSide.life, hhandler, AckHandlerThread.unchecked]) hsends
      (by
        simp only [SendSide.life]
        split at hfasts <;> omega)
    have hstored := of_decide_eq_true hstored
    simp only [SendSide.life, hstored, if_true] at hmore
    unfold PackageQueueMap.eraseFrees
    rw [if_pos (.inr (by omega))]

/-- A package waits in `ack_pool`. -/
theorem packages_alive_waiting : ∃ socket trace,
    (socketMachine .standard .marking).Reach
      (fun _ _ _ next => next.send.WithinRings ∧ next.send.Recent) (init .zeroed) socket trace ∧
    socket.send.inHand.map (·.packageId) = [1] ∧ socket.send.Alive trace := by
  obtain ⟨socket, trace, hreach, hhand⟩ := Machine.reach_of_exec
    (fun (socket : ReliableSocket) (_ : List Event) => socket.send.inHand.map (·.packageId))
    (show ((socketMachine .standard .marking).exec
      (fun _ _ _ next => next.send.WithinRings ∧ next.send.Recent) (init .zeroed) []
      (packTurn ++ senderTurn)).map _ = some [1] by decide)
  exact ⟨socket, trace, hreach, hhand, packages_alive hreach⟩

/-- The steps after which more references to the id are counted than there are. -/
def Leaks (socket : ReliableSocket) (id : Nat) : Action → Prop
  | .ackHandler timedOut => socket.send.Leaks id (.ackHandler socket.workerRunning timedOut)
  | .receiver =>
      match socket.receiver with
      | .fastResend resendId maxAckId =>
          resendId < maxAckId ∧ socket.send.Leaks id (.fastResend resendId)
      | _ => False
  | _ => False

instance (socket : ReliableSocket) (id : Nat) :
    (action : Action) → Decidable (socket.Leaks id action)
  | .ackHandler timedOut => inferInstanceAs
      (Decidable (socket.send.Leaks id (.ackHandler socket.workerRunning timedOut)))
  | .receiver => by
      delta Leaks
      exact match socket.receiver with
        | .fastResend .. => inferInstanceAs (Decidable (_ ∧ _))
        | .head | .listening | .queueAck .. | .recvUna _ | .ackRecv .. | .exited =>
            instDecidableFalse
  | .sendPackage _ | .close | .segment _ | .sender | .ackSender | .receive _ | .recvPackage =>
      instDecidableFalse

/-- No ring is overrun, and while its package is stored no reference to the id leaks. -/
def ReleasesEach (socket : ReliableSocket) (id : Nat) (action : Action) (next : ReliableSocket) :
    Prop :=
  next.send.WithinRings ∧
    (socket.send.sendPool.arr (id % ringCapacity) = id → ¬socket.Leaks id action)

instance (socket : ReliableSocket) (id : Nat) (action : Action) (next : ReliableSocket) :
    Decidable (socket.ReleasesEach id action next) :=
  inferInstanceAs (Decidable (_ ∧ (_ → _)))

/-- The ack handler has finished the package, and no queue, list or thread keeps its id. -/
def Finished (socket : ReliableSocket) (trace : List Event) (id : Nat) : Prop :=
  (.settled id ∈ trace ∨ .dropped id ∈ trace) ∧ id ∉ socket.send.heldIds

/-- The slot of the id does not hold it any more, and its package has been deleted. -/
def Released (socket : ReliableSocket) (trace : List Event) (id : Nat) : Prop :=
  socket.send.sendPool.arr (id % ringCapacity) ≠ id ∧ .freed id ∈ trace

theorem MovesSend.leaks (hmoves : socket.MovesSend action move)
    (hleaks : socket.send.Leaks id move) : socket.Leaks id action := by
  cases hmoves with
  | ackHandler => exact hleaks
  | fastResend hreceiver hlt =>
      simp only [Leaks, hreceiver]
      exact ⟨hlt, hleaks⟩
  | assign | sender | recvUna | ackRecv | fastResent => exact hleaks.elim

/-- A finished package is released in every run in which none of its references leaks. -/
theorem finished_released (hone : 1 ≤ id)
    (hreach : (socketMachine config crypto).Reach
      (fun socket _ action next => socket.ReleasesEach id action next) (init memory) socket trace)
    (hfinished : socket.Finished trace id) : socket.Released trace id := by
  have hsend := reach_keepsRings
    (fun side move _ => side.sendPool.arr (id % ringCapacity) = id → ¬side.Leaks id move)
    (fun _ _ _ _ _ hcondition hmoves =>
      ⟨hcondition.1, fun hstored hleaks => hcondition.2 hstored (hmoves.leaks hleaks)⟩) hreach
  obtain ⟨hchronicled, hbalanced⟩ := SendSide.reach_balanced hone hsend
  have hcounted := hchronicled.counted id hone
  rw [life_filter] at hcounted hbalanced
  obtain ⟨hfate, hheld⟩ := hfinished
  -- Were it stored, a queue, a list or a thread would still have it.
  have hgone : (socket.send.life trace id).stored = false := by
    by_contra hstored
    obtain ⟨_, htotal⟩ := hbalanced (by simpa using hstored)
    rw [SendSide.life_total, List.count_pos_iff] at htotal
    exact hheld htotal
  have hborn : (socket.send.life trace id).born = true := by
    by_contra hunborn
    have hnone := (hcounted.unborn (by simpa using hunborn)).2.2.2.2.2.1
    have hsome : 0 < (socket.send.life trace id).finished := by
      refine List.countP_pos_iff.mpr ?_
      rcases hfate with hmem | hmem <;> exact ⟨_, hmem, by simp [Event.finishes]⟩
    omega
  refine ⟨of_decide_eq_false hgone, ?_⟩
  have hfreed := (hcounted.placed hborn).resolve_left (by simp [hgone])
  exact List.count_pos_iff.mp hfreed

/-- A package is sent once and acknowledged. -/
theorem finished_released_acked : ∃ socket trace,
    (socketMachine .standard .marking).Reach
      (fun socket _ action next => socket.ReleasesEach 1 action next) (init .zeroed) socket trace ∧
    socket.Finished trace 1 ∧ socket.Released trace 1 := by
  obtain ⟨socket, trace, hreach, hview⟩ := Machine.reach_of_exec
    (fun (socket : ReliableSocket) (trace : List Event) =>
      (decide (.settled 1 ∈ trace), socket.send.heldIds))
    (show ((socketMachine .standard .marking).exec
      (fun socket _ action next => socket.ReleasesEach 1 action next) (init .zeroed) []
      (packTurn ++ senderTurn ++ ackTurn ++ settleTurn)).map _ = some (true, []) by decide)
  simp only [Prod.mk.injEq] at hview
  have hfinished : socket.Finished trace 1 :=
    ⟨.inl (of_decide_eq_true hview.1), by simp [hview.2]⟩
  exact ⟨socket, trace, hreach, hfinished, finished_released (le_refl 1) hreach hfinished⟩

/-- A package that timed out once is never released. -/
theorem finished_kept : ∃ socket trace,
    (socketMachine .standard .marking).Reach (fun _ _ _ next => next.send.WithinRings)
      (init .zeroed) socket trace ∧
    socket.Finished trace 1 ∧ ¬socket.Released trace 1 := by
  obtain ⟨socket, trace, hreach, hview⟩ := Machine.reach_of_exec
    (fun (socket : ReliableSocket) (trace : List Event) =>
      (decide (.settled 1 ∈ trace), socket.send.heldIds, socket.send.sendPool.arr 1))
    (show ((socketMachine .standard .marking).exec (fun _ _ _ next => next.send.WithinRings)
      (init .zeroed) []
      (packTurn ++ senderTurn ++ handlerTurn ++ senderTurn ++ ackTurn ++ settleTurn)).map _ =
        some (true, [], 1) by decide)
  simp only [Prod.mk.injEq] at hview
  refine ⟨socket, trace, hreach, ⟨.inl (of_decide_eq_true hview.1), by simp [hview.2.1]⟩, ?_⟩
  exact fun hreleased => hreleased.1 hview.2.2

end ReliableSocket

end Sharpvpn
