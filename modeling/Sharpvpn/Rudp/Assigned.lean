import Sharpvpn.Rudp.Trace

/-!
# Assigned packages

The sender handles assigned packages only: what is in its pool, in its hands and in
the datagrams it sends was handed over by the segment thread.
-/

namespace Sharpvpn

open Foundation

/-- Only the segment thread assigns packages. -/
theorem SendSide.Transition.assigned_frame {side next : SendSide} {action : SendAction}
    {events : List Event} (htransition : side.Transition action next events)
    (haction : ∀ payload, action ≠ .assign payload) :
    next.sendId = side.sendId ∧ assignedPackages events = [] := by
  have herase : ∀ id, assignedPackages (side.eraseEvents id) = [] := by
    intro id
    unfold eraseEvents
    cases side.sendPool.eraseFrees id <;> rfl
  cases htransition with
  | @assign payload => exact absurd rfl (haction payload)
  | sent =>
      refine ⟨rfl, List.filterMap_eq_nil_iff.mpr fun event hmem => ?_⟩
      rw [List.eq_of_mem_replicate hmem]
      rfl
  | dropped | settled => exact ⟨rfl, herase _⟩
  | fastResend =>
      obtain ⟨pool, heq⟩ := @fastResend_frame side _
      refine ⟨by rw [heq], ?_⟩
      unfold fastResendEvents
      split <;> rfl
  | senderMove | missed | vanished | popped | queued | handlerMove | handled | watch | expire
  | settle | timedOut | recvUna | ackRecv | fastResent => exact ⟨rfl, rfl⟩

theorem SendSide.Transition.sendId_le {side next : SendSide} {action : SendAction}
    {events : List Event} (htransition : side.Transition action next events) :
    side.sendId ≤ next.sendId := by
  cases action with
  | assign payload =>
      cases htransition with
      | assign => exact Nat.le_succ _
  | sender | ackHandler | recvUna | ackRecv | fastResend | fastResent =>
      exact (htransition.assigned_frame (by rintro _ ⟨⟩)).1.ge

namespace SendSide

variable {side next : SendSide} {trace events : List Event}

/-- The send pool, the sender and the datagrams sent carry assigned packages only. -/
structure Carries (side : SendSide) (trace : List Event) : Prop where
  pool : ∀ slot package, side.sendPool.dataList slot = some package →
    package ∈ assignedPackages trace
  sender : ∀ package, side.sender = .holding package → package ∈ assignedPackages trace
  sent : ∀ packageId una payload, .sent (.data packageId una payload) ∈ trace →
    ∃ package ∈ assignedPackages trace,
      packageId = UInt64.ofNat package.packageId ∧ payload = package.payload

/-- Steps that assign and send nothing. -/
theorem Carries.mono (hcarries : side.Carries trace)
    (hpool : next.sendPool.dataList = side.sendPool.dataList)
    (hsender : ∀ package, next.sender = .holding package → package ∈ assignedPackages trace)
    (hsent : ∀ packageId una payload, .sent (.data packageId una payload) ∉ events) :
    next.Carries (trace ++ events) where
  pool := by
    intro slot package hslot
    rw [hpool] at hslot
    simp [hcarries.pool slot package hslot]
  sender := by
    intro package hholding
    simp [hsender package hholding]
  sent := by
    intro packageId una payload hmem
    rcases List.mem_append.mp hmem with hold | hnew
    · obtain ⟨package, hassigned, heq⟩ := hcarries.sent packageId una payload hold
      exact ⟨package, by simp [hassigned], heq⟩
    · exact absurd hnew (hsent packageId una payload)

theorem Carries.assign {payload : Bytes} (hcarries : side.Carries trace) :
    (side.assign payload).Carries (trace ++ side.assignEvents payload) := by
  have hassigned : assignedPackages (side.assignEvents payload) = [⟨side.sendId, payload⟩] := by
    unfold assignEvents
    cases side.sendPool.pushFrees side.sendId <;> rfl
  refine ⟨?_, ?_, ?_⟩
  · intro slot package hslot
    rw [assignedPackages_append, hassigned, List.mem_append, List.mem_singleton]
    by_cases hcell : slot = side.sendId % ringCapacity
    · rw [hcell] at hslot
      simp only [SendSide.assign, PackageQueueMap.push, Function.update_self] at hslot
      exact .inr (Option.some.inj hslot).symm
    · simp only [SendSide.assign, PackageQueueMap.push, Function.update_of_ne hcell] at hslot
      exact .inl (hcarries.pool slot package hslot)
  · intro package hholding
    simp [hcarries.sender package hholding]
  · intro packageId una text hmem
    rcases List.mem_append.mp hmem with hold | hnew
    · obtain ⟨package, hold, heq⟩ := hcarries.sent packageId una text hold
      exact ⟨package, by simp [hold], heq⟩
    · simp [assignEvents] at hnew

theorem Carries.step {action : SendAction} (hcarries : side.Carries trace)
    (htransition : side.Transition action next events) : next.Carries (trace ++ events) := by
  have herase : ∀ id packageId una payload,
      .sent (.data packageId una payload) ∉ side.eraseEvents id := by
    intro id packageId una payload hmem
    simp [eraseEvents] at hmem
  cases htransition with
  | assign => exact hcarries.assign
  | senderMove _ hnew =>
      refine hcarries.mono rfl ?_ (by simp)
      intro package hholding
      rcases hnew with rfl | rfl | rfl <;> cases hholding
  | missed | vanished => exact hcarries.mono (by simp) (by rintro _ ⟨⟩) (by simp)
  | @popped _ _ package _ _ _ hdata =>
      refine hcarries.mono (by simp) ?_ (by simp)
      rintro _ ⟨⟩
      exact hcarries.pool _ package hdata
  | @sent _ recvAckId package hsender =>
      have hassigned := hcarries.sender package hsender
      refine ⟨?_, by rintro _ ⟨⟩, ?_⟩
      · intro slot other hslot
        simp [hcarries.pool slot other hslot]
      · intro packageId una payload hmem
        rw [assignedPackages_append]
        rcases List.mem_append.mp hmem with hold | hnew
        · obtain ⟨other, hother, heq⟩ := hcarries.sent packageId una payload hold
          exact ⟨other, List.mem_append_left _ hother, heq⟩
        · cases List.eq_of_mem_replicate hnew
          exact ⟨package, List.mem_append_left _ hassigned, rfl, rfl⟩
  | queued => exact hcarries.mono rfl (by rintro _ ⟨⟩) (by simp)
  | dropped | settled =>
      exact hcarries.mono (by simp) hcarries.sender (by simp [herase])
  | timedOut => exact hcarries.mono rfl hcarries.sender (by simp)
  | fastResend =>
      refine hcarries.mono ?_ ?_ ?_
      · unfold SendSide.fastResend
        split <;> rfl
      · unfold SendSide.fastResend
        split <;> exact hcarries.sender
      · unfold fastResendEvents
        split <;> simp
  | handlerMove | handled | watch | expire | settle | recvUna | ackRecv | fastResent =>
      exact hcarries.mono rfl hcarries.sender (by simp)

theorem reach_carries {memory : Memory} {allowed : Machine.StepCondition SendSide SendAction Event}
    (hreach : sendMachine.Reach allowed (ReliableSocket.init memory).send side trace) :
    side.Carries trace := by
  refine hreach.invariant Carries ⟨?_, ?_, ?_⟩ ?_
  · intro slot package hslot
    cases hslot
  · intro package hholding
    cases hholding
  · intro packageId una payload hsent
    cases hsent
  · intro side trace action next events hcarries hstep _
    exact hcarries.step (step_transition hstep)

theorem reach_sendId_lt {memory : Memory}
    {allowed : Machine.StepCondition SendSide SendAction Event}
    (hreach : sendMachine.Reach allowed (ReliableSocket.init memory).send side trace) :
    1 ≤ side.sendId ∧ side.sendId + 1 < 2 ^ 63 := by
  refine hreach.invariant (fun side _ => 1 ≤ side.sendId ∧ side.sendId + 1 < 2 ^ 63)
    ⟨le_refl 1, show 1 + 1 < 2 ^ 63 by decide⟩ ?_
  intro side trace action next events hrange hstep _
  have htransition := step_transition hstep
  cases action with
  | assign payload =>
      cases htransition with
      | assign hid =>
          simp only [assign]
          omega
  | sender | ackHandler | recvUna | ackRecv | fastResend | fastResent =>
      rw [(htransition.assigned_frame (by rintro _ ⟨⟩)).1]
      exact hrange

end SendSide

namespace ReliableSocket

variable {config : Config} {crypto : SharpCrypto} {memory : Memory} {socket : ReliableSocket}
  {trace : List Event}

/-- Every Data datagram sent carries an assigned package. -/
theorem sent_assigned {allowed : Machine.StepCondition ReliableSocket Action Event}
    (hreach : (socketMachine config crypto).Reach allowed (init memory) socket trace)
    {packageId una : UInt64} {payload : Bytes}
    (hsent : .sent (.data packageId una payload) ∈ trace) :
    ∃ package ∈ assignedPackages trace,
      packageId = UInt64.ofNat package.packageId ∧ payload = package.payload := by
  have hsend : sendMachine.Reach Machine.always
      (init memory).send socket.send (trace.filter Event.ofSend) :=
    reach_send (fun _ _ _ _ _ _ _ _ => trivial) hreach
  have hcarried := (SendSide.reach_carries hsend).sent packageId una payload
    (List.mem_filter.mpr ⟨hsent, rfl⟩)
  rwa [assignedPackages_filter] at hcarried

/-- Ids never use up their range. -/
theorem sendId_lt {allowed : Machine.StepCondition ReliableSocket Action Event}
    (hreach : (socketMachine config crypto).Reach allowed (init memory) socket trace) :
    socket.send.sendId + 1 < 2 ^ 63 := by
  have hsend : sendMachine.Reach Machine.always
      (init memory).send socket.send (trace.filter Event.ofSend) :=
    reach_send (fun _ _ _ _ _ _ _ _ => trivial) hreach
  exact (SendSide.reach_sendId_lt hsend).2

end ReliableSocket

end Sharpvpn
