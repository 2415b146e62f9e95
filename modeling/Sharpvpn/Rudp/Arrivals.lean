import Mathlib.Data.List.DropRight
import Sharpvpn.Rudp.FastResend

/-!
# The Ack being processed

What the receiver thread does after it has taken an Ack, it does for the last datagram
received. The ids it asks for again are live gaps: assigned, not acknowledged, and below one
that this Ack lists.
-/

namespace Sharpvpn

open Foundation

def Event.isArrived : Event → Bool
  | .arrived _ => true
  | _ => false

/-- The trace up to the last datagram received. -/
def upToArrival (trace : List Event) : List Event :=
  trace.rdropWhile fun event => !event.isArrived

section Traces

variable {trace events : List Event}

theorem upToArrival_append (hnone : ∀ event ∈ events, event.isArrived = false) :
    upToArrival (trace ++ events) = upToArrival trace := by
  induction events using List.reverseRecOn with
  | nil => rw [List.append_nil]
  | append_singleton events event ih =>
      have hlast := hnone event (List.mem_append_right _ List.mem_cons_self)
      unfold upToArrival at ih ⊢
      rw [← List.append_assoc, List.rdropWhile_concat_pos _ _ _ (by rw [hlast]; rfl)]
      exact ih fun other hother => hnone other (List.mem_append_left _ hother)

theorem upToArrival_arrived (datagram : Datagram)
    (hnone : ∀ event ∈ events, event.isArrived = false) :
    upToArrival (trace ++ .arrived datagram :: events) = trace ++ [.arrived datagram] := by
  rw [List.append_cons, upToArrival_append hnone]
  exact List.rdropWhile_concat_neg _ _ _ (by simp [Event.isArrived])

theorem Event.isArrived_of_ofSend {event : Event} (hsend : event.ofSend = true) :
    event.isArrived = false := by
  cases event <;> first | rfl | cases hsend

end Traces

namespace ReliableSocket

variable {config : Config} {crypto : SharpCrypto} {memory : Memory}
  {socket next : ReliableSocket} {action : Action} {trace events : List Event}

theorem Receiving.isArrived_eq_false (hreceiving : socket.Receiving next events) :
    ∀ event ∈ events, event.isArrived = false := by
  cases hreceiving with
  | fastResend =>
      unfold SendSide.fastResendEvents
      split <;> simp [Event.isArrived]
  | head | queueAck | recvUna | ackRecv | fastResent => simp

/-- Datagrams arrive only when they are received. -/
theorem Transition.isArrived_eq_false
    (htransition : socket.Transition config crypto action next events)
    (haction : ∀ datagram, action ≠ .receive datagram) :
    ∀ event ∈ events, event.isArrived = false := by
  cases htransition with
  | pushed | close | unpacked => simp [Event.isArrived]
  | refused | segment => simp
  | assigned =>
      exact fun event hevent =>
        Event.isArrived_of_ofSend (SendSide.filter_assignEvents _ _ event hevent)
  | sender hstep =>
      exact fun event hevent =>
        Event.isArrived_of_ofSend ((SendSide.senderStep_transition hstep).ofSend event hevent)
  | ackHandler hstep =>
      exact fun event hevent =>
        Event.isArrived_of_ofSend ((SendSide.ackHandlerStep_transition hstep).ofSend event hevent)
  | ackSender hsending => cases hsending <;> simp [Event.isArrived]
  | data | ack | connectionClose => exact absurd rfl (haction _)
  | receiver hreceiving => exact hreceiving.isArrived_eq_false
  | recvPackage hstep =>
      generalize socket.workerRunning = running at hstep
      have hmove : socket.recv.Transition crypto (.recvPackage running) _ _ :=
        RecvSide.step_transition hstep
      cases hmove with
      | buffered | take | finish => simp [Event.isArrived]
      | enter | stop | skip | wait | wake | load => simp

/-- The datagram that was received last is an Ack with this list. -/
def LastAck (trace : List Event) (ackList : List UInt64) : Prop :=
  ∃ una sendFrom, (upToArrival trace).getLast? = some (.arrived (.ack una sendFrom ackList))

/-- The receiver thread acts on the Ack received last. -/
structure ProcessesLast (socket : ReliableSocket) (trace : List Event) : Prop where
  listed : ∀ una ackList, socket.receiver = .ackRecv una ackList → LastAck trace ackList
  asking : ∀ resendId maxAckId, socket.receiver = .fastResend resendId maxAckId →
    socket.send.sendAckId ≤ socket.send.resendNow ∧
      ∃ ackList, LastAck trace ackList ∧ maxAckId ∈ ackList.map UInt64.toNat

theorem ProcessesLast.mono (hprocesses : socket.ProcessesLast trace)
    (hreceiver : next.receiver = socket.receiver)
    (hsendAckId : next.send.sendAckId = socket.send.sendAckId)
    (hresendNow : next.send.resendNow = socket.send.resendNow)
    (hnone : ∀ event ∈ events, event.isArrived = false) :
    next.ProcessesLast (trace ++ events) := by
  have hlast : ∀ ackList, LastAck trace ackList → LastAck (trace ++ events) ackList := by
    intro ackList hlast
    unfold LastAck
    rw [upToArrival_append hnone]
    exact hlast
  refine ⟨fun una ackList hthread => ?_, fun resendId maxAckId hthread => ?_⟩
  · exact hlast _ (hprocesses.listed una ackList (hreceiver ▸ hthread))
  · obtain ⟨hle, ackList, hlisted, hmax⟩ :=
      hprocesses.asking resendId maxAckId (hreceiver ▸ hthread)
    rw [hsendAckId, hresendNow]
    exact ⟨hle, ackList, hlast _ hlisted, hmax⟩

/-- A thread that processes no Ack. -/
theorem ProcessesLast.idle (hlisted : ∀ una ackList, socket.receiver ≠ .ackRecv una ackList)
    (hasking : ∀ resendId maxAckId, socket.receiver ≠ .fastResend resendId maxAckId) :
    socket.ProcessesLast trace :=
  ⟨fun una ackList hthread => absurd hthread (hlisted una ackList),
    fun resendId maxAckId hthread => absurd hthread (hasking resendId maxAckId)⟩

theorem ProcessesLast.receiving (hprocesses : socket.ProcessesLast trace)
    (hreceiving : socket.Receiving next events) : next.ProcessesLast (trace ++ events) := by
  have hnone := hreceiving.isArrived_eq_false
  cases hreceiving with
  | head _ hnew =>
      rcases hnew with rfl | rfl <;> exact .idle (by rintro _ _ ⟨⟩) (by rintro _ _ ⟨⟩)
  | queueAck | recvUna | fastResent => exact .idle (by rintro _ _ ⟨⟩) (by rintro _ _ ⟨⟩)
  | @ackRecv una ackList thread hreceiver hthread =>
      rcases hthread with rfl | ⟨hlater, rfl⟩
      · exact .idle (by rintro _ _ ⟨⟩) (by rintro _ _ ⟨⟩)
      · have hlisted := (socket.send.mem_maxAckId (ackList.map UInt64.toNat)).resolve_left
          (by omega)
        refine ⟨by rintro _ _ ⟨⟩, ?_⟩
        rintro _ _ ⟨⟩
        rw [List.append_nil]
        refine ⟨?_, ackList, hprocesses.listed una ackList hreceiver, hlisted.1⟩
        show (socket.send.receiveAck una.toNat (ackList.map UInt64.toNat)).sendAckId ≤
          (socket.send.receiveAck una.toNat (ackList.map UInt64.toNat)).resendNow
        rw [SendSide.receiveAck_resendNow]
        exact le_max_right _ _
  | @fastResend resendId maxAckId hreceiver hlt =>
      obtain ⟨hle, ackList, ⟨una, sendFrom, hlast⟩, hmax⟩ := hprocesses.asking _ _ hreceiver
      obtain ⟨pool, heq⟩ := @SendSide.fastResend_frame socket.send resendId
      refine ⟨by rintro _ _ ⟨⟩, ?_⟩
      rintro _ _ ⟨⟩
      rw [heq]
      exact ⟨hle, ackList, ⟨una, sendFrom, (upToArrival_append hnone).symm ▸ hlast⟩, hmax⟩

theorem ProcessesLast.step (hprocesses : socket.ProcessesLast trace)
    (htransition : socket.Transition config crypto action next events) :
    next.ProcessesLast (trace ++ events) := by
  have hnone := htransition.isArrived_eq_false
  cases htransition with
  | pushed | refused | close | segment | unpacked | ackSender | recvPackage =>
      exact hprocesses.mono rfl rfl rfl (hnone (by rintro _ ⟨⟩))
  | assigned _ _ hid =>
      obtain ⟨hnow, hcounter, -⟩ :=
        (SendSide.Transition.assign hid).resends_frame (.inl ⟨_, rfl⟩)
      exact hprocesses.mono rfl hcounter hnow (hnone (by rintro _ ⟨⟩))
  | sender hstep =>
      obtain ⟨hnow, hcounter, -⟩ :=
        (SendSide.senderStep_transition hstep).resends_frame (.inr (.inl ⟨_, _, rfl⟩))
      exact hprocesses.mono rfl hcounter hnow (hnone (by rintro _ ⟨⟩))
  | ackHandler hstep =>
      obtain ⟨hnow, hcounter, -⟩ :=
        (SendSide.ackHandlerStep_transition hstep).resends_frame (.inr (.inr ⟨_, _, rfl⟩))
      exact hprocesses.mono rfl hcounter hnow (hnone (by rintro _ ⟨⟩))
  | data | connectionClose => exact .idle (by rintro _ _ ⟨⟩) (by rintro _ _ ⟨⟩)
  | @ack una sendFrom ackList hreceiver =>
      refine ⟨?_, by rintro _ _ ⟨⟩⟩
      rintro _ _ ⟨⟩
      refine ⟨una, sendFrom, ?_⟩
      rw [upToArrival_arrived _ (by simp), List.getLast?_concat]
  | receiver hreceiving => exact hprocesses.receiving hreceiving

theorem reach_processesLast {allowed : Machine.StepCondition ReliableSocket Action Event}
    (hreach : (socketMachine config crypto).Reach allowed (init memory) socket trace) :
    socket.ProcessesLast trace := by
  refine hreach.invariant ProcessesLast (.idle (by rintro _ _ ⟨⟩) (by rintro _ _ ⟨⟩)) ?_
  intro socket trace action next events hprocesses hstep _
  exact hprocesses.step (step_transition hstep)

/-- Ids are asked for again by the fast resend loop alone. -/
theorem Transition.fastResent {id : Nat}
    (htransition : socket.Transition config crypto action next events)
    (hevent : .fastResent id ∈ events) : ∃ maxAckId,
      socket.receiver = .fastResend id maxAckId ∧ id < maxAckId ∧
        socket.send.ackRecvPool.find id = 0 := by
  have hnone : events.count (.fastResent id) ≠ 0 := fun hcount =>
    List.count_eq_zero.mp hcount hevent
  cases htransition with
  | pushed | refused | close | segment | unpacked | ack | connectionClose => simp at hevent
  | assigned _ _ hid =>
      exact absurd (((SendSide.Transition.assign hid).resends_frame (.inl ⟨_, rfl⟩)).2.2 id) hnone
  | sender hstep =>
      exact absurd (((SendSide.senderStep_transition hstep).resends_frame
        (.inr (.inl ⟨_, _, rfl⟩))).2.2 id) hnone
  | ackHandler hstep =>
      exact absurd (((SendSide.ackHandlerStep_transition hstep).resends_frame
        (.inr (.inr ⟨_, _, rfl⟩))).2.2 id) hnone
  | ackSender hsending => cases hsending <;> simp at hevent
  | @data packageId una payload _ hcaller =>
      have hmove := @RecvSide.Transition.data crypto _ packageId una payload hcaller
      exact absurd (count_fastResent_ofRecv hmove.ofRecv id) hnone
  | recvPackage hstep =>
      have hmove : socket.recv.Transition crypto (.recvPackage _) _ _ :=
        RecvSide.step_transition hstep
      exact absurd (count_fastResent_ofRecv hmove.ofRecv id) hnone
  | receiver hreceiving =>
      cases hreceiving with
      | head | queueAck | recvUna | ackRecv | fastResent => simp at hevent
      | @fastResend resendId maxAckId hreceiver hlt =>
          unfold SendSide.fastResendEvents at hevent
          split at hevent
          next hfind =>
            obtain rfl : id = resendId := by simpa using hevent
            exact ⟨maxAckId, hreceiver, hlt, hfind⟩
          next => cases hevent

/-- Each id is asked for at most once, and is a live gap when it is asked for: assigned, not
acknowledged, and below an id that the Ack received last lists. -/
theorem fastResent_live
    (hreach : (socketMachine config crypto).Reach Machine.always (init memory) socket trace) :
    (∀ id, trace.count (.fastResent id) ≤ 1) ∧
      ∀ action next events, socket.step config crypto action = some (next, events) →
        ∀ id, .fastResent id ∈ events →
          socket.send.sendAckId < id ∧ id < socket.send.sendId ∧
            socket.send.ackRecvPool.find id = 0 ∧
            ∃ una sendFrom ackList,
              (upToArrival trace).getLast? = some (.arrived (.ack una sendFrom ackList)) ∧
              ∃ listed ∈ ackList, id < listed.toNat ∧ listed.toNat ≤ socket.send.sendId := by
  have hasks := reach_asksOnce hreach
  have hprocesses := reach_processesLast hreach
  constructor
  · intro id
    have honce := hasks.once id
    split at honce <;> omega
  · intro action next events hstep id hevent
    obtain ⟨maxAckId, hreceiver, hlt, hfind⟩ := (step_transition hstep).fastResent hevent
    obtain ⟨habove, -, hassigned⟩ := hasks.asking _ _ hreceiver
    obtain ⟨hle, ackList, ⟨una, sendFrom, hlast⟩, hmax⟩ := hprocesses.asking _ _ hreceiver
    -- The loop runs up to the largest id that the Ack lists and the sender accepts.
    obtain ⟨listed, hlisted, rfl⟩ := List.mem_map.mp hmax
    exact ⟨by omega, by omega, hfind, una, sendFrom, ackList, hlast, listed, hlisted, hlt,
      hassigned⟩

/-- Four packages are assigned, and an Ack lists the last of them. -/
theorem fastResent_live_first : ∃ socket trace,
    (socketMachine .standard .marking).Reach Machine.always (init .zeroed) socket trace ∧
    (socket.step .standard .marking .receiver).map Prod.snd = some [.fastResent 1] ∧
    socket.send.sendAckId < 1 ∧ 1 < socket.send.sendId := by
  obtain ⟨socket, trace, hreach, hview⟩ := Machine.reach_of_exec
    (fun (socket : ReliableSocket) (_ : List Event) =>
      (socket.step .standard .marking .receiver).map Prod.snd)
    (show ((socketMachine .standard .marking).exec Machine.always (init .zeroed) []
      ((List.replicate 4 (.sendPackage [7] :: List.replicate 7 (.segment .zero))).flatten ++
        [.receiver, .receive (.ack 0 0 [4]), .receiver])).map _ = some (some [.fastResent 1])
      by decide)
  obtain ⟨⟨next, events⟩, hstep, rfl⟩ := Option.map_eq_some_iff.mp hview
  have hlive := (fastResent_live hreach).2 .receiver next [.fastResent 1] hstep 1
    List.mem_cons_self
  exact ⟨socket, trace, hreach, hview, hlive.1, hlive.2.1⟩

end ReliableSocket

end Sharpvpn
