import Sharpvpn.Rudp.Halves

/-!
# Runs of a socket and runs of its halves

A run of a socket is a run of its receiving half and of its sending half. A
condition on the steps of a half may use what is known of the socket's runs.
-/

namespace Sharpvpn

open Foundation

theorem Event.ofRecv_of_ofSend {event : Event} (hsend : event.ofSend = true) :
    event.ofRecv = false := by
  cases event <;> first | rfl | cases hsend

theorem SendSide.filter_assignEvents (side : SendSide) (payload : Bytes) :
    ∀ event ∈ side.assignEvents payload, event.ofSend = true := by
  unfold assignEvents
  cases side.sendPool.pushFrees side.sendId <;> simp [Event.ofSend]

theorem SendSide.filter_eraseEvents (side : SendSide) (id : Nat) :
    ∀ event ∈ side.eraseEvents id, event.ofSend = true := by
  unfold eraseEvents
  cases side.sendPool.eraseFrees id <;> simp [Event.ofSend]

/-- The sending half has events of its own only. -/
theorem SendSide.Transition.ofSend {side next : SendSide} {action : SendAction}
    {events : List Event} (htransition : side.Transition action next events) :
    ∀ event ∈ events, event.ofSend = true := by
  cases htransition with
  | assign => exact filter_assignEvents _ _
  | dropped => exact List.forall_mem_cons.mpr ⟨rfl, filter_eraseEvents _ _⟩
  | settled => exact List.forall_mem_cons.mpr ⟨rfl, filter_eraseEvents _ _⟩
  | fastResend =>
      unfold fastResendEvents
      split <;> simp [Event.ofSend]
  | sent =>
      intro event hevent
      rw [List.eq_of_mem_replicate hevent]
      rfl
  | popped | timedOut => simp [Event.ofSend]
  | senderMove | missed | vanished | queued | handlerMove | handled | watch | expire | settle
  | recvUna | ackRecv | fastResent => simp

/-- Only acknowledgements change what is acknowledged. -/
theorem SendSide.Transition.acks_frame {side next : SendSide} {action : SendAction}
    {events : List Event} (htransition : side.Transition action next events) :
    (next.sendAckId = side.sendAckId ∧ next.ackRecvPool = side.ackRecvPool) ∨
      (∃ una, action = .recvUna una ∧ next = side.receiveUna una.toNat) ∨
      ∃ una ackList, action = .ackRecv una ackList ∧
        next = side.receiveAck una.toNat (ackList.map UInt64.toNat) := by
  cases htransition with
  | recvUna => exact .inr (.inl ⟨_, rfl, rfl⟩)
  | ackRecv => exact .inr (.inr ⟨_, _, rfl, rfl⟩)
  | fastResend =>
      obtain ⟨pool, heq⟩ := @fastResend_frame side _
      rw [heq]
      exact .inl ⟨rfl, rfl⟩
  | assign | senderMove | missed | vanished | popped | sent | queued | handlerMove | handled
  | dropped | watch | expire | settle | timedOut | settled | fastResent => exact .inl ⟨rfl, rfl⟩

/-- The receiving half has events of its own only. -/
theorem RecvSide.Transition.ofRecv {crypto : SharpCrypto} {side next : RecvSide}
    {action : RecvAction} {events : List Event}
    (htransition : side.Transition crypto action next events) :
    ∀ event ∈ events, event.ofRecv = true := by
  cases htransition with
  | data =>
      unfold receiveDataEvents
      split <;> simp [Event.ofRecv]
  | ack | connectionClose | buffered | take | finish => simp [Event.ofRecv]
  | signal | enter | stop | skip | wait | wake | load => simp

namespace ReliableSocket

/-- How an action of the socket moves the receiving half. -/
inductive MovesRecv : Action → RecvAction → Prop
  | receive {datagram} : MovesRecv (.receive datagram) (.receive datagram)
  | close : MovesRecv .close .signal
  | receiver : MovesRecv .receiver .signal
  | recvPackage {running} : MovesRecv .recvPackage (.recvPackage running)

/-- How an action of the socket moves the sending half. -/
inductive MovesSend (socket : ReliableSocket) : Action → SendAction → Prop
  | assign {nonce payload} : MovesSend socket (.segment nonce) (.assign payload)
  | sender {running recvAckId} : MovesSend socket .sender (.sender running recvAckId)
  | ackHandler {running timedOut} :
      MovesSend socket (.ackHandler timedOut) (.ackHandler running timedOut)
  | recvUna {una} (hreceiver : socket.receiver = .recvUna una) :
      MovesSend socket .receiver (.recvUna una)
  | ackRecv {una ackList} (hreceiver : socket.receiver = .ackRecv una ackList) :
      MovesSend socket .receiver (.ackRecv una ackList)
  | fastResend {resendId maxAckId} (hreceiver : socket.receiver = .fastResend resendId maxAckId)
      (hlt : resendId < maxAckId) : MovesSend socket .receiver (.fastResend resendId)
  | fastResent {resendId maxAckId} (hreceiver : socket.receiver = .fastResend resendId maxAckId) :
      MovesSend socket .receiver (.fastResent maxAckId)

variable {config : Config} {crypto : SharpCrypto} {socket next : ReliableSocket}
  {action : Action} {events : List Event}

theorem filter_ofSend {side moved : SendSide} {move : SendAction}
    (hstep : side.step move = some (moved, events)) :
    events.filter Event.ofSend = events ∧ events.filter Event.ofRecv = [] := by
  have hsend := (SendSide.step_transition hstep).ofSend
  refine ⟨List.filter_eq_self.mpr hsend, List.filter_eq_nil_iff.mpr ?_⟩
  intro event hevent
  simp [Event.ofRecv_of_ofSend (hsend event hevent)]

theorem filter_ofRecv {side moved : RecvSide} {move : RecvAction}
    (hstep : side.step crypto move = some (moved, events)) :
    events.filter Event.ofRecv = events ∧ events.filter Event.ofSend = [] := by
  have hrecv := (RecvSide.step_transition hstep).ofRecv
  refine ⟨List.filter_eq_self.mpr hrecv, List.filter_eq_nil_iff.mpr ?_⟩
  intro event hevent hsend
  have := hrecv event hevent
  rw [Event.ofRecv_of_ofSend hsend] at this
  cases this

/-- The halves of a socket after a step: at most one has moved, or both are still. -/
inductive HalvesMove (crypto : SharpCrypto) (socket : ReliableSocket) (action : Action)
    (next : ReliableSocket) (events : List Event) : Prop
  | still (hsend : next.send = socket.send) (hrecv : next.recv = socket.recv)
      (hofSend : events.filter Event.ofSend = []) (hofRecv : events.filter Event.ofRecv = [])
  | send {move} (hmoves : socket.MovesSend action move)
      (hstep : socket.send.step move = some (next.send, events)) (hrecv : next.recv = socket.recv)
  | recv {move} (hmoves : MovesRecv action move)
      (hstep : socket.recv.step crypto move = some (next.recv, events))
      (hsend : next.send = socket.send)
  | closed (hmoves : MovesRecv action .signal) (hrecv : next.recv = socket.recv.signal)
      (hsend : next.send = socket.send) (hofSend : events.filter Event.ofSend = [])
      (hofRecv : events.filter Event.ofRecv = [])

theorem Receiving.halves (hreceiving : socket.Receiving next events) :
    socket.HalvesMove crypto .receiver next events := by
  cases hreceiving with
  | head => exact .still rfl rfl rfl rfl
  | queueAck => exact .recv .receiver rfl rfl
  | recvUna hreceiver => exact .send (.recvUna hreceiver) rfl rfl
  | ackRecv hreceiver => exact .send (.ackRecv hreceiver) rfl rfl
  | fastResend hreceiver hlt => exact .send (.fastResend hreceiver hlt) rfl rfl
  | fastResent hreceiver => exact .send (.fastResent hreceiver) rfl rfl

theorem Transition.halves (htransition : socket.Transition config crypto action next events) :
    socket.HalvesMove crypto action next events := by
  cases htransition with
  | pushed => exact .still rfl rfl rfl rfl
  | refused => exact .still rfl rfl rfl rfl
  | close => exact .closed .close rfl rfl rfl rfl
  | segment => exact .still rfl rfl rfl rfl
  | unpacked => exact .still rfl rfl rfl rfl
  | assigned _ _ hid => exact .send .assign (if_pos hid) rfl
  | sender hstep => exact .send .sender hstep rfl
  | ackSender hsending => cases hsending <;> exact .still rfl rfl rfl rfl
  | ackHandler hstep => exact .send .ackHandler hstep rfl
  | data _ hcaller => exact .recv .receive (if_neg hcaller) rfl
  | ack => exact .recv .receive rfl rfl
  | connectionClose => exact .recv .receive rfl rfl
  | receiver hreceiving => exact hreceiving.halves
  | recvPackage hstep => exact .recv .recvPackage hstep rfl

variable {memory : Memory} {trace : List Event}
  {allowed : Machine.StepCondition ReliableSocket Action Event}

/-- A run of the socket is a run of its sending half. -/
theorem reach_send {followed : Machine.StepCondition SendSide SendAction Event}
    (hfollowed : ∀ socket trace action next move,
      (socketMachine config crypto).Reach allowed (init memory) socket trace →
      allowed socket trace action next → socket.MovesSend action move →
      followed socket.send (trace.filter Event.ofSend) move next.send)
    (hreach : (socketMachine config crypto).Reach allowed (init memory) socket trace) :
    sendMachine.Reach followed (init memory).send socket.send (trace.filter Event.ofSend) := by
  refine hreach.simulate ReliableSocket.send Event.ofSend ?_
  intro state trace action next events hprior hstep hallowed
  cases (step_transition hstep).halves with
  | still hsend _ hofSend _ => exact .inl ⟨hsend, hofSend⟩
  | send hmoves hmove _ =>
      rw [(filter_ofSend hmove).1]
      exact .inr ⟨_, hmove, hfollowed _ _ _ _ _ hprior hallowed hmoves⟩
  | recv _ hmove hsend => exact .inl ⟨hsend, (filter_ofRecv hmove).2⟩
  | closed _ _ hsend hofSend _ => exact .inl ⟨hsend, hofSend⟩

/-- A run of the socket is a run of its receiving half. -/
theorem reach_recv {followed : Machine.StepCondition RecvSide RecvAction Event}
    (hfollowed : ∀ socket trace action next move,
      (socketMachine config crypto).Reach allowed (init memory) socket trace →
      allowed socket trace action next → MovesRecv action move →
      followed socket.recv (trace.filter Event.ofRecv) move next.recv)
    (hreach : (socketMachine config crypto).Reach allowed (init memory) socket trace) :
    (recvMachine crypto).Reach followed (init memory).recv socket.recv
      (trace.filter Event.ofRecv) := by
  refine hreach.simulate ReliableSocket.recv Event.ofRecv ?_
  intro state trace action next events hprior hstep hallowed
  cases (step_transition hstep).halves with
  | still _ hrecv _ hofRecv => exact .inl ⟨hrecv, hofRecv⟩
  | send _ hmove hrecv => exact .inl ⟨hrecv, (filter_ofSend hmove).2⟩
  | recv hmoves hmove _ =>
      rw [(filter_ofRecv hmove).1]
      exact .inr ⟨_, hmove, hfollowed _ _ _ _ _ hprior hallowed hmoves⟩
  | closed hmoves hrecv _ _ hofRecv =>
      rw [hofRecv]
      refine .inr ⟨.signal, ?_, hfollowed _ _ _ _ _ hprior hallowed hmoves⟩
      exact congrArg some (Prod.ext hrecv.symm rfl)

end ReliableSocket

end Sharpvpn
