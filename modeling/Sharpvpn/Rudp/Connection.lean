import Sharpvpn.Rudp.Trace

/-!
# Two connected sockets

Two sockets that share a key, over a network that may lose, duplicate, delay and
reorder every datagram.
-/

namespace Sharpvpn

open Foundation

/-- A datagram is received by a step that takes it, and only then. -/
theorem ReliableSocket.Transition.arrived {config : Config} {crypto : SharpCrypto}
    {socket next : ReliableSocket} {action : Action} {events : List Event} {datagram : Datagram}
    (htransition : socket.Transition config crypto action next events)
    (harrived : .arrived datagram ∈ events) : action = .receive datagram := by
  have hfiltered : .arrived datagram ∈ events.filter Event.ofRecv :=
    List.mem_filter.mpr ⟨harrived, rfl⟩
  cases htransition.halves with
  | still _ _ _ hofRecv | closed _ _ _ _ hofRecv =>
      rw [hofRecv] at hfiltered
      cases hfiltered
  | send _ hstep =>
      rw [(filter_ofSend hstep).2] at hfiltered
      cases hfiltered
  | recv hmoves hstep =>
      have hrecv := RecvSide.step_transition hstep
      generalize next.recv = recv at hrecv
      cases hrecv with
      | data =>
          cases hmoves
          unfold RecvSide.receiveDataEvents at harrived
          split at harrived <;> simp_all
      | ack | connectionClose =>
          cases hmoves
          simp_all
      | signal | enter | stop | skip | wait | wake | load => cases harrived
      | buffered | take | finish => simp at harrived

/-- The datagrams a step sends, with the counters and ids they report. -/
theorem ReliableSocket.Transition.sent {config : Config} {crypto : SharpCrypto}
    {socket next : ReliableSocket} {action : Action} {events : List Event} {datagram : Datagram}
    (htransition : socket.Transition config crypto action next events)
    (hsent : .sent datagram ∈ events) :
    (∃ package, socket.send.sender = .holding package ∧
      datagram = .data (UInt64.ofNat package.packageId) (UInt64.ofNat socket.recv.recvAckId)
        package.payload) ∨
    (∃ list, socket.ack.ackSender = .reading list ∧
      datagram = .ack (UInt64.ofNat socket.recv.recvAckId) (UInt64.ofNat socket.send.sendFrom)
        (AckQueue.load socket.ack.ackSendQueue.arr 35 (UInt64.ofNat socket.recv.recvAckId)
          list).1) ∨
    datagram = .connectionClose := by
  have herase : ∀ id, .sent datagram ∉ socket.send.eraseEvents id := by
    intro id hmem
    simp [SendSide.eraseEvents] at hmem
  cases htransition with
  | close => exact .inr (.inr (by simpa using hsent))
  | ackSender hsending =>
      cases hsending with
      | turn | copy => cases hsent
      | load hthread =>
          rw [List.mem_replicate] at hsent
          exact .inr (.inl ⟨_, hthread, Event.sent.inj hsent.2⟩)
  | sender hstep =>
      cases SendSide.senderStep_transition hstep with
      | senderMove | missed | vanished | queued => cases hsent
      | popped => simp at hsent
      | sent hsender =>
          rw [List.mem_replicate] at hsent
          exact .inl ⟨_, hsender, Event.sent.inj hsent.2⟩
  | ackHandler hstep =>
      cases SendSide.ackHandlerStep_transition hstep with
      | handlerMove | handled | watch | expire | settle => cases hsent
      | timedOut => simp at hsent
      | dropped | settled => simp [herase] at hsent
  | assigned =>
      simp [SendSide.assignEvents] at hsent
  | data =>
      simp [RecvSide.receiveDataEvents] at hsent
  | receiver hreceiving =>
      cases hreceiving with
      | head | queueAck | recvUna | ackRecv | fastResent => cases hsent
      | fastResend => simp [SendSide.fastResendEvents] at hsent
  | recvPackage hstep =>
      have hrecv : socket.recv.step crypto (.recvPackage socket.workerRunning) = some _ := hstep
      have := (RecvSide.step_transition hrecv).ofRecv _ hsent
      cases this
  | pushed | unpacked | ack | connectionClose => simp at hsent
  | refused | segment => cases hsent

/-- The two ends of a connection. -/
def connection (config : Side → Config) (crypto : SharpCrypto) :
    Duplex ReliableSocket Action Event Datagram where
  ends side := socketMachine (config side) crypto
  takes action :=
    match action with
    | .receive datagram => some datagram
    | _ => none
  emits event :=
    match event with
    | .sent datagram => some datagram
    | _ => none
  observes event :=
    match event with
    | .arrived datagram => some datagram
    | _ => none
  observes_taken := by
    intro side state action next events event message hstep hevent hobserves
    cases event with
    | arrived datagram =>
        obtain rfl : datagram = message := by simpa using hobserves
        rw [(ReliableSocket.step_transition hstep).arrived hevent]
    | pushed | unpacked | assigned | popped | sent | stored | taken | returned | settled
    | dropped | timedOut | fastResent | freed => cases hobserves

namespace connection

variable {config : Side → Config} {crypto : SharpCrypto} {memory : Side → Memory}
  {allowed : Machine.StepCondition (Duplex.State ReliableSocket Datagram) (Side × Action)
    (Side × Event)}
  {state : Duplex.State ReliableSocket Datagram} {trace : List (Side × Event)}

/-- Both sockets fresh, and nothing on the way. -/
def start (memory : Side → Memory) : Duplex.State ReliableSocket Datagram :=
  .init fun side => ReliableSocket.init (memory side)

/-- Each end of a connection runs as a socket. -/
theorem reach_end (side : Side)
    (hreach : (connection config crypto).machine.Reach allowed (start memory) state trace) :
    (socketMachine (config side) crypto).Reach Machine.always
      (ReliableSocket.init (memory side)) (state.ends side) (Duplex.at_ side trace) :=
  Duplex.reach_side side (fun _ _ _ _ _ _ _ _ => trivial) hreach

theorem sent_of_emits {event : Event} {datagram : Datagram}
    (hemits : (connection config crypto).emits event = some datagram) :
    event = .sent datagram := by
  cases event with
  | sent other =>
      obtain rfl : other = datagram := by simpa [connection] using hemits
      rfl
  | pushed | unpacked | assigned | popped | arrived | stored | taken | returned | settled
  | dropped | timedOut | fastResent | freed => cases hemits

/-- Every datagram received was sent by the other end. -/
theorem arrived_sent
    (hreach : (connection config crypto).machine.Reach allowed (start memory) state trace)
    {side : Side} {datagram : Datagram} (harrived : .arrived datagram ∈ Duplex.at_ side trace) :
    .sent datagram ∈ Duplex.at_ side.peer trace := by
  obtain ⟨source, hmem, hemits⟩ := Duplex.observed_emitted hreach harrived rfl
  exact sent_of_emits hemits ▸ hmem

end connection

end Sharpvpn
