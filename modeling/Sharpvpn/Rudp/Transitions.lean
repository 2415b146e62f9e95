import Sharpvpn.Rudp.ReliableSocket

/-!
# The transitions of a socket

Every step of a socket is one of a few transitions, each with what it needs and
the state it leads to.
-/

namespace Sharpvpn

open Foundation

/-- Steps of the segment thread that hand nothing over. -/
inductive SegmentSide.Quiet (side : SegmentSide) : SegmentSide → Prop
  | idle {thread} (hold : side.thread = .head ∨ side.thread = .awake)
      (hnew : thread = .head ∨ thread = .awake ∨ thread = .exited) :
      Quiet side { side with thread }
  | copy (hthread : side.thread = .awake) : Quiet side
      { side with segmentList := side.segmentList.rebase, thread := .waiting side.segmentList }
  | wait : Quiet side side
  | ready {list} (hthread : side.thread = .waiting list) :
      Quiet side { side with thread := .outer list }
  | enter {list} (hthread : side.thread = .outer list) (hlen : 0 < list.len) :
      Quiet side { side with thread := .inner list (side.front list) [] }
  | finish {list} (hthread : side.thread = .outer list) (hlen : list.len = 0) :
      Quiet side { side with thread := .head }
  | skip {list front} (hthread : side.thread = .inner list front []) :
      Quiet side { side with thread := .outer list }

/-- The treatment of a datagram by the receiver thread and its loop. -/
inductive ReliableSocket.Receiving (socket : ReliableSocket) :
    ReliableSocket → List Event → Prop
  | head {thread} (hold : socket.receiver = .head)
      (hnew : thread = .listening ∨ thread = .exited) :
      Receiving socket { socket with receiver := thread } []
  | queueAck {packageId una} (hreceiver : socket.receiver = .queueAck packageId una) :
      Receiving socket { socket with
        recv := socket.recv.signal
        ack := { socket.ack with ackSendQueue := socket.ack.ackSendQueue.push packageId }
        receiver := .recvUna una } []
  | recvUna {una} (hreceiver : socket.receiver = .recvUna una) :
      Receiving socket { socket with
        send := socket.send.receiveUna una.toNat, receiver := .head } []
  | ackRecv {una ackList thread} (hreceiver : socket.receiver = .ackRecv una ackList)
      (hthread : thread = .head ∨
        ((socket.send.receiveAck una.toNat (ackList.map UInt64.toNat)).resendNow + 2) % 2 ^ 64 <
          socket.send.maxAckId (ackList.map UInt64.toNat) ∧
        thread = .fastResend
          (succ64 (socket.send.receiveAck una.toNat (ackList.map UInt64.toNat)).resendNow)
          (socket.send.maxAckId (ackList.map UInt64.toNat))) :
      Receiving socket { socket with
        send := socket.send.receiveAck una.toNat (ackList.map UInt64.toNat)
        receiver := thread } []
  | fastResend {resendId maxAckId} (hreceiver : socket.receiver = .fastResend resendId maxAckId)
      (hlt : resendId < maxAckId) :
      Receiving socket { socket with
        send := socket.send.fastResend resendId
        receiver := .fastResend (resendId + 1) maxAckId } (socket.send.fastResendEvents resendId)
  | fastResent {resendId maxAckId} (hreceiver : socket.receiver = .fastResend resendId maxAckId) :
      Receiving socket { socket with
        send := { socket.send with resendNow := maxAckId }, receiver := .head } []

/-- The steps of the ack sender thread. -/
inductive AckSide.Sending (recvAckId sendFrom : Nat) (side : AckSide) :
    AckSide → List Event → Prop
  | turn {thread} (hold : side.ackSender = .head ∨ ∃ list, side.ackSender = .reading list)
      (hnew : thread = .head ∨ thread = .entered ∨ thread = .exited) :
      Sending recvAckId sendFrom side { side with ackSender := thread } []
  | copy (hthread : side.ackSender = .entered) :
      Sending recvAckId sendFrom side
        ⟨side.ackSendQueue.rebase, .reading side.ackSendQueue.cursor⟩ []
  | load {list} (hthread : side.ackSender = .reading list) (hlen : 0 < list.len) :
      Sending recvAckId sendFrom side
        ⟨side.ackSendQueue,
          .reading (AckQueue.load side.ackSendQueue.arr 35 (UInt64.ofNat recvAckId) list).2⟩
        (List.replicate 2 (.sent (.ack (UInt64.ofNat recvAckId) (UInt64.ofNat sendFrom)
          (AckQueue.load side.ackSendQueue.arr 35 (UInt64.ofNat recvAckId) list).1)))

/-- Everything a step of a socket can do. -/
inductive ReliableSocket.Transition (config : Config) (crypto : SharpCrypto)
    (socket : ReliableSocket) : Action → ReliableSocket → List Event → Prop
  | pushed {segment} (hrunning : socket.workerRunning = true) :
      Transition config crypto socket (.sendPackage segment)
        { socket with segment := socket.segment.pushSegment segment } [.pushed segment]
  | refused {segment} : Transition config crypto socket (.sendPackage segment) socket []
  | close : Transition config crypto socket .close socket.stopAllThread [.sent .connectionClose]
  | segment {nonce next} (hquiet : socket.segment.Quiet next) :
      Transition config crypto socket (.segment nonce) { socket with segment := next } []
  | unpacked {nonce list segment body}
      (hthread : socket.segment.thread = .inner list (some segment) body)
      (hfits : SegmentSide.fits config list segment body = true) :
      Transition config crypto socket (.segment nonce)
        { socket with segment := socket.segment.unpack list segment body } [.unpacked segment]
  | assigned {nonce list front body} (hthread : socket.segment.thread = .inner list front body)
      (hbody : body ≠ []) (hid : socket.send.sendId + 2 < 2 ^ 63) :
      Transition config crypto socket (.segment nonce)
        { socket with
          segment := { socket.segment with thread := .outer list }
          send := socket.send.assign (crypto.encrypt nonce (body ++ Framing.word 0)) }
        (socket.send.assignEvents (crypto.encrypt nonce (body ++ Framing.word 0)))
  | sender {send events}
      (hstep : socket.send.senderStep socket.workerRunning socket.recv.recvAckId =
        some (send, events)) :
      Transition config crypto socket .sender { socket with send } events
  | ackSender {ack events}
      (hsending : socket.ack.Sending socket.recv.recvAckId socket.send.sendFrom ack events) :
      Transition config crypto socket .ackSender { socket with ack } events
  | ackHandler {timedOut send events}
      (hstep : socket.send.ackHandlerStep socket.workerRunning timedOut = some (send, events)) :
      Transition config crypto socket (.ackHandler timedOut) { socket with send } events
  | data {packageId una payload} (hreceiver : socket.receiver = .listening)
      (hcaller : socket.recv.caller ≠ .scanning) :
      Transition config crypto socket (.receive (.data packageId una payload))
        { socket with
          recv := socket.recv.receiveData ⟨packageId.toNat, payload⟩
          receiver := .queueAck packageId una }
        (.arrived (.data packageId una payload) ::
          socket.recv.receiveDataEvents ⟨packageId.toNat, payload⟩)
  | ack {una sendFrom ackList} (hreceiver : socket.receiver = .listening) :
      Transition config crypto socket (.receive (.ack una sendFrom ackList))
        { socket with
          recv := socket.recv.receiveSendFrom sendFrom.toNat
          receiver := .ackRecv (if una.toNat > socket.send.sendId then 0 else una) ackList }
        [.arrived (.ack una sendFrom ackList)]
  | connectionClose (hreceiver : socket.receiver = .listening) :
      Transition config crypto socket (.receive .connectionClose)
        { socket.stopAllThread with receiver := .head } [.arrived .connectionClose]
  | receiver {next events} (hreceiving : socket.Receiving next events) :
      Transition config crypto socket .receiver next events
  | recvPackage {recv events}
      (hstep : socket.recv.recvPackage crypto socket.workerRunning = some (recv, events)) :
      Transition config crypto socket .recvPackage { socket with recv } events

namespace ReliableSocket

variable {config : Config} {crypto : SharpCrypto} {socket next : ReliableSocket}
  {events : List Event}

theorem segmentStep_transition {nonce : Nonce}
    (hstep : socket.segmentStep config crypto nonce = some (next, events)) :
    socket.Transition config crypto (.segment nonce) next events := by
  have hclose : ∀ list front body, socket.segment.thread = .inner list front body →
      segmentStep.closePackage crypto nonce socket list body = some (next, events) →
      socket.Transition config crypto (.segment nonce) next events := by
    intro list front body hthread hclose
    unfold segmentStep.closePackage at hclose
    split at hclose
    next hbody =>
      split at hclose
      next hid =>
        cases hclose
        refine .assigned hthread ?_ hid
        rintro rfl
        simp at hbody
      next => cases hclose
    next hbody =>
      cases hclose
      obtain rfl : body = [] := List.eq_nil_of_length_eq_zero (by omega)
      exact .segment (.skip hthread)
  unfold segmentStep at hstep
  cases hthread : socket.segment.thread with
  | head =>
      simp only [hthread, Option.some.injEq, Prod.mk.injEq] at hstep
      obtain ⟨rfl, rfl⟩ := hstep
      refine .segment (.idle (.inl hthread) ?_)
      split <;> simp
  | awake =>
      simp only [hthread] at hstep
      split at hstep
      next =>
        cases hstep
        exact .segment (.idle (.inr hthread) (.inl rfl))
      next =>
        cases hstep
        exact .segment (.copy hthread)
  | waiting list =>
      simp only [hthread] at hstep
      split at hstep
      next =>
        cases hstep
        exact .segment .wait
      next =>
        cases hstep
        exact .segment (.ready hthread)
  | outer list =>
      simp only [hthread] at hstep
      split at hstep
      next hlen =>
        cases hstep
        exact .segment (.enter hthread hlen)
      next hlen =>
        cases hstep
        exact .segment (.finish hthread (by omega))
  | inner list front body =>
      cases front with
      | none =>
          simp only [hthread] at hstep
          exact hclose _ _ _ hthread hstep
      | some segment =>
          simp only [hthread] at hstep
          split at hstep
          next hfits =>
            cases hstep
            exact .unpacked hthread hfits
          next => exact hclose _ _ _ hthread hstep
  | exited => simp [hthread] at hstep

theorem receive_transition {datagram : Datagram}
    (hstep : socket.receive datagram = some (next, events)) :
    socket.Transition config crypto (.receive datagram) next events := by
  unfold receive at hstep
  cases hreceiver : socket.receiver with
  | listening =>
      cases datagram with
      | data packageId una payload =>
          simp only [hreceiver] at hstep
          split at hstep
          next => cases hstep
          next hcaller =>
            cases hstep
            exact .data hreceiver hcaller
      | ack una sendFrom ackList =>
          simp only [hreceiver] at hstep
          cases hstep
          exact .ack hreceiver
      | connectionClose =>
          simp only [hreceiver] at hstep
          cases hstep
          exact .connectionClose hreceiver
  | head | queueAck | recvUna | ackRecv | fastResend | exited => simp [hreceiver] at hstep

theorem receiverStep_receiving (hstep : socket.receiverStep = some (next, events)) :
    socket.Receiving next events := by
  unfold receiverStep at hstep
  cases hreceiver : socket.receiver with
  | head =>
      simp only [hreceiver, Option.some.injEq, Prod.mk.injEq] at hstep
      obtain ⟨rfl, rfl⟩ := hstep
      refine .head hreceiver ?_
      split <;> simp
  | queueAck packageId una =>
      simp only [hreceiver] at hstep
      cases hstep
      exact .queueAck hreceiver
  | recvUna una =>
      simp only [hreceiver] at hstep
      cases hstep
      exact .recvUna hreceiver
  | ackRecv una ackList =>
      simp only [hreceiver] at hstep
      cases hstep
      refine .ackRecv hreceiver ?_
      split
      next hlater => exact .inr ⟨hlater, rfl⟩
      next => exact .inl rfl
  | fastResend resendId maxAckId =>
      simp only [hreceiver] at hstep
      split at hstep
      next hlt =>
        cases hstep
        exact .fastResend hreceiver hlt
      next =>
        cases hstep
        exact .fastResent hreceiver
  | listening | exited => simp [hreceiver] at hstep

theorem ackSenderStep_sending {running : Bool} {recvAckId sendFrom : Nat} {side moved : AckSide}
    (hstep : side.ackSenderStep running recvAckId sendFrom = some (moved, events)) :
    side.Sending recvAckId sendFrom moved events := by
  unfold AckSide.ackSenderStep at hstep
  cases hthread : side.ackSender with
  | head =>
      simp only [hthread, Option.some.injEq, Prod.mk.injEq] at hstep
      obtain ⟨rfl, rfl⟩ := hstep
      refine .turn (.inl hthread) ?_
      split <;> simp
  | entered =>
      simp only [hthread] at hstep
      cases hstep
      exact .copy hthread
  | reading list =>
      simp only [hthread] at hstep
      split at hstep
      next =>
        cases hstep
        exact .turn (.inr ⟨list, hthread⟩) (.inl rfl)
      next hlen =>
        cases hstep
        exact .load hthread (Nat.pos_of_ne_zero hlen)
  | exited => simp [hthread] at hstep

/-- A step is one of the transitions. -/
theorem step_transition {action : Action}
    (hstep : socket.step config crypto action = some (next, events)) :
    socket.Transition config crypto action next events := by
  cases action with
  | sendPackage segment =>
      simp only [step, sendPackage] at hstep
      split at hstep
      next hrunning =>
        cases hstep
        exact .pushed hrunning
      next =>
        cases hstep
        exact .refused
  | close =>
      cases hstep
      exact .close
  | segment nonce => exact segmentStep_transition hstep
  | sender =>
      obtain ⟨⟨send, sent⟩, hsend, heq⟩ := Option.map_eq_some_iff.mp hstep
      cases heq
      exact .sender hsend
  | ackSender =>
      obtain ⟨⟨ack, sent⟩, hack, heq⟩ := Option.map_eq_some_iff.mp hstep
      cases heq
      exact .ackSender (ackSenderStep_sending hack)
  | ackHandler timedOut =>
      obtain ⟨⟨send, fates⟩, hsend, heq⟩ := Option.map_eq_some_iff.mp hstep
      cases heq
      exact .ackHandler hsend
  | receive datagram => exact receive_transition hstep
  | receiver => exact .receiver (receiverStep_receiving hstep)
  | recvPackage =>
      obtain ⟨⟨recv, returned⟩, hrecv, heq⟩ := Option.map_eq_some_iff.mp hstep
      cases heq
      exact .recvPackage hrecv

end ReliableSocket

end Sharpvpn
