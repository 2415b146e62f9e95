import Sharpvpn.Foundation.Duplex
import Sharpvpn.Rudp.RecvSide
import Sharpvpn.Rudp.SendSide

/-!
# A socket and its threads

A socket is a machine: each of its threads, the callers of its interface and the
network take steps on it in any order. A step of a thread is one section under a
mutex together with the thread's own computation around it.
-/

namespace Sharpvpn

open Foundation

inductive SegmentThread
  | head
  /-- After `msleep(20)`. -/
  | awake
  /-- In the loop that waits for the send window, with the copied list. -/
  | waiting (list : Cursor)
  /-- At the head of the packing loop. -/
  | outer (list : Cursor)
  /-- In the inner packing loop, with the front of the list and what is written of
  the plaintext before its end mark. -/
  | inner (list : Cursor) (segment : Option Bytes) (body : Bytes)
  | exited

/-- `segment_list` and its thread. The thread's copy shares the array. -/
structure SegmentSide where
  segmentArr : Nat → Bytes
  segmentList : Cursor := {}
  thread : SegmentThread := .head

inductive AckSenderThread
  | head
  | entered
  /-- Sending the ids of the copied queue. -/
  | reading (list : Cursor)
  | exited

/-- `ack_send_queue` and its thread. The thread's copy shares the array. -/
structure AckSide where
  ackSendQueue : AckQueue
  ackSender : AckSenderThread := .head

inductive ReceiverThread
  | head
  | listening
  /-- After the `recv_mutex` section of a Data datagram. -/
  | queueAck (packageId una : UInt64)
  /-- After the acknowledgement has been queued. -/
  | recvUna (una : UInt64)
  /-- Before the `ack_recv_mutex` section of an Ack datagram. -/
  | ackRecv (una : UInt64) (ackList : List UInt64)
  /-- In the fast resend loop. -/
  | fastResend (resendId maxAckId : Nat)
  | exited

structure ReliableSocket where
  workerRunning : Bool := true
  segment : SegmentSide
  send : SendSide
  recv : RecvSide
  ack : AckSide
  receiver : ReceiverThread := .head

/-- What the constructors leave uninitialised. -/
structure Memory where
  segmentArr : Nat → Bytes
  ackRecvPool : Nat → Nat
  ackSendQueue : Nat → UInt64
  segmentRecv : Bytes

/-- Memory that happens to be zero. -/
def Memory.zeroed : Memory := ⟨fun _ => [], fun _ => 0, fun _ => 0, []⟩

inductive Action
  | sendPackage (segment : Bytes)
  | close
  | segment (nonce : Nonce)
  | sender
  | ackSender
  | ackHandler (timedOut : Bool)
  | receive (datagram : Datagram)
  | receiver
  | recvPackage

namespace SegmentSide

/-- `list.front()`, null for an empty list. -/
def front (side : SegmentSide) (list : Cursor) : Option Bytes :=
  if list.len = 0 then none else some (side.segmentArr list.start)

/-- The test of the inner packing loop; the cursor `start` stands two bytes behind
the body. -/
def fits (config : Config) (list : Cursor) (segment body : Bytes) : Bool :=
  list.len > 0 && maxSegment config.mtu - 2 - (body.length + 2 : Nat) > segment.length

/-- `send_package` -/
def pushSegment (side : SegmentSide) (segment : Bytes) : SegmentSide :=
  { side with
    segmentArr := Function.update side.segmentArr side.segmentList.stop segment
    segmentList := side.segmentList.push ringCapacity }

/-- The thread after it has appended a segment to the body. -/
def unpack (side : SegmentSide) (list : Cursor) (segment body : Bytes) : SegmentSide :=
  { side with
    thread := .inner (list.pop ringCapacity) (side.front (list.pop ringCapacity))
      (body ++ Framing.frame segment) }

/-- The segments pushed and not yet packed: those in the copied list and those in
the list itself. -/
def backlog (side : SegmentSide) : Nat :=
  side.segmentList.len +
    match side.thread with
    | .waiting list | .outer list | .inner list _ _ => list.len
    | _ => 0

end SegmentSide

/-- The next step of the ack sender thread. Every Ack is sent twice. -/
def AckSide.ackSenderStep (running : Bool) (recvAckId sendFrom : Nat) (side : AckSide) :
    Option (AckSide × List Event) :=
  match side.ackSender with
  | .head => some ({ side with ackSender := if running then .entered else .exited }, [])
  | .entered =>
      -- copied and emptied under `ack_send_mutex`
      some (⟨side.ackSendQueue.rebase, .reading side.ackSendQueue.cursor⟩, [])
  | .reading list =>
      if list.len = 0 then some ({ side with ackSender := .head }, [])
      else
        let loaded := AckQueue.load side.ackSendQueue.arr 35 (UInt64.ofNat recvAckId) list
        some ({ side with ackSender := .reading loaded.2 },
          List.replicate 2
            (.sent (.ack (UInt64.ofNat recvAckId) (UInt64.ofNat sendFrom) loaded.1)))
  | .exited => none

namespace ReliableSocket

def init (memory : Memory) : ReliableSocket where
  segment := { segmentArr := memory.segmentArr }
  send := { ackRecvPool := ⟨memory.ackRecvPool⟩ }
  recv := { segmentRecv := { buf := memory.segmentRecv } }
  ack := { ackSendQueue := { arr := memory.ackSendQueue } }

/-- `send_package`; it returns -1 on a socket that has been closed. -/
def sendPackage (socket : ReliableSocket) (segment : Bytes) :
    Option (ReliableSocket × List Event) :=
  if socket.workerRunning then
    some ({ socket with segment := socket.segment.pushSegment segment }, [.pushed segment])
  else some (socket, [])

/-- `stop_all_thread` -/
def stopAllThread (socket : ReliableSocket) : ReliableSocket :=
  { socket with workerRunning := false, recv := socket.recv.signal }

/-- The next step of the segment thread. Packages are assigned while ids stay below
`2 ^ 63`, far from where the 64-bit counters wrap around. -/
def segmentStep (config : Config) (crypto : SharpCrypto) (nonce : Nonce)
    (socket : ReliableSocket) : Option (ReliableSocket × List Event) :=
  let moved (thread : SegmentThread) : ReliableSocket :=
    { socket with segment := { socket.segment with thread } }
  match socket.segment.thread with
  | .head => some (moved (if socket.workerRunning then .awake else .exited), [])
  | .awake =>
      -- tested before `segment_mutex` is taken
      if socket.segment.segmentList.len = 0 then some (moved .head, [])
      else
        some ({ socket with segment := { socket.segment with
          segmentList := socket.segment.segmentList.rebase
          thread := .waiting socket.segment.segmentList } }, [])
  | .waiting list =>
      -- `worker_running` is not part of the test.
      if sub64 socket.send.sendId socket.send.sendAckId > 8000 then some (socket, [])
      else some (moved (.outer list), [])
  | .outer list =>
      if list.len > 0 then some (moved (.inner list (socket.segment.front list) []), [])
      else some (moved .head, [])
  -- `front` of an empty list
  | .inner list none body => closePackage list body
  | .inner list (some segment) body =>
      if SegmentSide.fits config list segment body then
        some ({ socket with segment := socket.segment.unpack list segment body },
          [.unpacked segment])
      else closePackage list body
  | .exited => none
where
  /-- What follows the inner packing loop. -/
  closePackage (list : Cursor) (body : Bytes) : Option (ReliableSocket × List Event) :=
    let payload := crypto.encrypt nonce (body ++ Framing.word 0)
    if body.length + 2 > 2 then
      if socket.send.sendId + 2 < 2 ^ 63 then
        some ({ socket with
          segment := { socket.segment with thread := .outer list }
          send := socket.send.assign payload }, socket.send.assignEvents payload)
      else none
    else some ({ socket with segment := { socket.segment with thread := .outer list } }, [])

/-- The receiver thread takes a datagram. The Data branch needs `recv_mutex`. -/
def receive (datagram : Datagram) (socket : ReliableSocket) :
    Option (ReliableSocket × List Event) :=
  match socket.receiver, datagram with
  | .listening, .data packageId una payload =>
      -- `recv_package` scans under `recv_mutex`.
      if socket.recv.caller = .scanning then none
      else
        some ({ socket with
          recv := socket.recv.receiveData ⟨packageId.toNat, payload⟩
          receiver := .queueAck packageId una },
          .arrived datagram :: socket.recv.receiveDataEvents ⟨packageId.toNat, payload⟩)
  | .listening, .ack una sendFrom ackList =>
      some ({ socket with
        recv := socket.recv.receiveSendFrom sendFrom.toNat
        -- an illegal `una` counts as 0
        receiver := .ackRecv (if una.toNat > socket.send.sendId then 0 else una) ackList },
        [.arrived datagram])
  | .listening, .connectionClose =>
      some ({ socket.stopAllThread with receiver := .head }, [.arrived datagram])
  | _, _ => none

/-- The next step of the receiver thread inside the treatment of a datagram. -/
def receiverStep (socket : ReliableSocket) : Option (ReliableSocket × List Event) :=
  match socket.receiver with
  | .head =>
      some ({ socket with receiver := if socket.workerRunning then .listening else .exited }, [])
  | .listening => none
  | .queueAck packageId una =>
      some ({ socket with
        recv := socket.recv.signal
        ack := { socket.ack with ackSendQueue := socket.ack.ackSendQueue.push packageId }
        receiver := .recvUna una }, [])
  | .recvUna una =>
      some ({ socket with send := socket.send.receiveUna una.toNat, receiver := .head }, [])
  | .ackRecv una ackList =>
      let ids := ackList.map UInt64.toNat
      let acked := socket.send.receiveAck una.toNat ids
      some ({ socket with
        send := acked
        receiver :=
          -- The largest id is that of the ids accepted before `send_ack_id` moved.
          if socket.send.maxAckId ids > (acked.resendNow + 2) % 2 ^ 64 then
            .fastResend (succ64 acked.resendNow) (socket.send.maxAckId ids)
          else .head }, [])
  | .fastResend resendId maxAckId =>
      if resendId < maxAckId then
        some ({ socket with
          send := socket.send.fastResend resendId
          receiver := .fastResend (resendId + 1) maxAckId },
          socket.send.fastResendEvents resendId)
      else
        some ({ socket with
          send := { socket.send with resendNow := maxAckId }
          receiver := .head }, [])
  | .exited => none

/-- One step of a socket. -/
def step (config : Config) (crypto : SharpCrypto) (socket : ReliableSocket) :
    Action → Option (ReliableSocket × List Event)
  | .sendPackage segment => socket.sendPackage segment
  | .close => some (socket.stopAllThread, [.sent .connectionClose])
  | .segment nonce => socket.segmentStep config crypto nonce
  | .sender =>
      (socket.send.senderStep socket.workerRunning socket.recv.recvAckId).map fun result =>
        ({ socket with send := result.1 }, result.2)
  | .ackSender =>
      (socket.ack.ackSenderStep socket.workerRunning socket.recv.recvAckId
        socket.send.sendFrom).map fun result => ({ socket with ack := result.1 }, result.2)
  | .ackHandler timedOut =>
      (socket.send.ackHandlerStep socket.workerRunning timedOut).map fun result =>
        ({ socket with send := result.1 }, result.2)
  | .receive datagram => socket.receive datagram
  | .receiver => socket.receiverStep
  | .recvPackage =>
      (socket.recv.recvPackage crypto socket.workerRunning).map fun result =>
        ({ socket with recv := result.1 }, result.2)

end ReliableSocket

/-- A connected socket as a machine. -/
def socketMachine (config : Config) (crypto : SharpCrypto) :
    Machine ReliableSocket Action Event where
  step := ReliableSocket.step config crypto

end Sharpvpn
