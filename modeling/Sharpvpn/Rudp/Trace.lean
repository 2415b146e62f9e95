import Sharpvpn.Rudp.Projection

/-!
# What a trace shows

The ids, header fields and packages that the events of a run report. Most of them
are reported by one half of the socket and can be read off its own trace.
-/

namespace Sharpvpn

open Foundation

namespace Event

def arrivedId? : Event → Option Nat
  | .arrived (.data packageId _ _) => some packageId.toNat
  | _ => none

def sendFrom? : Event → Option Nat
  | .arrived (.ack _ sendFrom _) => some sendFrom.toNat
  | _ => none

def pushedSegment? : Event → Option Bytes
  | .pushed segment => some segment
  | _ => none

def unpackedSegment? : Event → Option Bytes
  | .unpacked segment => some segment
  | _ => none

def assignedPackage? : Event → Option PackageData
  | .assigned package => some package
  | _ => none

def arrivedPackage? : Event → Option PackageData
  | .arrived (.data packageId _ payload) => some ⟨packageId.toNat, payload⟩
  | _ => none

def takenPackage? : Event → Option PackageData
  | .taken package => some package
  | _ => none

def returnedSegment? : Event → Option Bytes
  | .returned segment => some segment
  | _ => none

def storedPackage? : Event → Option PackageData
  | .stored package => some package
  | _ => none

def storedId? : Event → Option Nat
  | .stored package => some package.packageId
  | _ => none

def droppedId? : Event → Option Nat
  | .dropped packageId => some packageId
  | _ => none

end Event

/-- The ids of the Data datagrams received. -/
def arrivedIds (trace : List Event) : List Nat := trace.filterMap Event.arrivedId?

/-- The segments given to `send_package`. -/
def pushedSegments (trace : List Event) : List Bytes := trace.filterMap Event.pushedSegment?

/-- The segments the segment thread has taken off its list. -/
def unpackedSegments (trace : List Event) : List Bytes := trace.filterMap Event.unpackedSegment?

/-- The packages handed to the sender. -/
def assignedPackages (trace : List Event) : List PackageData :=
  trace.filterMap Event.assignedPackage?

/-- The packages in the Data datagrams received. -/
def arrivedPackages (trace : List Event) : List PackageData :=
  trace.filterMap Event.arrivedPackage?

/-- The packages `recv_package` took. -/
def takenPackages (trace : List Event) : List PackageData := trace.filterMap Event.takenPackage?

/-- What `recv_package` returned. -/
def returnedSegments (trace : List Event) : List Bytes := trace.filterMap Event.returnedSegment?

/-- The `send_from` fields of the Acks received. -/
def sendFroms (trace : List Event) : List Nat := trace.filterMap Event.sendFrom?

/-- The ids of the packages put into `recv_pool`. -/
def storedIds (trace : List Event) : List Nat := trace.filterMap Event.storedId?

/-- The ids the ack handler gave up. -/
def droppedIds (trace : List Event) : List Nat := trace.filterMap Event.droppedId?

@[simp] theorem arrivedIds_append (first second : List Event) :
    arrivedIds (first ++ second) = arrivedIds first ++ arrivedIds second := List.filterMap_append

@[simp] theorem pushedSegments_append (first second : List Event) :
    pushedSegments (first ++ second) = pushedSegments first ++ pushedSegments second :=
  List.filterMap_append

@[simp] theorem unpackedSegments_append (first second : List Event) :
    unpackedSegments (first ++ second) = unpackedSegments first ++ unpackedSegments second :=
  List.filterMap_append

@[simp] theorem assignedPackages_append (first second : List Event) :
    assignedPackages (first ++ second) = assignedPackages first ++ assignedPackages second :=
  List.filterMap_append

@[simp] theorem arrivedPackages_append (first second : List Event) :
    arrivedPackages (first ++ second) = arrivedPackages first ++ arrivedPackages second :=
  List.filterMap_append

@[simp] theorem takenPackages_append (first second : List Event) :
    takenPackages (first ++ second) = takenPackages first ++ takenPackages second :=
  List.filterMap_append

@[simp] theorem returnedSegments_append (first second : List Event) :
    returnedSegments (first ++ second) = returnedSegments first ++ returnedSegments second :=
  List.filterMap_append

@[simp] theorem sendFroms_append (first second : List Event) :
    sendFroms (first ++ second) = sendFroms first ++ sendFroms second := List.filterMap_append

@[simp] theorem storedIds_append (first second : List Event) :
    storedIds (first ++ second) = storedIds first ++ storedIds second := List.filterMap_append

@[simp] theorem droppedIds_append (first second : List Event) :
    droppedIds (first ++ second) = droppedIds first ++ droppedIds second := List.filterMap_append

/-- What only kept events report can be read off the kept events. -/
theorem filterMap_of_kept {β : Type*} {keep : Event → Bool} {report : Event → Option β}
    (hkept : ∀ event, keep event = false → report event = none) (trace : List Event) :
    (trace.filter keep).filterMap report = trace.filterMap report := by
  rw [List.filterMap_filter]
  congr 1
  funext event
  cases hkeep : keep event with
  | true => rfl
  | false => simp [hkept event hkeep]

@[simp] theorem arrivedIds_filter (trace : List Event) :
    arrivedIds (trace.filter Event.ofRecv) = arrivedIds trace :=
  filterMap_of_kept (fun event hkeep => by cases event <;> first | rfl | cases hkeep) trace

@[simp] theorem arrivedPackages_filter (trace : List Event) :
    arrivedPackages (trace.filter Event.ofRecv) = arrivedPackages trace :=
  filterMap_of_kept (fun event hkeep => by cases event <;> first | rfl | cases hkeep) trace

@[simp] theorem takenPackages_filter (trace : List Event) :
    takenPackages (trace.filter Event.ofRecv) = takenPackages trace :=
  filterMap_of_kept (fun event hkeep => by cases event <;> first | rfl | cases hkeep) trace

@[simp] theorem returnedSegments_filter (trace : List Event) :
    returnedSegments (trace.filter Event.ofRecv) = returnedSegments trace :=
  filterMap_of_kept (fun event hkeep => by cases event <;> first | rfl | cases hkeep) trace

@[simp] theorem sendFroms_filter (trace : List Event) :
    sendFroms (trace.filter Event.ofRecv) = sendFroms trace :=
  filterMap_of_kept (fun event hkeep => by cases event <;> first | rfl | cases hkeep) trace

@[simp] theorem storedIds_filter (trace : List Event) :
    storedIds (trace.filter Event.ofRecv) = storedIds trace :=
  filterMap_of_kept (fun event hkeep => by cases event <;> first | rfl | cases hkeep) trace

@[simp] theorem assignedPackages_filter (trace : List Event) :
    assignedPackages (trace.filter Event.ofSend) = assignedPackages trace :=
  filterMap_of_kept (fun event hkeep => by cases event <;> first | rfl | cases hkeep) trace

@[simp] theorem droppedIds_filter (trace : List Event) :
    droppedIds (trace.filter Event.ofSend) = droppedIds trace :=
  filterMap_of_kept (fun event hkeep => by cases event <;> first | rfl | cases hkeep) trace

/-- Only a drop raises `send_from`. -/
theorem SendSide.Transition.sendFrom_frame {side next : SendSide} {action : SendAction}
    {events : List Event} (htransition : side.Transition action next events) :
    next.sendFrom = side.sendFrom ∨ droppedIds events ≠ [] := by
  cases htransition with
  | dropped => exact .inr (by simp [droppedIds, Event.droppedId?])
  | fastResend =>
      obtain ⟨pool, heq⟩ := @fastResend_frame side _
      rw [heq]
      exact .inl rfl
  | assign | senderMove | missed | vanished | popped | sent | queued | handlerMove | handled
  | watch | expire | settle | timedOut | settled | recvUna | ackRecv | fastResent => exact .inl rfl

theorem arrived_of_mem_arrivedPackages {trace : List Event} {package : PackageData}
    (hmem : package ∈ arrivedPackages trace) :
    ∃ packageId una payload, .arrived (.data packageId una payload) ∈ trace ∧
      package = ⟨packageId.toNat, payload⟩ := by
  obtain ⟨event, harrived, hreports⟩ := List.mem_filterMap.mp hmem
  unfold Event.arrivedPackage? at hreports
  split at hreports
  next packageId una payload =>
    exact ⟨packageId, una, payload, harrived, (Option.some.inj hreports).symm⟩
  next => cases hreports

theorem arrived_of_mem_sendFroms {trace : List Event} {sendFrom : Nat}
    (hmem : sendFrom ∈ sendFroms trace) :
    ∃ una word ackList, .arrived (.ack una word ackList) ∈ trace ∧ word.toNat = sendFrom := by
  obtain ⟨event, harrived, hreports⟩ := List.mem_filterMap.mp hmem
  unfold Event.sendFrom? at hreports
  split at hreports
  next una word ackList =>
    exact ⟨una, word, ackList, harrived, Option.some.inj hreports⟩
  next => cases hreports

theorem mem_storedIds {trace : List Event} {package : PackageData}
    (hstored : .stored package ∈ trace) : package.packageId ∈ storedIds trace :=
  List.mem_filterMap.mpr ⟨_, hstored, rfl⟩

@[simp] theorem arrivedIds_receiveDataEvents (side : RecvSide) (package : PackageData) :
    arrivedIds (side.receiveDataEvents package) = [] := by
  unfold RecvSide.receiveDataEvents
  split <;> rfl

@[simp] theorem sendFroms_receiveDataEvents (side : RecvSide) (package : PackageData) :
    sendFroms (side.receiveDataEvents package) = [] := by
  unfold RecvSide.receiveDataEvents
  split <;> rfl

/-- A condition on the datagrams a socket takes. -/
def Action.Receives (condition : Datagram → Prop) : Action → Prop
  | .receive datagram => condition datagram
  | _ => True

def RecvAction.Receives (condition : Datagram → Prop) : RecvAction → Prop
  | .receive datagram => condition datagram
  | _ => True

theorem ReliableSocket.MovesRecv.receives {action : Action} {move : RecvAction}
    {condition : Datagram → Prop} (hmoves : MovesRecv action move)
    (haction : action.Receives condition) : move.Receives condition := by
  cases hmoves with
  | receive => exact haction
  | close | receiver | recvPackage => trivial

instance (condition : Datagram → Prop) [DecidablePred condition] (action : Action) :
    Decidable (action.Receives condition) :=
  match action with
  | .receive datagram => inferInstanceAs (Decidable (condition datagram))
  | .sendPackage _ | .close | .segment _ | .sender | .ackSender | .ackHandler _ | .receiver
  | .recvPackage => inferInstanceAs (Decidable True)

/-- A condition on the acknowledgements the receiver thread is about to process: a
`una`, and the id list of an Ack. -/
def ReliableSocket.Acknowledges (socket : ReliableSocket)
    (condition : UInt64 → List UInt64 → Prop) : Action → Prop
  | .receiver =>
      match socket.receiver with
      | .recvUna una => condition una []
      | .ackRecv una ackList => condition una ackList
      | _ => True
  | _ => True

/-- A condition on what the ack handler does. -/
def Action.Handles (condition : Prop) : Action → Prop
  | .ackHandler _ => condition
  | _ => True

def SendAction.Handles (condition : Prop) : SendAction → Prop
  | .ackHandler .. => condition
  | _ => True

theorem ReliableSocket.MovesSend.handles {socket : ReliableSocket} {action : Action}
    {move : SendAction} {condition : Prop} (hmoves : socket.MovesSend action move)
    (haction : action.Handles condition) : move.Handles condition := by
  cases hmoves with
  | ackHandler => exact haction
  | assign | sender | recvUna | ackRecv | fastResend | fastResent => trivial

instance (condition : Prop) [Decidable condition] (action : Action) :
    Decidable (action.Handles condition) := by
  unfold Action.Handles
  split <;> infer_instance

instance (socket : ReliableSocket) (condition : UInt64 → List UInt64 → Prop)
    [∀ una ackList, Decidable (condition una ackList)] (action : Action) :
    Decidable (socket.Acknowledges condition action) := by
  unfold ReliableSocket.Acknowledges
  split
  · split <;> infer_instance
  · infer_instance

def SendAction.Acknowledges (condition : UInt64 → List UInt64 → Prop) : SendAction → Prop
  | .recvUna una => condition una []
  | .ackRecv una ackList => condition una ackList
  | _ => True

theorem ReliableSocket.MovesSend.acknowledges {socket : ReliableSocket} {action : Action}
    {move : SendAction} {condition : UInt64 → List UInt64 → Prop}
    (hmoves : socket.MovesSend action move) (haction : socket.Acknowledges condition action) :
    move.Acknowledges condition := by
  cases hmoves with
  | recvUna hreceiver | ackRecv hreceiver =>
      simp only [ReliableSocket.Acknowledges, hreceiver] at haction
      exact haction
  | assign | sender | ackHandler | fastResend | fastResent => trivial

end Sharpvpn
