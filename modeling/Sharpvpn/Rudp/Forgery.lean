import Mathlib.Data.List.Infix
import Sharpvpn.Rudp.Delivery

/-!
# Forged data

The payload of a Data datagram is opened when it is delivered, long after its header
has been acted on. A datagram that the duplicate filter discards leaves no trace in
what is delivered; one that it stores takes the place of the genuine package with its
id, and yields nothing.
-/

namespace Sharpvpn

open Foundation

def Datagram.IsData : Datagram → Prop
  | .data .. => True
  | _ => False

instance : DecidablePred Datagram.IsData
  | .data .. => inferInstanceAs (Decidable True)
  | .ack .. | .connectionClose => inferInstanceAs (Decidable False)

/-- A Data datagram whose payload opens under the key. -/
def SharpCrypto.Opens (crypto : SharpCrypto) : Datagram → Prop
  | .data _ _ payload => (crypto.decrypt payload).isSome
  | _ => False

instance (crypto : SharpCrypto) : DecidablePred crypto.Opens
  | .data .. => inferInstanceAs (Decidable (_ = true))
  | .ack .. | .connectionClose => inferInstanceAs (Decidable False)

/-- The socket is not closed. -/
def Action.Open : Action → Prop
  | .close => False
  | _ => True

instance : DecidablePred Action.Open
  | .close => inferInstanceAs (Decidable False)
  | .sendPackage _ | .segment _ | .sender | .ackSender | .ackHandler _ | .receive _ | .receiver
  | .recvPackage => inferInstanceAs (Decidable True)

/-- The arrival of a Data datagram whose payload does not open. -/
def Event.forged (crypto : SharpCrypto) : Event → Bool
  | .arrived (.data _ _ payload) => (crypto.decrypt payload).isNone
  | _ => false

/-- What happens at the receiving half, but for the arrivals of forged datagrams. -/
def withoutForged (crypto : SharpCrypto) (trace : List Event) : List Event :=
  trace.filter fun event => event.ofRecv && !event.forged crypto

/-- The genuine datagrams received, in order. -/
def genuineArrivals (crypto : SharpCrypto) (trace : List Event) : List Datagram :=
  trace.filterMap fun event =>
    match event with
    | .arrived datagram => if crypto.Opens datagram then some datagram else none
    | _ => none

section Trace

variable {crypto : SharpCrypto} {events : List Event}

theorem withoutForged_append (first second : List Event) :
    withoutForged crypto (first ++ second) =
      withoutForged crypto first ++ withoutForged crypto second := List.filter_append ..

theorem withoutForged_of_ofRecv (hofRecv : events.filter Event.ofRecv = []) :
    withoutForged crypto events = [] := by
  have hsplit : withoutForged crypto events =
      (events.filter Event.ofRecv).filter fun event => !event.forged crypto := by
    simp [withoutForged, List.filter_filter, Bool.and_comm]
  rw [hsplit, hofRecv]
  rfl

theorem withoutForged_eq_self (hofRecv : ∀ event ∈ events, event.ofRecv = true)
    (hgenuine : ∀ event ∈ events, event.forged crypto = false) :
    withoutForged crypto events = events := by
  apply List.filter_eq_self.mpr
  intro event hmem
  rw [hofRecv event hmem, hgenuine event hmem]
  rfl

/-- Leaving forged arrivals out leaves out nothing that was returned. -/
@[simp] theorem returnedSegments_withoutForged (trace : List Event) :
    returnedSegments (withoutForged crypto trace) = returnedSegments trace := by
  apply filterMap_of_kept
  intro event hkeep
  cases event with
  | returned => cases hkeep
  | pushed | unpacked | assigned | popped | sent | arrived | stored | taken | settled | dropped
  | timedOut | fastResent | freed => rfl

@[simp] theorem genuineArrivals_withoutForged (trace : List Event) :
    genuineArrivals crypto (withoutForged crypto trace) = genuineArrivals crypto trace := by
  apply filterMap_of_kept
  intro event hkeep
  cases event with
  | arrived datagram =>
      cases datagram with
      | data packageId una payload =>
          cases hdecrypt : crypto.decrypt payload with
          | none => simp [SharpCrypto.Opens, hdecrypt]
          | some plain => simp [Event.ofRecv, Event.forged, hdecrypt] at hkeep
      | ack | connectionClose => simp [SharpCrypto.Opens]
  | pushed | unpacked | assigned | popped | sent | stored | taken | returned | settled | dropped
  | timedOut | fastResent | freed => rfl

/-- Packages that do not open yield nothing. -/
theorem flatMap_filter_opens (packages : List PackageData) :
    ((packages.filter fun package => (crypto.decrypt package.payload).isSome).flatMap fun package =>
      segmentsIn crypto package.payload) =
      packages.flatMap fun package => segmentsIn crypto package.payload := by
  induction packages with
  | nil => rfl
  | cons package packages ih =>
      rw [List.flatMap_cons, ← ih]
      cases hdecrypt : crypto.decrypt package.payload with
      | none => simp [hdecrypt, segmentsIn]
      | some plain => simp [hdecrypt]

end Trace

/-- A list of all numbers from 1 to a total is at least as long. -/
theorem le_length_of_forall_mem {ids : List Nat} {total : Nat}
    (hall : ∀ id, 1 ≤ id → id ≤ total → id ∈ ids) : total ≤ ids.length := by
  have hsubset : List.range' 1 total ⊆ ids := by
    intro id hmem
    have hrange := List.mem_range'_1.mp hmem
    exact hall id hrange.1 (by omega)
  simpa using (List.subperm_of_subset (List.nodup_range') hsubset).length_le

namespace RecvSide

variable {crypto : SharpCrypto} {side next : RecvSide} {trace events : List Event}

/-- The counter does not reach the end of its range before that many Data datagrams
have arrived. -/
theorem Knows.staysMaximal (hknows : side.Knows (· ∈ arrivedIds trace))
    (hfew : (arrivedIds trace).length + 2 < 2 ^ 64) (packageId una : UInt64) (payload : Bytes) :
    side.StaysMaximal (.data packageId una payload) := by
  by_contra hfull
  have hall : ∀ id, 1 ≤ id → id ≤ 2 ^ 64 - 1 → id ∈ packageId.toNat :: arrivedIds trace := by
    intro id hid hle
    rcases Nat.lt_or_ge side.recvAckId id with habove | hbelow
    · by_contra hmem
      rw [List.mem_cons, not_or] at hmem
      refine hfull ⟨id, habove, by omega, hmem.1, ?_⟩
      by_contra hfound
      exact hmem.2 (hknows.present id hid (Option.isSome_iff_ne_none.mpr hfound))
    · exact List.mem_cons_of_mem _ (hknows.counted id hid hbelow)
  have hlength := le_length_of_forall_mem hall
  rw [List.length_cons] at hlength
  omega

/-- While only Data arrives, and less of it than there are ids, the counter counts
what has arrived and is maximal. -/
theorem reach_keptUp {memory : Memory}
    (hreach : (recvMachine crypto).Reach (fun _ _ action _ => action.Receives Datagram.IsData)
      (ReliableSocket.init memory).recv side trace)
    (hfew : (arrivedIds trace).length + 1 < 2 ^ 64) :
    side.KeptUp ∧ side.recvAckId + 1 < 2 ^ 64 := by
  refine (hreach.invariant (fun side trace => side.Knows (· ∈ arrivedIds trace) ∧
    ((arrivedIds trace).length + 1 < 2 ^ 64 → side.KeptUp ∧ side.recvAckId + 1 < 2 ^ 64))
    ⟨knows_init memory _, fun _ => keptUp_init memory⟩ ?_).2 hfew
  intro side trace action next events ⟨hknows, hkept⟩ hstep hdata
  have htransition := step_transition hstep
  constructor
  · apply hknows.step _ htransition
    · intro package hstored
      simp [htransition.stored_arrived hstored]
    · intro una sendFrom ackList haction
      subst haction
      cases hdata
    · intro id harrived
      simp [harrived]
  · intro hfew
    rw [arrivedIds_append, List.length_append] at hfew
    obtain ⟨hkept, hrange⟩ := hkept (by omega)
    apply hkept.step hrange htransition
    cases htransition with
    | @data packageId una payload =>
        refine hknows.staysMaximal ?_ packageId una payload
        simp only [arrivedIds, List.filterMap_cons, Event.arrivedId?, List.length_cons] at hfew
        unfold arrivedIds
        omega
    | ack | connectionClose => cases hdata
    | signal | buffered | enter | stop | skip | wait | take | wake | load | finish => trivial

/-- No package at the end of the range of ids is taken. -/
theorem reach_taken_lt {memory : Memory}
    (hreach : (recvMachine crypto).Reach (fun _ _ action _ => action.Receives Datagram.IsData)
      (ReliableSocket.init memory).recv side trace)
    (hfew : (arrivedIds trace).length + 1 < 2 ^ 64)
    (hframed : ∀ package ∈ arrivedPackages trace, ∀ plain,
      crypto.decrypt package.payload = some plain → WellFramed plain) :
    ∀ package ∈ takenPackages trace, package.packageId + 1 < 2 ^ 64 := by
  induction hreach with
  | start => intro package hmem; cases hmem
  | @step side next trace events action hprior hstep _ ih =>
      rw [arrivedIds_append, List.length_append] at hfew
      simp only [arrivedPackages_append, List.mem_append] at hframed
      have hlt := ih (by omega) fun package hmem => hframed package (.inl hmem)
      obtain ⟨hkept, hrange⟩ := reach_keptUp hprior (by omega)
      have horigin := (reach_inOrder hprior fun package harrived htaken =>
        ⟨hlt package htaken, hframed package (.inl harrived)⟩).1
      intro package hmem
      rw [takenPackages_append, List.mem_append] at hmem
      rcases hmem with hold | hnew
      · exact hlt package hold
      · have hfind := (step_transition hstep).taken_found hnew
        have hid := (horigin.held _ horigin.recvId_pos package hfind).1
        -- The id after the counter is missing, so this one is counted.
        have hne : side.recvId ≠ succ64 side.recvAckId := by
          intro heq
          rw [heq, hkept.maximal] at hfind
          cases hfind
        have hle := hkept.recvId_le
        rw [succ64_eq hrange] at hne hle
        omega

/-- A datagram that the duplicate filter discards changes nothing. -/
theorem KeptUp.receiveData_discarded {package : PackageData} (hkept : side.KeptUp)
    (hdiscards : side.accepts package = false) : side.receiveData package = side := by
  have hpool : side.poolAfter package = side.recvPool := by simp [poolAfter, hdiscards]
  have hcounter : SlotTable.scan (fun id => (side.recvPool.find id).isSome) succ64 ringCapacity
      side.recvAckId = side.recvAckId :=
    SlotTable.scan_of_not_present (by simp [hkept.maximal]) _
  unfold receiveData
  rw [hpool, hcounter, callerAfter_of_discarded hdiscards]

/-- The caller would wait: nothing can be taken and nothing skipped. -/
def NothingNext (side : RecvSide) : Prop :=
  side.recvPool.find side.recvId = none ∧ side.recvAckId ≤ side.recvId

theorem Transition.nothingNext {running : Bool}
    (htransition : side.Transition crypto (.recvPackage running) next events)
    (hwaiting : next.caller = .waiting false) : next.NothingNext := by
  cases htransition with
  | wait _ hfind hge => exact ⟨hfind, hge⟩
  | buffered hcaller | skip hcaller =>
      simp only [hcaller] at hwaiting
      cases hwaiting
  | enter | stop | take | wake | load | finish => cases hwaiting

/-- The receiving half that a forged datagram may have woken, and the one it would be
without that datagram. -/
inductive Unforged (side : RecvSide) : RecvSide → Prop
  | same : Unforged side side
  | woken {signalled}
      (hcaller : side.caller = .waiting true ∨ side.caller = .scanning ∧ side.NothingNext) :
      Unforged side { side with caller := .waiting signalled }

/-- A caller with nothing to take, or already signalled, does not notice a signal. -/
theorem signal_eq_self
    (hcaller : side.caller = .waiting true ∨ side.caller = .scanning ∧ side.NothingNext) :
    side.signal = side := by
  unfold signal
  rcases hcaller with hwaiting | ⟨hscanning, _⟩
  · simp only [hwaiting]
    rw [← hwaiting]
  · simp only [hscanning]

theorem signal_caller_ne (side : RecvSide) : side.signal.caller ≠ .waiting false := by
  unfold signal
  split
  next => simp
  next hcaller => exact fun hwaiting => hcaller false hwaiting

/-- A signal for a forged datagram. -/
theorem Unforged.signal {shadow : RecvSide} (hunforged : side.Unforged shadow) :
    side.signal.Unforged shadow := by
  cases hunforged with
  | same =>
      unfold RecvSide.signal
      split
      next signalled hcaller =>
        have hwoken : Unforged { side with caller := .waiting true }
            { side with caller := .waiting signalled } := .woken (.inl rfl)
        have hsame : { side with caller := RecvCaller.waiting signalled } = side := by
          rw [← hcaller]
        simp only [hsame] at hwoken
        exact hwoken
      next => exact .same
  | woken hcaller =>
      rw [signal_eq_self hcaller]
      exact .woken hcaller

/-- A signal for a genuine datagram. -/
theorem Unforged.signal_both {shadow : RecvSide} (hunforged : side.Unforged shadow) :
    side.signal.Unforged shadow.signal := by
  cases hunforged with
  | same => exact .same
  | woken hcaller =>
      rw [signal_eq_self hcaller]
      exact .woken hcaller

end RecvSide

/-- Where the receiver thread stands while a forged datagram is being processed, and
where it would stand without it: at the next datagram. It may also have signalled
the caller earlier. -/
inductive ReceiverThread.Unforged : ReceiverThread → ReceiverThread → Prop
  | head : Unforged .head .head
  | listening : Unforged .listening .listening
  | queueAck {packageId una} : Unforged (.queueAck packageId una) (.queueAck packageId una)
  | signalled {packageId una} : Unforged (.queueAck packageId una) (.recvUna una)
  | recvUna {una} : Unforged (.recvUna una) (.recvUna una)
  | queueForged {packageId una} : Unforged (.queueAck packageId una) .listening
  | unaForged {una} : Unforged (.recvUna una) .listening
  | headForged : Unforged .head .listening
  | exited {shadow} : Unforged .exited shadow

namespace ReliableSocket

variable {config : Config} {crypto : SharpCrypto} {memory : Memory}
  {socket next shadow : ReliableSocket} {action : Action} {trace events later : List Event}

/-- The condition on runs without forged datagrams. -/
def genuineOnly (crypto : SharpCrypto) : Machine.StepCondition ReliableSocket Action Event :=
  fun _ _ action _ => action.Receives crypto.Opens ∧ action.Open

instance (crypto : SharpCrypto) (socket : ReliableSocket) (trace : List Event) (action : Action)
    (next : ReliableSocket) : Decidable (genuineOnly crypto socket trace action next) :=
  inferInstanceAs (Decidable (_ ∧ _))

/-- A socket that has processed forged datagrams, and its shadow that has not. -/
structure Unforged (socket shadow : ReliableSocket) : Prop where
  running : socket.workerRunning = true
  shadowRunning : shadow.workerRunning = true
  receiver : socket.receiver.Unforged shadow.receiver
  recv : socket.recv.Unforged shadow.recv
  /-- A caller that waits without a signal has nothing to take, or is about to be
  signalled. -/
  attentive : shadow.recv.caller = .waiting false →
    shadow.recv.NothingNext ∨ ∃ packageId una, shadow.receiver = .queueAck packageId una

/-- The shadow moves on without the socket's receiving half. -/
theorem Unforged.frame (hunforged : socket.Unforged shadow)
    (hrunning : next.workerRunning = socket.workerRunning)
    (hreceiver : next.receiver = socket.receiver) (hrecv : next.recv = socket.recv) :
    next.Unforged shadow where
  running := hrunning.trans hunforged.running
  shadowRunning := hunforged.shadowRunning
  receiver := hreceiver ▸ hunforged.receiver
  recv := hrecv ▸ hunforged.recv
  attentive := hunforged.attentive

theorem withoutForged_genuine {packageId una : UInt64} {payload : Bytes}
    (hopens : (crypto.decrypt payload).isSome) (side : RecvSide) :
    withoutForged crypto (.arrived (.data packageId una payload) ::
      side.receiveDataEvents ⟨packageId.toNat, payload⟩) =
      .arrived (.data packageId una payload) ::
        side.receiveDataEvents ⟨packageId.toNat, payload⟩ := by
  obtain ⟨plain, hplain⟩ := Option.isSome_iff_exists.mp hopens
  unfold RecvSide.receiveDataEvents
  split <;> simp [withoutForged, Event.ofRecv, Event.forged, hplain]

/-- A genuine datagram is taken by both. -/
theorem Unforged.data {packageId una : UInt64} {payload : Bytes}
    (hunforged : socket.Unforged shadow) (hreceiver : socket.receiver = .listening)
    (hcaller : socket.recv.caller ≠ .scanning) (hopens : (crypto.decrypt payload).isSome)
    (hreach : (socketMachine config crypto).Reach (genuineOnly crypto) (init memory) shadow later) :
    ∃ moved, (socketMachine config crypto).Reach (genuineOnly crypto) (init memory) moved
        (later ++ withoutForged crypto (.arrived (.data packageId una payload) ::
          socket.recv.receiveDataEvents ⟨packageId.toNat, payload⟩)) ∧
      Unforged { socket with
        recv := socket.recv.receiveData ⟨packageId.toNat, payload⟩
        receiver := .queueAck packageId una } moved := by
  obtain ⟨hrunning, hshadowRunning, htrails, hrecv, _⟩ := hunforged
  have hlistening : shadow.receiver = .listening := by
    rw [hreceiver] at htrails
    generalize shadow.receiver = trailing at htrails
    cases htrails with
    | listening => rfl
  have hsame : shadow.recv.receiveDataEvents ⟨packageId.toNat, payload⟩ =
      socket.recv.receiveDataEvents ⟨packageId.toNat, payload⟩ ∧
      shadow.recv.caller ≠ .scanning ∧
      (socket.recv.receiveData ⟨packageId.toNat, payload⟩).Unforged
        (shadow.recv.receiveData ⟨packageId.toNat, payload⟩) := by
    generalize shadow.recv = recv at hrecv
    cases hrecv with
    | same => exact ⟨rfl, hcaller, .same⟩
    | woken hwoken =>
        have hwaiting : socket.recv.caller = .waiting true :=
          hwoken.resolve_right fun hscanning => hcaller hscanning.1
        have hsame : socket.recv.callerAfter ⟨packageId.toNat, payload⟩ = .waiting true := by
          simp only [RecvSide.callerAfter, hwaiting]
        exact ⟨rfl, by simp, .woken (.inl hsame)⟩
  have hstep : (socketMachine config crypto).step shadow (.receive (.data packageId una payload)) =
      some ({ shadow with
        recv := shadow.recv.receiveData ⟨packageId.toNat, payload⟩
        receiver := .queueAck packageId una },
        .arrived (.data packageId una payload) ::
          shadow.recv.receiveDataEvents ⟨packageId.toNat, payload⟩) := by
    simp [socketMachine, step, receive, hlistening, hsame.2.1]
  rw [withoutForged_genuine hopens, ← hsame.1]
  refine ⟨_, hreach.extend _ hstep ⟨hopens, trivial⟩, ?_⟩
  exact ⟨hrunning, hshadowRunning, .queueAck, hsame.2.2, fun _ => .inr ⟨_, _, rfl⟩⟩

/-- A forged datagram that the duplicate filter discards is not seen by the shadow. -/
theorem Unforged.forged {packageId una : UInt64} {payload : Bytes}
    (hunforged : socket.Unforged shadow) (hkept : socket.recv.KeptUp)
    (hreceiver : socket.receiver = .listening) (hforged : crypto.decrypt payload = none)
    (hdiscards : socket.recv.accepts ⟨packageId.toNat, payload⟩ = false) :
    withoutForged crypto (.arrived (.data packageId una payload) ::
        socket.recv.receiveDataEvents ⟨packageId.toNat, payload⟩) = [] ∧
      Unforged { socket with
        recv := socket.recv.receiveData ⟨packageId.toNat, payload⟩
        receiver := .queueAck packageId una } shadow := by
  obtain ⟨hrunning, hshadowRunning, htrails, hrecv, hattentive⟩ := hunforged
  constructor
  · simp [RecvSide.receiveDataEvents, hdiscards, withoutForged, Event.ofRecv, Event.forged, hforged]
  · rw [hkept.receiveData_discarded hdiscards]
    refine ⟨hrunning, hshadowRunning, ?_, hrecv, hattentive⟩
    rw [hreceiver] at htrails
    generalize shadow.receiver = trailing at htrails ⊢
    cases htrails with
    | listening => exact .queueForged

/-- The shadow signals its caller. -/
theorem Unforged.signal_shadow {packageId una : UInt64}
    (hreceiver : shadow.receiver = .queueAck packageId una)
    (hreach : (socketMachine config crypto).Reach (genuineOnly crypto) (init memory) shadow later) :
    (socketMachine config crypto).Reach (genuineOnly crypto) (init memory)
      { shadow with
        recv := shadow.recv.signal
        ack := { shadow.ack with ackSendQueue := shadow.ack.ackSendQueue.push packageId }
        receiver := .recvUna una } later := by
  have hmoved := hreach.extend .receiver (by
    simp only [socketMachine, step, receiverStep, hreceiver]
    rfl) ⟨trivial, trivial⟩
  rwa [List.append_nil] at hmoved

/-- The receiver thread signals the caller: the shadow does too, unless it has done so
or the datagram was forged. -/
theorem Unforged.queueAck {packageId una : UInt64} {ack : AckSide}
    (hunforged : socket.Unforged shadow) (hreceiver : socket.receiver = .queueAck packageId una)
    (hreach : (socketMachine config crypto).Reach (genuineOnly crypto) (init memory) shadow later) :
    ∃ moved, (socketMachine config crypto).Reach (genuineOnly crypto) (init memory) moved later ∧
      Unforged { socket with recv := socket.recv.signal, ack, receiver := .recvUna una } moved := by
  obtain ⟨hrunning, hshadowRunning, htrails, hrecv, hattentive⟩ := hunforged
  rw [hreceiver] at htrails
  cases hshadow : shadow.receiver with
  | queueAck otherId otherUna =>
      rw [hshadow] at htrails
      cases htrails
      refine ⟨_, signal_shadow hshadow hreach, hrunning, hshadowRunning, .recvUna,
        hrecv.signal_both, fun hwaiting => ?_⟩
      exact absurd hwaiting (RecvSide.signal_caller_ne _)
  | recvUna otherUna =>
      rw [hshadow] at htrails
      cases htrails
      refine ⟨shadow, hreach, hrunning, hshadowRunning, ?_, hrecv.signal, hattentive⟩
      rw [hshadow]
      exact .recvUna
  | listening =>
      refine ⟨shadow, hreach, hrunning, hshadowRunning, ?_, hrecv.signal, hattentive⟩
      rw [hshadow]
      exact .unaForged
  | head | ackRecv | fastResend | exited =>
      rw [hshadow] at htrails
      cases htrails

/-- The receiver thread is done with a datagram: so is the shadow, or it has not seen
the datagram. -/
theorem Unforged.recvUna {una : UInt64} {send : SendSide} (hunforged : socket.Unforged shadow)
    (hreceiver : socket.receiver = .recvUna una)
    (hreach : (socketMachine config crypto).Reach (genuineOnly crypto) (init memory) shadow later) :
    ∃ moved, (socketMachine config crypto).Reach (genuineOnly crypto) (init memory) moved later ∧
      Unforged { socket with send, receiver := .head } moved := by
  obtain ⟨hrunning, hshadowRunning, htrails, hrecv, hattentive⟩ := hunforged
  rw [hreceiver] at htrails
  cases hshadow : shadow.receiver with
  | recvUna otherUna =>
      have hmoved := hreach.extend .receiver (by
        simp only [socketMachine, step, receiverStep, hshadow]
        rfl) ⟨trivial, trivial⟩
      rw [List.append_nil] at hmoved
      refine ⟨_, hmoved, hrunning, hshadowRunning, .head, hrecv, fun hwaiting => ?_⟩
      exact (hattentive hwaiting).imp_right fun hqueue => by simp [hshadow] at hqueue
  | listening =>
      refine ⟨shadow, hreach, hrunning, hshadowRunning, ?_, hrecv, hattentive⟩
      rw [hshadow]
      exact .headForged
  | head | queueAck | ackRecv | fastResend | exited =>
      rw [hshadow] at htrails
      cases htrails

/-- The receiver thread turns to the next datagram. -/
theorem Unforged.head {thread : ReceiverThread} (hunforged : socket.Unforged shadow)
    (hreceiver : socket.receiver = .head) (hthread : thread = .listening ∨ thread = .exited)
    (hreach : (socketMachine config crypto).Reach (genuineOnly crypto) (init memory) shadow later) :
    ∃ moved, (socketMachine config crypto).Reach (genuineOnly crypto) (init memory) moved later ∧
      Unforged { socket with receiver := thread } moved := by
  obtain ⟨hrunning, hshadowRunning, htrails, hrecv, hattentive⟩ := hunforged
  rw [hreceiver] at htrails
  rcases hthread with rfl | rfl
  · cases hshadow : shadow.receiver with
    | head =>
        have hstep : (socketMachine config crypto).step shadow .receiver =
            some ({ shadow with receiver := .listening }, []) := by
          simp [socketMachine, step, receiverStep, hshadow, hshadowRunning]
        have hmoved := hreach.extend .receiver hstep ⟨trivial, trivial⟩
        rw [List.append_nil] at hmoved
        refine ⟨_, hmoved, hrunning, hshadowRunning, .listening, hrecv, fun hwaiting => ?_⟩
        exact (hattentive hwaiting).imp_right fun hqueue => by simp [hshadow] at hqueue
    | listening =>
        refine ⟨shadow, hreach, hrunning, hshadowRunning, ?_, hrecv, hattentive⟩
        rw [hshadow]
        exact .listening
    | queueAck | recvUna | ackRecv | fastResend | exited =>
        rw [hshadow] at htrails
        cases htrails
  · exact ⟨shadow, hreach, hrunning, hshadowRunning, .exited, hrecv, hattentive⟩

/-- A caller that has been signalled looks for the next package again. -/
theorem reach_wake {recv : RecvSide} (hrecv : shadow.recv = { recv with caller := .waiting true })
    (hreach : (socketMachine config crypto).Reach (genuineOnly crypto) (init memory) shadow later) :
    (socketMachine config crypto).Reach (genuineOnly crypto) (init memory)
      { shadow with recv := { recv with caller := .scanning } } later := by
  have hmoved := hreach.extend .recvPackage (by
    simp only [socketMachine, step, RecvSide.recvPackage, hrecv]
    rfl) ⟨trivial, trivial⟩
  rwa [List.append_nil] at hmoved

/-- A caller that has been signalled and has nothing to take waits again. -/
theorem reach_wait {recv : RecvSide} (hrunning : shadow.workerRunning = true)
    (hrecv : shadow.recv = { recv with caller := .waiting true }) (hnothing : recv.NothingNext)
    (hreach : (socketMachine config crypto).Reach (genuineOnly crypto) (init memory) shadow later) :
    (socketMachine config crypto).Reach (genuineOnly crypto) (init memory)
      { shadow with recv := { recv with caller := .waiting false } } later := by
  have hstep : (socketMachine config crypto).step
      { shadow with recv := { recv with caller := .scanning } } .recvPackage =
      some ({ shadow with recv := { recv with caller := .waiting false } }, []) := by
    simp [socketMachine, step, RecvSide.recvPackage, hrunning, hnothing.1, hnothing.2]
  have hmoved := (reach_wake hrecv hreach).extend .recvPackage hstep ⟨trivial, trivial⟩
  rwa [List.append_nil] at hmoved

/-- A caller woken by a forged datagram looks for the next package. If there is one, a
genuine datagram has brought it, and its signal is due. -/
theorem Unforged.wake (hunforged : socket.Unforged shadow) {signalled : Bool}
    (hrecv : shadow.recv = { socket.recv with caller := .waiting signalled })
    (hreach : (socketMachine config crypto).Reach (genuineOnly crypto) (init memory) shadow later) :
    ∃ moved, (socketMachine config crypto).Reach (genuineOnly crypto) (init memory) moved later ∧
      Unforged { socket with recv := { socket.recv with caller := .scanning } } moved := by
  obtain ⟨hrunning, hshadowRunning, htrails, _, hattentive⟩ := hunforged
  cases signalled with
  | true =>
      refine ⟨_, reach_wake hrecv hreach, hrunning, hshadowRunning, htrails, .same, ?_⟩
      exact fun hwaiting => by cases hwaiting
  | false =>
      by_cases hnothing : socket.recv.NothingNext
      · refine ⟨shadow, hreach, hrunning, hshadowRunning, htrails, ?_, hattentive⟩
        rw [hrecv]
        have hwoken : RecvSide.Unforged { socket.recv with caller := .scanning }
            { socket.recv with caller := .waiting false } := .woken (.inr ⟨rfl, hnothing⟩)
        exact hwoken
      · rw [hrecv] at hattentive
        obtain ⟨packageId, una, hqueue⟩ := (hattentive rfl).resolve_left hnothing
        have hsignalled := signal_shadow hqueue hreach
        have hwaiting : shadow.recv.signal = { socket.recv with caller := .waiting true } := by
          rw [hrecv]
          rfl
        refine ⟨_, reach_wake hwaiting hsignalled, hrunning, hshadowRunning, ?_, .same,
          fun hwaiting => by cases hwaiting⟩
        rw [hqueue] at htrails
        generalize socket.receiver = thread at htrails
        cases htrails with
        | queueAck => exact .signalled
        | exited => exact .exited

/-- A call of `recv_package` moves on. The shadow does the same, but for a caller that
only a forged datagram has woken. -/
theorem Unforged.recvPackage {recv : RecvSide} (hunforged : socket.Unforged shadow)
    (hstep : socket.recv.recvPackage crypto socket.workerRunning = some (recv, events))
    (hreach : (socketMachine config crypto).Reach (genuineOnly crypto) (init memory) shadow later) :
    ∃ moved, (socketMachine config crypto).Reach (genuineOnly crypto) (init memory) moved
        (later ++ withoutForged crypto events) ∧
      Unforged { socket with recv } moved := by
  have hwake := fun signalled hrecv => @Unforged.wake _ _ _ _ _ _ hunforged signalled hrecv hreach
  obtain ⟨hrunning, hshadowRunning, htrails, hrecv, hattentive⟩ := hunforged
  rw [hrunning] at hstep
  generalize hshadow : shadow.recv = shadowRecv at hrecv
  cases hrecv with
  | same =>
      have hmove : socket.recv.step crypto (.recvPackage true) = some (recv, events) := hstep
      have htransition := RecvSide.step_transition hmove
      have hevents : withoutForged crypto events = events := by
        apply withoutForged_eq_self htransition.ofRecv
        cases htransition with
        | buffered | take | finish => simp [Event.forged]
        | enter | skip | wait | wake | load => simp
      have hsame : (socketMachine config crypto).step shadow .recvPackage =
          some ({ shadow with recv }, events) := by
        simp [socketMachine, step, hshadow, hshadowRunning, hstep]
      have hmoved := hreach.extend .recvPackage hsame ⟨trivial, trivial⟩
      rw [hevents]
      refine ⟨_, hmoved, hrunning, hshadowRunning, htrails, .same, fun hwaiting => .inl ?_⟩
      exact htransition.nothingNext hwaiting
  | @woken signalled hcaller =>
      rcases hcaller with hwaiting | ⟨hscanning, hnothing⟩
      · simp only [RecvSide.recvPackage, hwaiting, Option.some.injEq, Prod.mk.injEq] at hstep
        obtain ⟨rfl, rfl⟩ := hstep
        have hmoved := hwake signalled hshadow
        rwa [← List.append_nil later] at hmoved
      · simp only [RecvSide.recvPackage, hscanning, hnothing.1, Bool.not_true, Bool.false_eq_true,
          if_false, if_neg (not_lt.mpr hnothing.2), Option.some.injEq, Prod.mk.injEq] at hstep
        obtain ⟨rfl, rfl⟩ := hstep
        have hmoved : (socketMachine config crypto).Reach (genuineOnly crypto) (init memory)
            { shadow with recv := { socket.recv with caller := .waiting false } } later := by
          cases signalled with
          | true => exact reach_wait hshadowRunning hshadow hnothing hreach
          | false =>
              have hsame : { shadow with recv := { socket.recv with caller := .waiting false } } =
                  shadow := by
                rw [← hshadow]
              rwa [hsame]
        rw [← List.append_nil later] at hmoved
        exact ⟨_, hmoved, hrunning, hshadowRunning, htrails, .same, fun _ => .inl hnothing⟩

/-- The shadow stays where it is while the receiving half does. -/
theorem Unforged.still (hunforged : socket.Unforged shadow)
    (hrunning : next.workerRunning = socket.workerRunning)
    (hreceiver : next.receiver = socket.receiver) (hrecv : next.recv = socket.recv)
    (hofRecv : events.filter Event.ofRecv = [])
    (hreach : (socketMachine config crypto).Reach (genuineOnly crypto) (init memory) shadow later) :
    ∃ moved, (socketMachine config crypto).Reach (genuineOnly crypto) (init memory) moved
      (later ++ withoutForged crypto events) ∧ next.Unforged moved := by
  rw [withoutForged_of_ofRecv hofRecv, List.append_nil]
  exact ⟨shadow, hreach, hunforged.frame hrunning hreceiver hrecv⟩

theorem Unforged.step (hunforged : socket.Unforged shadow) (hkept : socket.recv.KeptUp)
    (htransition : socket.Transition config crypto action next events)
    (hdata : action.Receives Datagram.IsData) (hopen : action.Open)
    (hstored : ∀ package, .stored package ∈ events → (crypto.decrypt package.payload).isSome)
    (hreach : (socketMachine config crypto).Reach (genuineOnly crypto) (init memory) shadow later) :
    ∃ moved, (socketMachine config crypto).Reach (genuineOnly crypto) (init memory) moved
      (later ++ withoutForged crypto events) ∧ next.Unforged moved := by
  have hnil := List.append_nil later
  cases htransition with
  | pushed | refused | segment | unpacked => exact hunforged.still rfl rfl rfl rfl hreach
  | @assigned nonce list front body _ _ hid =>
      have hmove : socket.send.step (.assign (crypto.encrypt nonce (body ++ Framing.word 0))) =
          some _ := if_pos hid
      exact hunforged.still rfl rfl rfl (filter_ofSend hmove).2 hreach
  | sender hstep =>
      have hmove : socket.send.step (.sender _ _) = some _ := hstep
      exact hunforged.still rfl rfl rfl (filter_ofSend hmove).2 hreach
  | ackSender hsending =>
      cases hsending <;> exact hunforged.still rfl rfl rfl rfl hreach
  | ackHandler hstep =>
      have hmove : socket.send.step (.ackHandler _ _) = some _ := hstep
      exact hunforged.still rfl rfl rfl (filter_ofSend hmove).2 hreach
  | close => cases hopen
  | ack | connectionClose => cases hdata
  | @data packageId una payload hreceiver hcaller =>
      cases hdecrypt : crypto.decrypt payload with
      | some plain =>
          exact hunforged.data hreceiver hcaller (Option.isSome_iff_exists.mpr ⟨_, hdecrypt⟩) hreach
      | none =>
          -- A forged package is not stored here, so the other run does without the datagram.
          have hdiscards : socket.recv.accepts ⟨packageId.toNat, payload⟩ = false := by
            by_contra haccepts
            have hopens := hstored ⟨packageId.toNat, payload⟩
              (by simp [RecvSide.receiveDataEvents, haccepts])
            rw [hdecrypt] at hopens
            cases hopens
          obtain ⟨hevents, hnext⟩ := hunforged.forged hkept hreceiver hdecrypt hdiscards
          rw [hevents, hnil]
          exact ⟨shadow, hreach, hnext⟩
  | receiver hreceiving =>
      cases hreceiving with
      | head hhead hthread =>
          rw [← hnil] at hreach
          exact hunforged.head hhead hthread hreach
      | queueAck hqueue =>
          rw [← hnil] at hreach
          exact hunforged.queueAck hqueue hreach
      | recvUna huna =>
          rw [← hnil] at hreach
          exact hunforged.recvUna huna hreach
      | ackRecv hreceiver | fastResend hreceiver | fastResent hreceiver =>
          -- no Ack is being processed
          have htrails := hunforged.receiver
          rw [hreceiver] at htrails
          cases htrails
  | recvPackage hstep => exact hunforged.recvPackage hstep hreach

/-- The receiving half of a socket that is sent Data only. -/
theorem reach_recv_data
    (hreach : (socketMachine config crypto).Reach
      (fun _ _ action _ => action.Receives Datagram.IsData ∧ action.Open)
      (init memory) socket trace) :
    (recvMachine crypto).Reach (fun _ _ move _ => move.Receives Datagram.IsData)
      (init memory).recv socket.recv (trace.filter Event.ofRecv) :=
  reach_recv (fun _ _ _ _ _ _ hallowed hmoves => hmoves.receives hallowed.1) hreach

/-- A run in which no forged datagram is stored is, but for their arrivals, a run
without forged datagrams. -/
theorem exists_unforged
    (hreach : (socketMachine config crypto).Reach
      (fun _ _ action _ => action.Receives Datagram.IsData ∧ action.Open)
      (init memory) socket trace)
    (hfew : (arrivedIds trace).length + 1 < 2 ^ 64)
    (hstored : ∀ package, .stored package ∈ trace → (crypto.decrypt package.payload).isSome) :
    ∃ clean, (socketMachine config crypto).Reach (genuineOnly crypto) (init memory) clean
      (withoutForged crypto trace) ∧ socket.Unforged clean := by
  induction hreach with
  | start => exact ⟨init memory, .start, rfl, rfl, .head, .same, fun hwaiting => by cases hwaiting⟩
  | @step socket next trace events action hprior hstep hallowed ih =>
      rw [arrivedIds_append, List.length_append] at hfew
      have hkept := (RecvSide.reach_keptUp (reach_recv_data hprior)
        (by rw [arrivedIds_filter]; omega)).1
      obtain ⟨shadow, hshadow, hunforged⟩ := ih (by omega) fun package hmem =>
        hstored package (List.mem_append_left _ hmem)
      rw [withoutForged_append]
      exact hunforged.step hkept (step_transition hstep) hallowed.1 hallowed.2
        (fun package hmem => hstored package (List.mem_append_right _ hmem)) hshadow

/-- Whatever forged datagrams arrive, what is returned is a prefix of the segments of
genuine packages, each taken once and in increasing order of ids. If the duplicate
filter discards all forged datagrams, the same is returned without them. -/
theorem returned_unforged
    (hreach : (socketMachine config crypto).Reach
      (fun _ _ action _ => action.Receives Datagram.IsData ∧ action.Open)
      (init memory) socket trace)
    (hfew : (arrivedIds trace).length + 1 < 2 ^ 64)
    (hframed : ∀ package ∈ arrivedPackages trace, ∀ plain,
      crypto.decrypt package.payload = some plain → WellFramed plain) :
    (∃ packages : List PackageData,
      (∀ package ∈ packages, package ∈ arrivedPackages trace ∧
        (crypto.decrypt package.payload).isSome) ∧
      packages.Pairwise (·.packageId < ·.packageId) ∧
      (positive (returnedSegments trace)).IsPrefix
        (packages.flatMap fun package => segmentsIn crypto package.payload)) ∧
    ((∀ package, .stored package ∈ trace → (crypto.decrypt package.payload).isSome) →
      ∃ clean later, (socketMachine config crypto).Reach (genuineOnly crypto) (init memory)
          clean later ∧
        later = withoutForged crypto trace ∧
        genuineArrivals crypto later = genuineArrivals crypto trace ∧
        positive (returnedSegments later) = positive (returnedSegments trace)) := by
  constructor
  · have hlt := RecvSide.reach_taken_lt (reach_recv_data hreach) (by rwa [arrivedIds_filter])
      (by rwa [arrivedPackages_filter])
    rw [takenPackages_filter] at hlt
    have horder := delivers_inOrder hreach.unrestricted fun package harrived htaken =>
      ⟨hlt package htaken, hframed package harrived⟩
    have hloaded : (socket.recv.loadedPackages trace).Sublist (takenPackages trace) :=
      (RecvSide.loadedPackages_prefix _ _).sublist
    refine ⟨(socket.recv.loadedPackages trace).filter fun package =>
      (crypto.decrypt package.payload).isSome, ?_, ?_, ?_⟩
    · intro package hmem
      obtain ⟨hmem, hopens⟩ := List.mem_filter.mp hmem
      exact ⟨horder.arrived package (hloaded.subset hmem), hopens⟩
    · exact (horder.increasing.sublist hloaded).sublist List.filter_sublist
    · rw [flatMap_filter_opens, ← horder.returned]
      exact List.prefix_append _ _
  · intro hstored
    obtain ⟨clean, hclean, _⟩ := exists_unforged hreach hfew hstored
    exact ⟨clean, _, hclean, rfl, by simp, by simp⟩

/-- The payload of a package with one segment, as the peer seals it. -/
def sealedSegment : Bytes := SharpCrypto.marking.encrypt .zero [1, 0, 7, 0, 0]

/-- A payload as long, made up by somebody without the key. -/
def forgedSegment : Bytes := List.replicate 45 0

theorem framed_sealedSegment {payload : Bytes}
    (hpayload : payload ∈ [sealedSegment, forgedSegment]) :
    ∀ plain, SharpCrypto.marking.decrypt payload = some plain → WellFramed plain := by
  intro plain hplain
  rcases List.mem_pair.mp hpayload with rfl | rfl
  · obtain rfl : [1, 0, 7, 0, 0] = plain := by
      simpa [sealedSegment] using hplain
    exact ⟨[[7]], by decide, by decide⟩
  · have hclosed : SharpCrypto.marking.decrypt forgedSegment = none := by decide
    rw [hclosed] at hplain
    cases hplain

/-- A datagram is taken and processed. -/
def dataTurn (packageId : UInt64) (payload : Bytes) : List Action :=
  [.receiver, .receive (.data packageId 0 payload), .receiver, .receiver]

/-- A forged copy of package 1 arrives between the package and its delivery. -/
theorem returned_unforged_copy : ∃ socket trace,
    (socketMachine .standard .marking).Reach
      (fun _ _ action _ => action.Receives Datagram.IsData ∧ action.Open)
      (init .zeroed) socket trace ∧
    arrivedPackages trace = [⟨1, sealedSegment⟩, ⟨1, forgedSegment⟩] ∧
    returnedSegments trace = [[7]] ∧
    ∃ clean later, (socketMachine .standard .marking).Reach (genuineOnly .marking)
        (init .zeroed) clean later ∧
      later = withoutForged .marking trace ∧
      genuineArrivals .marking later = genuineArrivals .marking trace ∧
      positive (returnedSegments later) = positive (returnedSegments trace) := by
  obtain ⟨socket, trace, hreach, hview⟩ := Machine.reach_of_exec
    (fun (_ : ReliableSocket) (trace : List Event) =>
      (arrivedIds trace, arrivedPackages trace, returnedSegments trace,
        trace.filterMap Event.storedPackage?))
    (show ((socketMachine .standard .marking).exec
      (fun _ _ action _ => action.Receives Datagram.IsData ∧ action.Open) (init .zeroed) []
      (dataTurn 1 sealedSegment ++ dataTurn 1 forgedSegment ++
        List.replicate 4 .recvPackage)).map _ =
        some ([1, 1], [⟨1, sealedSegment⟩, ⟨1, forgedSegment⟩], [[7]], [⟨1, sealedSegment⟩])
      by decide)
  simp only [Prod.mk.injEq] at hview
  obtain ⟨hids, harrived, hreturned, hstored⟩ := hview
  refine ⟨socket, trace, hreach, harrived, hreturned, (returned_unforged hreach ?_ ?_).2 ?_⟩
  · rw [hids]
    decide
  · rw [harrived]
    intro package hmem
    apply framed_sealedSegment
    rcases List.mem_pair.mp hmem with rfl | rfl <;> simp
  · intro package hmem
    have hfound : package ∈ [⟨1, sealedSegment⟩] :=
      hstored ▸ List.mem_filterMap.mpr ⟨_, hmem, rfl⟩
    obtain rfl := List.mem_singleton.mp hfound
    decide

/-- A forged datagram with the id of a package that has not arrived: the package is
discarded when it arrives, and nothing is left to deliver. -/
theorem forged_takes_place : ∃ socket trace clean later,
    (socketMachine .standard .marking).Reach
      (fun _ _ action _ => action.Receives Datagram.IsData ∧ action.Open)
      (init .zeroed) socket trace ∧
    (socketMachine .standard .marking).Reach (genuineOnly .marking) (init .zeroed) clean later ∧
    genuineArrivals .marking trace = genuineArrivals .marking later ∧
    socket.recv.caller = .waiting false ∧ clean.recv.caller = .waiting false ∧
    positive (returnedSegments trace) = [] ∧ positive (returnedSegments later) = [[7]] := by
  obtain ⟨socket, trace, hreach, hview⟩ := Machine.reach_of_exec
    (fun (socket : ReliableSocket) (trace : List Event) =>
      (genuineArrivals .marking trace, socket.recv.caller, positive (returnedSegments trace)))
    (show ((socketMachine .standard .marking).exec
      (fun _ _ action _ => action.Receives Datagram.IsData ∧ action.Open) (init .zeroed) []
      (dataTurn 1 forgedSegment ++ dataTurn 1 sealedSegment ++
        List.replicate 6 .recvPackage)).map _ =
        some ([.data 1 0 sealedSegment], .waiting false, []) by decide)
  obtain ⟨clean, later, hclean, hcleanView⟩ := Machine.reach_of_exec
    (fun (clean : ReliableSocket) (later : List Event) =>
      (genuineArrivals .marking later, clean.recv.caller, positive (returnedSegments later)))
    (show ((socketMachine .standard .marking).exec (genuineOnly .marking) (init .zeroed) []
      (dataTurn 1 sealedSegment ++ List.replicate 6 .recvPackage)).map _ =
        some ([.data 1 0 sealedSegment], .waiting false, [[7]]) by decide)
  simp only [Prod.mk.injEq] at hview hcleanView
  exact ⟨socket, trace, clean, later, hreach, hclean, hview.1.trans hcleanView.1.symm,
    hview.2.1, hcleanView.2.1, hview.2.2, hcleanView.2.2⟩

end ReliableSocket

end Sharpvpn
