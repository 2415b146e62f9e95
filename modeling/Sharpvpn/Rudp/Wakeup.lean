import Sharpvpn.Rudp.Projection

/-!
# Waking the reader

A caller of `recv_package` sleeps when there is nothing for it. The receiver thread may change
that with either kind of datagram, but it signals only after Data.
-/

namespace Sharpvpn

open Foundation

namespace RecvSide

/-- What the loop of `recv_package` looks for: the next package, or an id to skip. -/
def CanProceed (side : RecvSide) : Prop :=
  side.recvPool.find side.recvId ≠ none ∨ side.recvId < side.recvAckId

instance (side : RecvSide) : Decidable side.CanProceed :=
  inferInstanceAs (Decidable (_ ∨ _))

/-- The caller is in `recv_cv.wait`, and nothing has been signalled since. -/
def Asleep (side : RecvSide) : Prop := side.caller = .waiting false

instance (side : RecvSide) : Decidable side.Asleep := decEq side.caller (.waiting false)

variable {crypto : SharpCrypto} {side next : RecvSide} {events : List Event}

theorem signal_not_asleep (side : RecvSide) : ¬side.signal.Asleep := by
  unfold signal Asleep
  cases hcaller : side.caller with
  | waiting signalled => simp
  | idle | scanning | taken | dangling | loaded => simp [hcaller]

/-- The caller goes to sleep under `recv_mutex`, when it has found nothing. -/
theorem Transition.asleep {running : Bool}
    (htransition : side.Transition crypto (.recvPackage running) next events)
    (hasleep : next.Asleep) : ¬next.CanProceed := by
  cases htransition with
  | wait hcaller hfind hge =>
      rintro (hfound | hlt)
      · exact hfound hfind
      · exact absurd hlt (Nat.not_lt.mpr hge)
  | skip hcaller => exact absurd (hcaller.symm.trans hasleep) (by simp)
  | buffered hcaller => exact absurd (hcaller.symm.trans hasleep) (by simp)
  | enter | stop | take | wake | load | finish => cases hasleep

/-- An Ack puts something before a sleeping caller when it moves the counter past the id
that the caller waits for. -/
theorem canProceed_receiveSendFrom (sendFrom : Nat) (hnothing : ¬side.CanProceed) :
    (side.receiveSendFrom sendFrom).CanProceed ↔ side.recvId < sendFrom := by
  obtain ⟨hfind, hge⟩ := not_or.mp hnothing
  unfold CanProceed
  rw [receiveSendFrom_recvPool, receiveSendFrom_recvId, receiveSendFrom_recvAckId]
  constructor
  · rintro (hfound | hlt)
    · exact absurd hfound hfind
    · omega
  · intro hlt
    right
    omega

end RecvSide

/-- The receiver thread has left the `recv_mutex` section of a Data datagram and has not yet
signalled. -/
def ReceiverThread.beforeSignal : ReceiverThread → Bool
  | .queueAck .. => true
  | .head | .listening | .recvUna _ | .ackRecv .. | .fastResend .. | .exited => false

namespace ReliableSocket

variable {config : Config} {crypto : SharpCrypto} {memory : Memory}
  {socket next : ReliableSocket} {action : Action} {trace events : List Event}

/-- On a running socket nobody sleeps on something to read, unless the signal is on its way. -/
def NoneLeftAsleep (socket : ReliableSocket) : Prop :=
  socket.workerRunning = true → socket.recv.Asleep → socket.receiver.beforeSignal = false →
    socket.recv.recvPool.find socket.recv.recvId = none ∧
      ¬socket.recv.recvId < socket.recv.recvAckId

/-- No Ack says, while the caller sleeps, that the peer's packages start behind the one the
caller waits for. -/
def AcksBehindReader (socket : ReliableSocket) : Action → Prop
  | .receive (.ack _ sendFrom _) =>
      socket.workerRunning = true → socket.recv.Asleep → sendFrom.toNat ≤ socket.recv.recvId
  | _ => True

instance (socket : ReliableSocket) : (action : Action) → Decidable (socket.AcksBehindReader action)
  | .receive (.ack ..) => inferInstanceAs (Decidable (_ → _ → _))
  | .receive (.data ..) | .receive .connectionClose | .sendPackage _ | .close | .segment _
  | .sender | .ackSender | .ackHandler _ | .receiver | .recvPackage => instDecidableTrue

theorem noneLeftAsleep_iff : socket.NoneLeftAsleep ↔
    (socket.workerRunning = true → socket.recv.Asleep → socket.receiver.beforeSignal = false →
      ¬socket.recv.CanProceed) := by
  unfold NoneLeftAsleep RecvSide.CanProceed
  simp only [not_or, ne_eq, not_not]

/-- An Ack leaves nobody asleep exactly when its `send_from` is not past the reader. -/
theorem NoneLeftAsleep.ack_iff {una sendFrom : UInt64} {ackList : List UInt64}
    {thread : ReceiverThread} (hnone : socket.NoneLeftAsleep)
    (hreceiver : socket.receiver = .listening) (hthread : thread.beforeSignal = false) :
    NoneLeftAsleep { socket with
        recv := socket.recv.receiveSendFrom sendFrom.toNat, receiver := thread } ↔
      socket.AcksBehindReader (.receive (.ack una sendFrom ackList)) := by
  rw [noneLeftAsleep_iff] at hnone ⊢
  have hbefore : (socket.recv.receiveSendFrom sendFrom.toNat).Asleep ↔ socket.recv.Asleep := by
    simp [RecvSide.Asleep]
  have hquiet : socket.receiver.beforeSignal = false := by rw [hreceiver]; rfl
  constructor
  · intro hnext hrunning hasleep
    have hnothing := hnone hrunning hasleep hquiet
    have hstill := hnext hrunning (hbefore.mpr hasleep) hthread
    rw [RecvSide.canProceed_receiveSendFrom _ hnothing] at hstill
    exact Nat.le_of_not_lt hstill
  · intro hacks hrunning hasleep _
    have hasleep := hbefore.mp hasleep
    have hnothing := hnone hrunning hasleep hquiet
    rw [RecvSide.canProceed_receiveSendFrom _ hnothing]
    exact Nat.not_lt.mpr (hacks hrunning hasleep)

theorem NoneLeftAsleep.step (hnone : socket.NoneLeftAsleep)
    (htransition : socket.Transition config crypto action next events)
    (hacks : socket.AcksBehindReader action) : next.NoneLeftAsleep := by
  cases htransition with
  | pushed | refused | segment | unpacked | assigned | sender | ackSender | ackHandler =>
      exact hnone
  | close | connectionClose => exact fun hrunning => absurd hrunning (by simp [stopAllThread])
  | data => exact fun _ _ hsignalled => Bool.noConfusion hsignalled
  | ack hreceiver => exact (hnone.ack_iff hreceiver rfl).mpr hacks
  | receiver hreceiving =>
      cases hreceiving with
      | queueAck => exact fun _ hasleep => absurd hasleep (RecvSide.signal_not_asleep _)
      | head hold | recvUna hold | ackRecv hold | fastResend hold | fastResent hold =>
          intro hrunning hasleep _
          exact hnone hrunning hasleep (by rw [hold]; rfl)
  | recvPackage hstep =>
      have hcaller : RecvSide.Transition crypto socket.recv (.recvPackage socket.workerRunning)
          _ _ := RecvSide.step_transition hstep
      rw [noneLeftAsleep_iff]
      exact fun _ hasleep _ => hcaller.asleep hasleep

/-- In every run in which no Ack is ahead of a sleeping reader, nobody is left asleep on
something to read. -/
theorem reader_not_left_asleep
    (hreach : (socketMachine config crypto).Reach
      (fun socket _ action _ => socket.AcksBehindReader action) (init memory) socket trace) :
    socket.NoneLeftAsleep := by
  refine hreach.invariant (fun socket _ => socket.NoneLeftAsleep) ?_ ?_
  · rintro - ⟨⟩
  · exact fun _ _ _ _ _ hnone hstep hacks => hnone.step (step_transition hstep) hacks

/-- The caller sleeps, the second package arrives and wakes it in vain, and it sleeps again. -/
theorem reader_not_left_asleep_second : ∃ socket trace,
    (socketMachine .standard .marking).Reach
      (fun socket _ action _ => socket.AcksBehindReader action) (init .zeroed) socket trace ∧
    socket.recv.Asleep ∧ (socket.recv.recvPool.find 2).isSome ∧
    socket.recv.recvPool.find socket.recv.recvId = none := by
  obtain ⟨socket, trace, hreach, hview⟩ := Machine.reach_of_exec
    (fun (socket : ReliableSocket) (_ : List Event) =>
      (socket.workerRunning, decide socket.recv.Asleep, socket.receiver.beforeSignal,
        (socket.recv.recvPool.find 2).isSome))
    (show ((socketMachine .standard .marking).exec
      (fun socket _ action _ => socket.AcksBehindReader action) (init .zeroed) []
      [.recvPackage, .recvPackage, .receiver, .receive (.data 2 0 [9]), .receiver, .receiver,
        .recvPackage, .recvPackage]).map _ = some (true, true, false, true) by decide)
  simp only [Prod.mk.injEq, decide_eq_true_eq] at hview
  obtain ⟨hrunning, hasleep, hsignal, hsecond⟩ := hview
  exact ⟨socket, trace, hreach, hasleep, hsecond,
    (reader_not_left_asleep hreach hrunning hasleep hsignal).1⟩

/-- An Ack then says that the peer starts with the second package: it could be read, and the
caller sleeps on, also when the receiver thread has done with the Ack. -/
theorem reader_left_asleep : ∃ socket trace,
    (socketMachine .standard .marking).Reach Machine.always (init .zeroed) socket trace ∧
    socket.workerRunning = true ∧ socket.recv.Asleep ∧
    socket.receiver.beforeSignal = false ∧ (socket.recv.recvPool.find 2).isSome ∧
    socket.recv.recvId = 1 ∧ socket.recv.recvAckId = 2 ∧ ¬socket.NoneLeftAsleep := by
  obtain ⟨socket, trace, hreach, hview⟩ := Machine.reach_of_exec
    (fun (socket : ReliableSocket) (_ : List Event) =>
      (socket.workerRunning, decide socket.recv.Asleep, socket.receiver.beforeSignal,
        (socket.recv.recvPool.find 2).isSome, socket.recv.recvId, socket.recv.recvAckId))
    (show ((socketMachine .standard .marking).exec Machine.always (init .zeroed) []
      [.recvPackage, .recvPackage, .receiver, .receive (.data 2 0 [9]), .receiver, .receiver,
        .recvPackage, .recvPackage, .receiver, .receive (.ack 0 2 []), .receiver]).map _ =
      some (true, true, false, true, 1, 2) by decide)
  simp only [Prod.mk.injEq, decide_eq_true_eq] at hview
  obtain ⟨hrunning, hasleep, hsignal, hsecond, hrecvId, hrecvAckId⟩ := hview
  refine ⟨socket, trace, hreach, hrunning, hasleep, hsignal, hsecond, hrecvId, hrecvAckId, ?_⟩
  intro hnone
  have hstill := (hnone hrunning hasleep hsignal).2
  rw [hrecvId, hrecvAckId] at hstill
  exact hstill (by decide)

end ReliableSocket

end Sharpvpn
