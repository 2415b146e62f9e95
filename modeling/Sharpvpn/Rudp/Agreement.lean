import Sharpvpn.Rudp.Connection
import Sharpvpn.Rudp.RecvCounter
import Sharpvpn.Rudp.SendCounter

/-!
# Agreement on acknowledgements

What a socket tells its peer to have received, it has stored, as long as the peer
never announces a drop. What the peer regards as acknowledged, it was told.
-/

namespace Sharpvpn

open Foundation

/-- The datagram tells its receiver that the id was received. -/
def Datagram.Claims : Datagram → Nat → Prop
  | .data _ una _, id => id ≤ una.toNat
  | .ack una _ ackList, id => id ≤ una.toNat ∨ ∃ word ∈ ackList, word.toNat = id
  | .connectionClose, _ => False

namespace ReliableSocket

variable {config : Config} {crypto : SharpCrypto} {memory : Memory}
  {socket next : ReliableSocket} {action : Action} {trace events : List Event}

/-- A package that a step stores is in the pool after the step. -/
theorem Transition.stored {package : PackageData}
    (htransition : socket.Transition config crypto action next events)
    (hstored : .stored package ∈ events) :
    next.recv.recvPool.find package.packageId = some package := by
  have hfiltered : .stored package ∈ events.filter Event.ofRecv :=
    List.mem_filter.mpr ⟨hstored, rfl⟩
  cases htransition.halves with
  | still _ _ _ hofRecv | closed _ _ _ _ hofRecv =>
      rw [hofRecv] at hfiltered
      cases hfiltered
  | send _ hstep =>
      rw [(filter_ofSend hstep).2] at hfiltered
      cases hfiltered
  | recv _ hstep =>
      have hrecv := RecvSide.step_transition hstep
      generalize next.recv = recv at hrecv
      cases hrecv with
      | @data packageId una payload =>
          simp only [RecvSide.receiveDataEvents, List.mem_cons, reduceCtorEq, false_or] at hstored
          split at hstored
          next haccepts =>
            obtain rfl : package = ⟨packageId.toNat, payload⟩ := by simpa using hstored
            simp only [RecvSide.receiveData, RecvSide.poolAfter, if_pos haccepts]
            exact PackageMap.find_set_self ..
          next => cases hstored
      | ack | connectionClose => simp at hstored
      | signal | enter | stop | skip | wait | wake | load => cases hstored
      | buffered | take | finish => simp at hstored

/-- While no Ack announces a drop, ids counted or present have been stored. -/
theorem recv_knows_stored
    (hreach : (socketMachine config crypto).Reach Machine.always (init memory) socket trace)
    (hsendFroms : ∀ sendFrom ∈ sendFroms trace, sendFrom = 0) :
    socket.recv.Knows (· ∈ storedIds trace) := by
  have hrecv : (recvMachine crypto).Reach Machine.always
      (init memory).recv socket.recv (trace.filter Event.ofRecv) :=
    reach_recv (fun _ _ _ _ _ _ _ _ => trivial) hreach
  have hknows := hrecv.invariant (fun side trace =>
    (∀ sendFrom ∈ sendFroms trace, sendFrom = 0) → side.Knows (· ∈ storedIds trace)) ?_ ?_
  · simp only [sendFroms_filter, storedIds_filter] at hknows
    exact hknows hsendFroms
  · exact fun _ => RecvSide.knows_init _ _
  · intro side trace action next events hknows hstep _ hzero
    have htransition := RecvSide.step_transition hstep
    simp only [sendFroms_append, List.mem_append] at hzero
    refine (hknows fun sendFrom hmem => hzero _ (.inl hmem)).step ?_ htransition ?_ ?_
    · intro id hstored
      simp [hstored]
    · intro package hstored
      simp [mem_storedIds hstored]
    · rintro una sendFrom ackList rfl id hlt hle
      cases htransition
      have : sendFrom.toNat = 0 := hzero _ (.inr (by simp [sendFroms, Event.sendFrom?]))
      omega

/-- An id waiting to be acknowledged has been stored, unless it is no id at all. -/
def Vouched (trace : List Event) (word : UInt64) : Prop :=
  1 ≤ word.toNat → word.toNat ∈ storedIds trace

theorem Vouched.append {word : UInt64} (hvouched : Vouched trace word) :
    Vouched (trace ++ events) word := by
  intro hword
  simp [hvouched hword]

/-- Whatever a socket has told its peer, or is about to, has been stored. -/
structure Honest (socket : ReliableSocket) (trace : List Event) : Prop where
  queueing : ∀ packageId una, socket.receiver = .queueAck packageId una → Vouched trace packageId
  queue : ∃ total, socket.ack.ackSendQueue.Wrote (Vouched trace) total ∧
    ∀ list, socket.ack.ackSender = .reading list → AckQueue.Addresses total list
  told : ∀ datagram, .sent datagram ∈ trace → ∀ id, 1 ≤ id → datagram.Claims id →
    id ∈ storedIds trace

/-- Steps that leave the queue of acknowledgements alone. -/
theorem Honest.mono (hhonest : socket.Honest trace) (hack : next.ack = socket.ack)
    (hqueueing : ∀ packageId una, next.receiver = .queueAck packageId una →
      socket.receiver = .queueAck packageId una ∨ Vouched (trace ++ events) packageId)
    (htold : ∀ datagram, .sent datagram ∈ events → ∀ id, 1 ≤ id → datagram.Claims id →
      id ∈ storedIds trace) : next.Honest (trace ++ events) where
  queueing := by
    intro packageId una hreceiver
    rcases hqueueing packageId una hreceiver with hold | hnew
    · exact (hhonest.queueing packageId una hold).append
    · exact hnew
  queue := by
    obtain ⟨total, hwrote, hreading⟩ := hhonest.queue
    rw [hack]
    exact ⟨total, hwrote.mono fun _ hvouched => hvouched.append, hreading⟩
  told := by
    intro datagram hsent id hid hclaims
    rw [storedIds_append, List.mem_append]
    rcases List.mem_append.mp hsent with hold | hnew
    · exact .inl (hhonest.told datagram hold id hid hclaims)
    · exact .inl (htold datagram hnew id hid hclaims)

/-- What a step sends is covered by the counter and by the queue. -/
theorem Honest.told_step {datagram : Datagram} {id : Nat} (hhonest : socket.Honest trace)
    (hknows : socket.recv.Knows (· ∈ storedIds trace))
    (htransition : socket.Transition config crypto action next events)
    (hsent : .sent datagram ∈ events) (hid : 1 ≤ id) (hclaims : datagram.Claims id) :
    id ∈ storedIds trace := by
  have hcounter : ∀ other, 1 ≤ other → other ≤ (UInt64.ofNat socket.recv.recvAckId).toNat →
      other ∈ storedIds trace := by
    intro other hother hle
    refine hknows.counted other hother (hle.trans ?_)
    rw [UInt64.toNat_ofNat']
    exact Nat.mod_le _ _
  rcases htransition.sent hsent with ⟨package, _, rfl⟩ | ⟨list, hreading, rfl⟩ | rfl
  · exact hcounter id hid hclaims
  · obtain ⟨total, hwrote, haddresses⟩ := hhonest.queue
    rcases hclaims with hcovered | ⟨word, hword, rfl⟩
    · exact hcounter id hid hcovered
    · exact (AckQueue.loadLoop_good hwrote.written _ _ list (le_refl _)
        (haddresses list hreading)).1 word hword hid
  · cases hclaims

theorem Honest.ackSender {ack : AckSide} {recvAckId sendFrom : Nat}
    (hhonest : socket.Honest trace)
    (hsending : socket.ack.Sending recvAckId sendFrom ack events)
    (htold : ∀ datagram, .sent datagram ∈ events → ∀ id, 1 ≤ id → datagram.Claims id →
      id ∈ storedIds trace) : Honest { socket with ack } (trace ++ events) := by
  have hsame : Honest socket (trace ++ events) :=
    hhonest.mono rfl (fun _ _ hreceiver => .inl hreceiver) htold
  refine ⟨hsame.queueing, ?_, hsame.told⟩
  obtain ⟨total, hwrote, haddresses⟩ := hsame.queue
  cases hsending with
  | turn _ hnew =>
      refine ⟨total, hwrote, fun list hreading => ?_⟩
      rcases hnew with rfl | rfl | rfl <;> cases hreading
  | copy =>
      refine ⟨total, hwrote.rebase, fun list hreading => ?_⟩
      cases hreading
      exact hwrote.live
  | load hthread =>
      refine ⟨total, hwrote, fun list hreading => ?_⟩
      cases hreading
      exact (AckQueue.loadLoop_good hwrote.written _ _ _ (le_refl _)
        (haddresses _ hthread)).2

/-- After the Data branch the id it took is stored or was already counted. -/
theorem vouched_data {packageId una : UInt64} {payload : Bytes}
    (hknows : socket.recv.Knows (· ∈ storedIds trace)) :
    Vouched (trace ++ .arrived (.data packageId una payload) ::
      socket.recv.receiveDataEvents ⟨packageId.toNat, payload⟩) packageId := by
  intro hid
  rw [storedIds_append, List.mem_append]
  by_cases haccepts : socket.recv.accepts ⟨packageId.toNat, payload⟩ = true
  · right
    simp [RecvSide.receiveDataEvents, haccepts, storedIds, Event.storedId?]
  · left
    rw [RecvSide.accepts_iff, not_and_or, not_lt] at haccepts
    rcases haccepts with hfound | hcounted
    · exact hknows.present _ hid (Option.isSome_iff_ne_none.mpr hfound)
    · exact hknows.counted _ hid hcounted

theorem Honest.step (hhonest : socket.Honest trace)
    (hknows : socket.recv.Knows (· ∈ storedIds trace))
    (htransition : socket.Transition config crypto action next events) :
    next.Honest (trace ++ events) := by
  have htold : ∀ datagram, .sent datagram ∈ events → ∀ id, 1 ≤ id → datagram.Claims id →
      id ∈ storedIds trace := fun _ hsent _ hid hclaims =>
    hhonest.told_step hknows htransition hsent hid hclaims
  cases htransition with
  | pushed | refused | close | segment | unpacked | assigned | sender | ackHandler
  | recvPackage => exact hhonest.mono rfl (fun _ _ hreceiver => .inl hreceiver) htold
  | ack | connectionClose =>
      exact hhonest.mono rfl (fun _ _ hreceiver => by cases hreceiver) htold
  | ackSender hsending => exact hhonest.ackSender hsending htold
  | data =>
      refine hhonest.mono rfl (fun _ _ hreceiver => ?_) htold
      cases hreceiver
      exact .inr (vouched_data hknows)
  | receiver hreceiving =>
      cases hreceiving with
      | head _ hnew =>
          refine hhonest.mono rfl (fun _ _ hreceiver => ?_) htold
          rcases hnew with rfl | rfl <;> cases hreceiver
      | queueAck hreceiver =>
          obtain ⟨total, hwrote, haddresses⟩ := hhonest.queue
          have hpushed := hwrote.push (hhonest.queueing _ _ hreceiver)
          rw [List.append_nil]
          refine ⟨by rintro _ _ ⟨⟩, ⟨total + 1, hpushed, ?_⟩, hhonest.told⟩
          exact fun list hreading => (haddresses list hreading).mono (Nat.le_succ total)
      | ackRecv _ hthread =>
          refine hhonest.mono rfl (fun _ _ hreceiver => ?_) htold
          rcases hthread with rfl | ⟨_, rfl⟩ <;> cases hreceiver
      | recvUna | fastResend | fastResent =>
          exact hhonest.mono rfl (fun _ _ hreceiver => by cases hreceiver) htold

/-- A socket told of no drop claims only what it has stored. -/
theorem claims_stored
    (hreach : (socketMachine config crypto).Reach Machine.always (init memory) socket trace)
    (hsendFroms : ∀ sendFrom ∈ sendFroms trace, sendFrom = 0) : socket.Honest trace := by
  induction hreach with
  | start =>
      refine ⟨by rintro _ _ ⟨⟩, ⟨0, ⟨?_, ⟨0, rfl, le_refl _⟩, rfl⟩, by rintro _ ⟨⟩⟩, ?_⟩
      · exact fun i hi => absurd hi (Nat.not_lt_zero i)
      · exact fun datagram hsent => by cases hsent
  | step hprior hstep _ ih =>
      simp only [sendFroms_append, List.mem_append] at hsendFroms
      have hbefore := fun sendFrom hmem => hsendFroms sendFrom (.inl hmem)
      exact (ih hbefore).step (recv_knows_stored hprior hbefore) (step_transition hstep)

/-- A socket that has dropped nothing announces no drop. -/
theorem sendFrom_announced
    (hreach : (socketMachine config crypto).Reach Machine.always (init memory) socket trace)
    (hdropped : droppedIds trace = []) :
    socket.send.sendFrom = 0 ∧
      ∀ una sendFrom ackList, .sent (.ack una sendFrom ackList) ∈ trace → sendFrom = 0 := by
  induction hreach with
  | start => exact ⟨rfl, fun una sendFrom ackList hsent => by cases hsent⟩
  | @step socket next trace events action hprior hstep _ ih =>
      rw [droppedIds_append, List.append_eq_nil_iff] at hdropped
      obtain ⟨hzero, hannounced⟩ := ih hdropped.1
      have htransition := step_transition hstep
      refine ⟨?_, fun una sendFrom ackList hsent => ?_⟩
      · cases htransition.halves with
        | still hsend | recv _ _ hsend | closed _ _ hsend => rw [hsend, hzero]
        | send _ hmove =>
            rcases (SendSide.step_transition hmove).sendFrom_frame with hsame | hdrop
            · rw [hsame, hzero]
            · exact absurd hdropped.2 hdrop
      · rcases List.mem_append.mp hsent with hold | hnew
        · exact hannounced una sendFrom ackList hold
        · rcases htransition.sent hnew with ⟨_, _, heq⟩ | ⟨_, _, heq⟩ | heq
          · cases heq
          · injection heq with _ hsendFrom
            rw [hsendFrom, hzero]
            rfl
          · cases heq

/-- An id that a datagram received so far claims. -/
def Claimed (trace : List Event) (id : Nat) : Prop :=
  ∃ datagram, .arrived datagram ∈ trace ∧ datagram.Claims id

theorem Claimed.append {id : Nat} (hclaimed : Claimed trace id) : Claimed (trace ++ events) id := by
  obtain ⟨datagram, harrived, hclaims⟩ := hclaimed
  exact ⟨datagram, List.mem_append_left _ harrived, hclaims⟩

end ReliableSocket

/-- The ids that the datagram being processed claims. -/
def ReceiverThread.Pending : ReceiverThread → Nat → Prop
  | .queueAck _ una, id | .recvUna una, id => id ≤ una.toNat
  | .ackRecv una ackList, id => id ≤ una.toNat ∨ ∃ word ∈ ackList, word.toNat = id
  | _, _ => False

namespace ReliableSocket

variable {config : Config} {crypto : SharpCrypto} {memory : Memory}
  {socket next : ReliableSocket} {action : Action} {trace events : List Event}

/-- What a socket regards as acknowledged, or is about to, was claimed by its peer. -/
structure AcksClaimed (socket : ReliableSocket) (trace : List Event) : Prop where
  acked : ∀ id, 1 ≤ id → socket.send.Acknowledged id → Claimed trace id
  pending : ∀ id, 1 ≤ id → socket.receiver.Pending id → Claimed trace id
  range : socket.send.sendAckId < 2 ^ 64

theorem AcksClaimed.acked_step (hclaimed : socket.AcksClaimed trace)
    (htransition : socket.Transition config crypto action next events) :
    (∀ id, 1 ≤ id → next.send.Acknowledged id → Claimed (trace ++ events) id) ∧
      next.send.sendAckId < 2 ^ 64 := by
  have hold : ∀ id, 1 ≤ id → socket.send.Acknowledged id → Claimed (trace ++ events) id :=
    fun id hid hacked => (hclaimed.acked id hid hacked).append
  have hpending : ∀ id, 1 ≤ id → socket.receiver.Pending id → Claimed (trace ++ events) id :=
    fun id hid hpending => (hclaimed.pending id hid hpending).append
  cases htransition.halves with
  | still hsend | recv _ _ hsend | closed _ _ hsend =>
      rw [hsend]
      exact ⟨hold, hclaimed.range⟩
  | send hmoves hmove =>
      rcases (SendSide.step_transition hmove).acks_frame with
        hsame | ⟨una, rfl, hnext⟩ | ⟨una, ackList, rfl, hnext⟩
      · unfold SendSide.Acknowledged at hold ⊢
        rw [hsame.1, hsame.2]
        exact ⟨hold, hclaimed.range⟩
      · cases hmoves with
        | recvUna hreceiver =>
            rw [hreceiver] at hpending
            rw [hnext]
            refine ⟨fun id hid hacked => ?_,
              (SendSide.receiveUna_sendAckId hclaimed.range una.toNat_lt).2.1⟩
            rcases SendSide.of_acknowledged_receiveUna hclaimed.range una.toNat_lt hacked with
              hacked | hle
            · exact hold id hid hacked
            · exact hpending id hid hle
      · cases hmoves with
        | ackRecv hreceiver =>
            rw [hreceiver] at hpending
            rw [hnext]
            refine ⟨fun id hid hacked => ?_,
              (SendSide.receiveAck_sendAckId hclaimed.range una.toNat_lt).2.1⟩
            rcases SendSide.of_acknowledged_receiveAck hclaimed.range una.toNat_lt hacked with
              hacked | hle | hmem
            · exact hold id hid hacked
            · exact hpending id hid (.inl hle)
            · exact hpending id hid (.inr (List.mem_map.mp hmem))

/-- What the receiver thread carries comes from the datagram it took. -/
theorem AcksClaimed.pending_step (hclaimed : socket.AcksClaimed trace)
    (htransition : socket.Transition config crypto action next events) :
    ∀ id, 1 ≤ id → next.receiver.Pending id → Claimed (trace ++ events) id := by
  have hold : ∀ id, 1 ≤ id → socket.receiver.Pending id → Claimed (trace ++ events) id :=
    fun id hid hpending => (hclaimed.pending id hid hpending).append
  intro id hid hpending
  cases htransition with
  | pushed | refused | close | segment | unpacked | assigned | sender | ackSender | ackHandler
  | recvPackage => exact hold id hid hpending
  | @data packageId una payload => exact ⟨.data packageId una payload, by simp, hpending⟩
  | @ack una sendFrom ackList =>
      refine ⟨.ack una sendFrom ackList, by simp, ?_⟩
      rcases hpending with hle | hmem
      · left
        split at hle
        next => exact absurd (hid.trans hle) (by decide)
        next => exact hle
      · exact .inr hmem
  | connectionClose => cases hpending
  | receiver hreceiving =>
      cases hreceiving with
      | head _ hnew => rcases hnew with rfl | rfl <;> cases hpending
      | queueAck hreceiver =>
          rw [hreceiver] at hold
          exact hold id hid hpending
      | ackRecv _ hthread => rcases hthread with rfl | ⟨_, rfl⟩ <;> cases hpending
      | recvUna | fastResend | fastResent => cases hpending

/-- A socket regards as acknowledged only what some datagram claimed. -/
theorem acknowledged_claimed (hmemory : memory.NoStaleAck)
    (hreach : (socketMachine config crypto).Reach Machine.always (init memory) socket trace) :
    socket.AcksClaimed trace := by
  refine hreach.invariant AcksClaimed ⟨?_, ?_, ?_⟩ ?_
  · rintro id hid (hle | hfound)
    · exact absurd (hid.trans hle) (Nat.not_succ_le_zero 0)
    · exact absurd (hmemory.find id) hfound
  · exact fun id _ hpending => by cases hpending
  · exact Nat.two_pow_pos 64
  · intro socket trace action next events hclaimed hstep _
    have htransition := step_transition hstep
    obtain ⟨hacked, hrange⟩ := hclaimed.acked_step htransition
    exact ⟨hacked, hclaimed.pending_step htransition, hrange⟩

end ReliableSocket

namespace connection

variable {config : Side → Config} {crypto : SharpCrypto} {memory : Side → Memory}
  {state : Duplex.State ReliableSocket Datagram} {trace : List (Side × Event)}

/-- The other end is told of no drop while the first end drops nothing. -/
theorem sendFroms_zero
    {allowed : Machine.StepCondition (Duplex.State ReliableSocket Datagram) (Side × Action)
      (Side × Event)}
    (hreach : (connection config crypto).machine.Reach allowed (start memory) state trace)
    (hdropped : droppedIds (Duplex.at_ .a trace) = []) :
    ∀ sendFrom ∈ sendFroms (Duplex.at_ .b trace), sendFrom = 0 := by
  intro sendFrom hmem
  obtain ⟨una, word, ackList, harrived, rfl⟩ := arrived_of_mem_sendFroms hmem
  have hannounced := (ReliableSocket.sendFrom_announced (reach_end .a hreach) hdropped).2
  rw [hannounced _ _ _ (arrived_sent hreach harrived)]
  rfl

/-- What an end has stored was in its pool at an earlier state of the run. -/
theorem held_of_stored
    {allowed : Machine.StepCondition (Duplex.State ReliableSocket Datagram) (Side × Action)
      (Side × Event)}
    (hreach : (connection config crypto).machine.Reach allowed (start memory) state trace)
    {side : Side} {id : Nat} (hstored : id ∈ storedIds (Duplex.at_ side trace)) :
    ∃ holding earlier later,
      (connection config crypto).machine.Reach allowed (start memory) holding earlier ∧
      (connection config crypto).machine.Reach (Machine.after earlier allowed) holding state later ∧
      trace = earlier ++ later ∧ ((holding.ends side).recv.recvPool.find id).isSome := by
  obtain ⟨event, hmem, hevent⟩ := List.mem_filterMap.mp hstored
  unfold Event.storedId? at hevent
  split at hevent
  next package =>
    obtain rfl := Option.some.inj hevent
    obtain ⟨before, action, events, holding, earlier, later, hstep, hevents, hearlier, hlater,
      htrace⟩ := Duplex.exists_step_at hreach hmem
    have hfound := (ReliableSocket.step_transition hstep).stored hevents
    exact ⟨holding, earlier, later, hearlier, hlater, htrace, Option.isSome_iff_exists.mpr
      ⟨package, hfound⟩⟩
  next => cases hevent

/-- What one end regards as acknowledged, the other end has stored, in every run in
which the first end drops nothing: its pool held the package at an earlier state. -/
theorem acknowledged_stored (hmemory : (memory .a).NoStaleAck)
    (hreach : (connection config crypto).machine.Reach Machine.always (start memory) state trace)
    (hdropped : droppedIds (Duplex.at_ .a trace) = []) {id : Nat} (hid : 1 ≤ id)
    (hacked : (state.ends .a).send.Acknowledged id) :
    id ∈ storedIds (Duplex.at_ .b trace) ∧ ∃ holding earlier later,
      (connection config crypto).machine.Reach Machine.always (start memory) holding earlier ∧
      (connection config crypto).machine.Reach Machine.always holding state later ∧
      trace = earlier ++ later ∧ ((holding.ends .b).recv.recvPool.find id).isSome := by
  -- Some datagram has claimed the id, and the other end sends honest claims only.
  obtain ⟨datagram, harrived, hclaims⟩ :=
    (ReliableSocket.acknowledged_claimed hmemory (reach_end .a hreach)).acked id hid hacked
  have hhonest := ReliableSocket.claims_stored (reach_end .b hreach)
    (sendFroms_zero hreach hdropped)
  have hstored := hhonest.told datagram (arrived_sent hreach harrived) id hid hclaims
  exact ⟨hstored, held_of_stored hreach hstored⟩

/-- Package 1 is sent, stored and acknowledged by a later Ack. -/
theorem acknowledged_stored_first : ∃ state trace,
    (connection (fun _ => .standard) .marking).machine.Reach Machine.always
      (start fun _ => .zeroed) state trace ∧
    (state.ends .a).send.sendAckId = 1 ∧ 1 ∈ storedIds (Duplex.at_ .b trace) ∧
    ∃ holding earlier later,
      (connection (fun _ => .standard) .marking).machine.Reach Machine.always
        (start fun _ => .zeroed) holding earlier ∧
      (connection (fun _ => .standard) .marking).machine.Reach Machine.always holding state later ∧
      trace = earlier ++ later ∧ ((holding.ends .b).recv.recvPool.find 1).isSome := by
  let payload := SharpCrypto.marking.encrypt .zero [1, 0, 7, 0, 0]
  obtain ⟨state, trace, hreach, hview⟩ := Machine.reach_of_exec
    (fun (state : Duplex.State ReliableSocket Datagram) (trace : List (Side × Event)) =>
      ((state.ends .a).send.sendAckId, droppedIds (Duplex.at_ .a trace)))
    (show ((connection (fun _ => .standard) .marking).machine.exec Machine.always
      (start fun _ => .zeroed) []
      ([(.a, .sendPackage [7])] ++ List.replicate 6 (.a, .segment .zero) ++
        List.replicate 3 (.a, .sender) ++
        [(.b, .receiver), (.b, .receive (.data 1 0 payload)), (.b, .receiver),
          (.b, .ackSender), (.b, .ackSender), (.b, .ackSender),
          (.a, .receiver), (.a, .receive (.ack 1 0 [])), (.a, .receiver)])).map _ =
        some (1, []) by decide)
  simp only [Prod.mk.injEq] at hview
  exact ⟨state, trace, hreach, hview.1, acknowledged_stored Memory.zeroed_noStaleAck hreach
    hview.2 (le_refl 1) (.inl (le_of_eq hview.1.symm))⟩

end connection

end Sharpvpn
