import Sharpvpn.Rudp.Trace

/-!
# The sender's cumulative counter

`send_ack_id` is raised to the `una` of Data datagrams and of Acks, and then over
the ids listed in Acks. It stays below `send_id`, the next id to assign, as long
as no acknowledgement names an id that was not assigned; the tests in the source
let some of these pass.
-/

namespace Sharpvpn

open Foundation

/-- No slot of `ack_recv_pool` happens to hold an id of its own. -/
def Memory.NoStaleAck (memory : Memory) : Prop :=
  ∀ id, 1 ≤ id → memory.ackRecvPool (id % ringCapacity) ≠ id

theorem Memory.zeroed_noStaleAck : Memory.zeroed.NoStaleAck := by
  intro id hid heq
  change 0 = id at heq
  omega

theorem Memory.NoStaleAck.find {memory : Memory} (hmemory : memory.NoStaleAck) (id : Nat) :
    (ReliableSocket.init memory).send.ackRecvPool.find id = 0 := by
  by_contra hfound
  obtain ⟨hne, hheld⟩ := IdSet.find_ne_zero.mp hfound
  exact hmemory id (by omega) hheld

namespace SendSide

variable {side next : SendSide} {events : List Event}

/-- Only assigned ids are acknowledged, and the flow control test subtracts
without wrapping around. -/
structure AheadOfAcks (side : SendSide) : Prop where
  sendAckId_lt : side.sendAckId < side.sendId
  unassigned : ∀ id, side.sendId ≤ id → ¬side.Acknowledged id
  difference : sub64 side.sendId side.sendAckId = side.sendId - side.sendAckId

/-- The acknowledgement names assigned ids only. -/
def NamesAssigned (side : SendSide) (una : UInt64) (ackList : List UInt64) : Prop :=
  una.toNat < side.sendId ∧ ∀ id ∈ ackList, id.toNat ≠ side.sendId

instance (side : SendSide) (una : UInt64) (ackList : List UInt64) :
    Decidable (side.NamesAssigned una ackList) :=
  @instDecidableAnd _ _ _ (List.decidableBAll _ ackList)

/-- The invariant behind `AheadOfAcks`. -/
structure AcksBelow (side : SendSide) : Prop where
  sendAckId_lt : side.sendAckId < side.sendId
  sendId_lt : side.sendId + 1 < 2 ^ 63
  find_lt : ∀ id, side.ackRecvPool.find id ≠ 0 → id < side.sendId

theorem AcksBelow.aheadOfAcks (hbelow : side.AcksBelow) : side.AheadOfAcks where
  sendAckId_lt := hbelow.sendAckId_lt
  unassigned := by
    rintro id hid (hle | hfound)
    · have := hbelow.sendAckId_lt
      omega
    · have := hbelow.find_lt id hfound
      omega
  difference := by
    have hlt := hbelow.sendAckId_lt
    have hrange := hbelow.sendId_lt
    unfold sub64
    omega

theorem AcksBelow.receiveUna {una : Nat} (hbelow : side.AcksBelow) (huna : una < side.sendId) :
    (side.receiveUna una).AcksBelow := by
  have hlt := hbelow.sendAckId_lt
  have hrange := hbelow.sendId_lt
  obtain ⟨_, _, hbetween⟩ := @receiveUna_sendAckId side una (by omega) (by omega)
  refine ⟨?_, hrange, hbelow.find_lt⟩
  rcases Nat.lt_or_ge (max side.sendAckId una) (side.receiveUna una).sendAckId with habove | hsame
  · exact hbelow.find_lt _ (hbetween _ habove (le_refl _))
  · show _ < side.sendId
    omega

theorem AcksBelow.receiveAck {una : Nat} {ids : List Nat} (hbelow : side.AcksBelow)
    (huna : una < side.sendId) (hids : ∀ id ∈ ids, id ≠ side.sendId) :
    (side.receiveAck una ids).AcksBelow := by
  have hlt := hbelow.sendAckId_lt
  have hrange := hbelow.sendId_lt
  obtain ⟨_, _, hbetween⟩ := @receiveAck_sendAckId side una ids (by omega) (by omega)
  have hfind : ∀ id, (side.insertAcks ids).find id ≠ 0 → id < side.sendId := by
    intro id hfound
    rcases of_find_insertAcks hfound with hold | ⟨hmem, haccepted⟩
    · exact hbelow.find_lt id hold
    · have hle := (acceptsAck_iff.mp haccepted).2
      have hne := hids id hmem
      omega
  refine ⟨?_, hrange, hfind⟩
  rcases Nat.lt_or_ge (max side.sendAckId una) (side.receiveAck una ids).sendAckId with
    habove | hsame
  · exact hfind _ (hbetween _ habove (le_refl _))
  · show _ < side.sendId
    omega

theorem AcksBelow.step {action : SendAction} (hbelow : side.AcksBelow)
    (htransition : side.Transition action next events)
    (hnames : action.Acknowledges side.NamesAssigned) : next.AcksBelow := by
  cases htransition with
  | assign hid =>
      refine ⟨?_, by simpa [assign] using hid, fun id hfound => ?_⟩
      · exact Nat.lt_succ_of_lt hbelow.sendAckId_lt
      · exact Nat.lt_succ_of_lt (hbelow.find_lt id hfound)
  | recvUna => exact hbelow.receiveUna hnames.1
  | ackRecv =>
      refine hbelow.receiveAck hnames.1 fun id hmem => ?_
      obtain ⟨word, hword, rfl⟩ := List.mem_map.mp hmem
      exact hnames.2 word hword
  | fastResend =>
      obtain ⟨pool, heq⟩ := @fastResend_frame side _
      rw [heq]
      exact ⟨hbelow.sendAckId_lt, hbelow.sendId_lt, hbelow.find_lt⟩
  | senderMove | missed | vanished | popped | sent | queued | handlerMove | handled | dropped
  | watch | expire | settle | timedOut | settled | fastResent =>
      exact ⟨hbelow.sendAckId_lt, hbelow.sendId_lt, hbelow.find_lt⟩

end SendSide

namespace ReliableSocket

variable {config : Config} {crypto : SharpCrypto} {memory : Memory} {socket : ReliableSocket}
  {trace : List Event}

/-- The counter stays below the next id in every run whose acknowledgements name
assigned ids only. -/
theorem sendAckId_below_sendId (hmemory : memory.NoStaleAck)
    (hreach : (socketMachine config crypto).Reach
      (fun socket _ action _ => socket.Acknowledges socket.send.NamesAssigned action)
      (init memory) socket trace) : socket.send.AheadOfAcks := by
  have hsend : sendMachine.Reach
      (fun side _ action _ => action.Acknowledges side.NamesAssigned)
      (init memory).send socket.send (trace.filter Event.ofSend) :=
    reach_send (fun _ _ _ _ _ _ hallowed hmoves => hmoves.acknowledges hallowed) hreach
  refine (hsend.invariant (fun side _ => SendSide.AcksBelow side) ?_ ?_).aheadOfAcks
  · refine ⟨Nat.zero_lt_one, ?_, fun id hfound => absurd (hmemory.find id) hfound⟩
    show 1 + 1 < 2 ^ 63
    omega
  · intro side trace action next events hbelow hstep hallowed
    exact hbelow.step (SendSide.step_transition hstep) hallowed

/-- An Ack with `una` 1 after a package was assigned. -/
theorem sendAckId_below_sendId_after_ack : ∃ socket trace,
    (socketMachine .standard .marking).Reach
      (fun socket _ action _ => socket.Acknowledges socket.send.NamesAssigned action)
      (init .zeroed) socket trace ∧
    socket.send.sendAckId = 1 ∧ socket.send.AheadOfAcks := by
  obtain ⟨socket, trace, hreach, hcounter⟩ := Machine.reach_of_exec
    (fun (socket : ReliableSocket) (_ : List Event) => socket.send.sendAckId)
    (show ((socketMachine .standard .marking).exec
      (fun socket _ action _ => socket.Acknowledges socket.send.NamesAssigned action)
      (init .zeroed) []
      [.sendPackage [7], .segment .zero, .segment .zero, .segment .zero, .segment .zero,
        .segment .zero, .segment .zero,
        .receiver, .receive (.ack 1 0 []), .receiver]).map _ = some 1 by decide)
  exact ⟨socket, trace, hreach, hcounter, sendAckId_below_sendId Memory.zeroed_noStaleAck hreach⟩

/-- A Data datagram with `una` 5 reaches a socket that has assigned nothing. -/
theorem sendAckId_passes_sendId : ∃ socket trace,
    (socketMachine .standard .marking).Reach Machine.always (init .zeroed) socket trace ∧
    ¬socket.send.AheadOfAcks := by
  obtain ⟨socket, trace, hreach, hview⟩ := Machine.reach_of_exec
    (fun (socket : ReliableSocket) (_ : List Event) =>
      (socket.send.sendAckId, socket.send.sendId, sub64 socket.send.sendId socket.send.sendAckId))
    (show ((socketMachine .standard .marking).exec Machine.always (init .zeroed) []
      [.receiver, .receive (.data 1 5 []), .receiver, .receiver]).map _ =
        some (5, 1, 2 ^ 64 - 4) by decide)
  simp only [Prod.mk.injEq] at hview
  refine ⟨socket, trace, hreach, fun hahead => ?_⟩
  have := hahead.sendAckId_lt
  omega

end ReliableSocket

end Sharpvpn
