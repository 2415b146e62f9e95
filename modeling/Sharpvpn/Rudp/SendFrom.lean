import Sharpvpn.Rudp.Trace

/-!
# The meaning of `send_from`

`send_from` tells the peer that packages below it are received or dropped. The
drop branch of the ack handler raises it past the package it drops and looks at no
other; an acknowledged id can lose its slot in `ack_recv_pool` to a later one.
-/

namespace Sharpvpn

open Foundation

namespace SendSide

variable {side next : SendSide} {trace events : List Event}

/-- Every package below `send_from` is acknowledged or was dropped. -/
def SendFromMeant (side : SendSide) (trace : List Event) : Prop :=
  ∀ id, 1 ≤ id → id < side.sendFrom → side.Acknowledged id ∨ id ∈ droppedIds trace

/-- If the ack handler is about to drop a package above `send_from`, every package
in between is acknowledged or was dropped. -/
def DropsInOrder (side : SendSide) (trace : List Event) : Prop :=
  match side.ackHandler with
  | .popped package =>
      20 < side.sendCount package.packageId →
        ∀ id < package.packageId, 1 ≤ id → side.sendFrom ≤ id →
          side.Acknowledged id ∨ id ∈ droppedIds trace
  | _ => True

/-- No id the acknowledgement adds takes its slot from an acknowledged id below
`send_from`, unless that id is covered by the counter or was dropped. -/
def KeepsAcks (side : SendSide) (trace : List Event) (una : UInt64) (ackList : List UInt64) :
    Prop :=
  ∀ id ∈ ackList, side.acceptsAck id.toNat = true →
    ∀ other < side.sendFrom, other % ringCapacity = id.toNat % ringCapacity →
      other = id.toNat ∨ side.ackRecvPool.find other = 0 ∨
        other ≤ max side.sendAckId una.toNat ∨ other ∈ droppedIds trace

instance (side : SendSide) (trace : List Event) : Decidable (side.DropsInOrder trace) := by
  delta DropsInOrder
  exact match side.ackHandler with
    | .popped _ => inferInstanceAs (Decidable (_ → _))
    | .head | .polling | .waiting _ | .expired _ | .settling _ | .exited => instDecidableTrue

instance (side : SendSide) (trace : List Event) (una : UInt64) (ackList : List UInt64) :
    Decidable (side.KeepsAcks trace una ackList) :=
  List.decidableBAll _ ackList

/-- Acknowledged or dropped ids stay so when acknowledgements only grow. -/
theorem SendFromMeant.mono (hmeant : side.SendFromMeant trace)
    (hsendFrom : next.sendFrom = side.sendFrom)
    (hacked : ∀ id < side.sendFrom, side.Acknowledged id →
      next.Acknowledged id ∨ id ∈ droppedIds trace) :
    next.SendFromMeant (trace ++ events) := by
  intro id hid hlt
  rw [hsendFrom] at hlt
  rw [droppedIds_append, List.mem_append]
  rcases hmeant id hid hlt with hold | hdropped
  · exact (hacked id hlt hold).imp_right .inl
  · exact .inr (.inl hdropped)

theorem SendFromMeant.receiveUna {una : UInt64} (hmeant : side.SendFromMeant trace)
    (hrange : side.sendAckId < 2 ^ 64) :
    (side.receiveUna una.toNat).SendFromMeant (trace ++ []) := by
  obtain ⟨hle, _, _⟩ := receiveUna_sendAckId hrange una.toNat_lt
  refine hmeant.mono rfl fun id _ hacked => .inl ?_
  exact hacked.imp_left fun hcovered => by omega

theorem SendFromMeant.receiveAck {una : UInt64} {ackList : List UInt64}
    (hmeant : side.SendFromMeant trace) (hrange : side.sendAckId < 2 ^ 64)
    (hkeeps : side.KeepsAcks trace una ackList) :
    (side.receiveAck una.toNat (ackList.map UInt64.toNat)).SendFromMeant (trace ++ []) := by
  obtain ⟨hle, _, _⟩ := @receiveAck_sendAckId side una.toNat
    (ackList.map UInt64.toNat) hrange una.toNat_lt
  refine hmeant.mono rfl fun id hlt hacked => ?_
  rcases hacked with hcovered | hheld
  · exact .inl (.inl (by omega))
  · by_cases hcovered : id ≤ max side.sendAckId una.toNat
    · exact .inl (.inl (by omega))
    · by_cases hdropped : id ∈ droppedIds trace
      · exact .inr hdropped
      · refine .inl (.inr (find_insertAcks hheld ?_))
        intro other hmem haccepted hslot
        obtain ⟨word, hword, rfl⟩ := List.mem_map.mp hmem
        rcases hkeeps word hword haccepted id hlt hslot.symm with heq | hnone | hle' | hdropped'
        · exact heq.symm
        · exact absurd hnone hheld
        · exact absurd hle' hcovered
        · exact absurd hdropped' hdropped

/-- The drop branch: what lies between the old and the new `send_from` is the
dropped package and ids the condition speaks of. -/
theorem SendFromMeant.drop {package : PackageData} (hmeant : side.SendFromMeant trace)
    (hhandler : side.ackHandler = .popped package)
    (hcount : 20 < side.sendCount package.packageId) (hdrops : side.DropsInOrder trace) :
    SendFromMeant { side with
      sendPool := side.sendPool.erase package.packageId
      sendFrom := side.sendFromAfterDrop package.packageId
      ackHandler := .head }
      (trace ++ .dropped package.packageId :: side.eraseEvents package.packageId) := by
  simp only [DropsInOrder, hhandler] at hdrops
  intro id hid hlt
  have hmem : ∀ other, other ∈ droppedIds trace ∨ other = package.packageId → other ∈
      droppedIds (trace ++ .dropped package.packageId :: side.eraseEvents package.packageId) := by
    rintro other (hold | rfl)
    · simp [hold]
    · simp [droppedIds, Event.droppedId?]
  simp only [sendFromAfterDrop] at hlt
  split at hlt
  next habove =>
    -- `send_from` skips the ids up to the dropped one, which the condition is about.
    rcases Nat.lt_or_ge id package.packageId with hbelow | hge
    · rcases Nat.lt_or_ge id side.sendFrom with hold | hnew
      · exact (hmeant id hid hold).imp_right fun hdropped => hmem id (.inl hdropped)
      · exact (hdrops hcount id hbelow hid hnew).imp_right fun hdropped => hmem id (.inl hdropped)
    · exact .inr (hmem id (.inr (by omega)))
  next => exact (hmeant id hid hlt).imp_right fun hdropped => hmem id (.inl hdropped)

theorem SendFromMeant.step {action : SendAction} (hmeant : side.SendFromMeant trace)
    (hrange : side.sendAckId < 2 ^ 64) (htransition : side.Transition action next events)
    (hdrops : action.Handles (side.DropsInOrder trace))
    (hkeeps : action.Acknowledges (side.KeepsAcks trace)) :
    next.SendFromMeant (trace ++ events) ∧ next.sendAckId < 2 ^ 64 := by
  cases htransition with
  | dropped hhandler hcount => exact ⟨hmeant.drop hhandler hcount hdrops, hrange⟩
  | @recvUna una =>
      exact ⟨hmeant.receiveUna hrange, (receiveUna_sendAckId hrange una.toNat_lt).2.1⟩
  | @ackRecv una =>
      exact ⟨hmeant.receiveAck hrange hkeeps, (receiveAck_sendAckId hrange una.toNat_lt).2.1⟩
  | fastResend =>
      obtain ⟨pool, heq⟩ := @fastResend_frame side _
      rw [heq]
      exact ⟨hmeant.mono rfl fun id _ hacked => .inl hacked, hrange⟩
  | assign | senderMove | missed | vanished | popped | sent | queued | handlerMove | handled
  | watch | expire | settle | timedOut | settled | fastResent =>
      exact ⟨hmeant.mono rfl fun id _ hacked => .inl hacked, hrange⟩

theorem dropsInOrder_filter (side : SendSide) (trace : List Event) :
    side.DropsInOrder (trace.filter Event.ofSend) = side.DropsInOrder trace := by
  unfold DropsInOrder
  rw [droppedIds_filter]

theorem keepsAcks_filter (side : SendSide) (trace : List Event) :
    side.KeepsAcks (trace.filter Event.ofSend) = side.KeepsAcks trace := by
  unfold KeepsAcks
  rw [droppedIds_filter]

end SendSide

namespace ReliableSocket

variable {config : Config} {crypto : SharpCrypto} {memory : Memory} {socket : ReliableSocket}
  {trace : List Event}

/-- `send_from` means what it should in every run that drops packages in order and
keeps the acknowledged ids below it. -/
theorem sendFrom_meant
    (hreach : (socketMachine config crypto).Reach
      (fun socket trace action _ => action.Handles (socket.send.DropsInOrder trace) ∧
        socket.Acknowledges (socket.send.KeepsAcks trace) action)
      (init memory) socket trace) : socket.send.SendFromMeant trace := by
  have hsend : sendMachine.Reach
      (fun side trace action _ => action.Handles (side.DropsInOrder trace) ∧
        action.Acknowledges (side.KeepsAcks trace))
      (init memory).send socket.send (trace.filter Event.ofSend) := by
    refine reach_send ?_ hreach
    intro socket trace action next move _ hallowed hmoves
    rw [SendSide.dropsInOrder_filter, SendSide.keepsAcks_filter]
    exact ⟨hmoves.handles hallowed.1, hmoves.acknowledges hallowed.2⟩
  have hmeant := (hsend.invariant (fun side trace =>
    SendSide.SendFromMeant side trace ∧ side.sendAckId < 2 ^ 64) ?_ ?_).1
  · unfold SendSide.SendFromMeant at hmeant ⊢
    rwa [droppedIds_filter] at hmeant
  · refine ⟨fun id _ hlt => absurd hlt (Nat.not_lt_zero _), ?_⟩
    show 0 < 2 ^ 64
    omega
  · intro side trace action next events hmeant hstep hallowed
    exact hmeant.1.step hmeant.2 (SendSide.step_transition hstep) hallowed.1 hallowed.2

/-- A segment is pushed, packed and assigned. -/
def packTurn : List Action := .sendPackage [7] :: List.replicate 7 (.segment .zero)

/-- The sender pops a package, sends it and puts it into `ack_pool`. -/
def senderTurn : List Action := List.replicate 4 .sender

/-- The ack handler pops a package and asks for a resend after a timeout. -/
def handlerTurn : List Action := List.replicate 5 (.ackHandler true)

/-- A package is dropped after 21 sends. -/
theorem sendFrom_meant_after_drop : ∃ socket trace,
    (socketMachine .standard .marking).Reach
      (fun socket trace action _ => action.Handles (socket.send.DropsInOrder trace) ∧
        socket.Acknowledges (socket.send.KeepsAcks trace) action)
      (init .zeroed) socket trace ∧
    socket.send.sendFrom = 2 ∧ socket.send.SendFromMeant trace := by
  obtain ⟨socket, trace, hreach, hsendFrom⟩ := Machine.reach_of_exec
    (fun (socket : ReliableSocket) (_ : List Event) => socket.send.sendFrom)
    (show ((socketMachine .standard .marking).exec
      (fun socket trace action _ => action.Handles (socket.send.DropsInOrder trace) ∧
        socket.Acknowledges (socket.send.KeepsAcks trace) action)
      (init .zeroed) []
      (packTurn ++ senderTurn ++ (List.replicate 20 (handlerTurn ++ senderTurn)).flatten ++
        List.replicate 3 (.ackHandler false))).map _ = some 2 by decide +kernel)
  exact ⟨socket, trace, hreach, hsendFrom, sendFrom_meant hreach⟩

/-- Three packages are sent and the third is acknowledged. The first two are resent,
but only the second keeps its earlier entry in `ack_pool` alive, is sent twice as
often from then on, and is dropped while the first one still waits. -/
theorem sendFrom_passes_live_package : ∃ socket trace,
    (socketMachine .standard .marking).Reach Machine.always (init .zeroed) socket trace ∧
    ¬socket.send.SendFromMeant trace := by
  obtain ⟨socket, trace, hreach, hview⟩ := Machine.reach_of_exec
    (fun (socket : ReliableSocket) (trace : List Event) =>
      (socket.send.sendFrom, socket.send.sendAckId, socket.send.ackRecvPool.find 1,
        droppedIds trace))
    (show ((socketMachine .standard .marking).exec Machine.always (init .zeroed) []
      ((List.replicate 3 packTurn).flatten ++ (List.replicate 3 senderTurn).flatten ++
        [.receiver, .receive (.ack 0 0 [3]), .receiver, .receiver, .receiver, .receiver] ++
        senderTurn ++ (List.replicate 3 handlerTurn).flatten ++
        (List.replicate 28 (senderTurn ++ handlerTurn)).flatten ++ senderTurn ++
        List.replicate 3 (.ackHandler false))).map _ = some (3, 0, 0, [2]) by decide +kernel)
  simp only [Prod.mk.injEq] at hview
  obtain ⟨hsendFrom, hcounter, hnone, hdropped⟩ := hview
  refine ⟨socket, trace, hreach, fun hmeant => ?_⟩
  rcases hmeant 1 (by omega) (by omega) with (hcovered | hheld) | hmem
  · omega
  · exact hheld hnone
  · simp [hdropped] at hmem

end ReliableSocket

end Sharpvpn
