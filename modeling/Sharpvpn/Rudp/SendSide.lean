import Sharpvpn.Rudp.NetStruct

/-!
# The sending half of a socket

The fields that the sender thread, the ack handler and acknowledgements act on.
Time is not modelled: a package may time out whenever the ack handler looks at it.
-/

namespace Sharpvpn

open Foundation

inductive SenderThread
  /-- At the head of the thread's loop. -/
  | head
  /-- Waiting for a package under `send_mutex`. -/
  | polling
  /-- With a package popped and not sent. -/
  | holding (package : PackageData)
  /-- With a package sent and not in `ack_pool`. -/
  | sent (package : PackageData)
  | exited

inductive AckHandlerThread
  | head
  | polling
  | popped (package : PackageData)
  /-- In the loop that waits for the acknowledgement. -/
  | waiting (package : PackageData)
  /-- After a timeout, before the resend request. -/
  | expired (package : PackageData)
  /-- Acknowledged, before `send_pool.erase`. -/
  | settling (package : PackageData)
  | exited

structure SendSide where
  /-- The next id to assign. -/
  sendId : Nat := 1
  sendPool : PackageQueueMap ringCapacity := {}
  /-- `send_count` of the package with an id. -/
  sendCount : Nat → Nat := fun _ => 0
  resendNow : Nat := 0
  sendAckId : Nat := 0
  sendFrom : Nat := 0
  ackPool : AckWaitList ringCapacity := {}
  ackRecvPool : IdSet ringCapacity
  fastStart : Bool := true
  fastStartCount : Nat := 0
  sender : SenderThread := .head
  ackHandler : AckHandlerThread := .head

namespace SendSide

/-- An id the sender regards as acknowledged. -/
def Acknowledged (side : SendSide) (id : Nat) : Prop :=
  id ≤ side.sendAckId ∨ side.ackRecvPool.find id ≠ 0

instance (side : SendSide) (id : Nat) : Decidable (side.Acknowledged id) :=
  inferInstanceAs (Decidable (_ ∨ _))

/-- The section of the segment thread under `send_mutex`. -/
def assign (side : SendSide) (payload : Bytes) : SendSide :=
  { side with
    sendPool := side.sendPool.push ⟨side.sendId, payload⟩ side.sendId
    sendCount := Function.update side.sendCount side.sendId 0
    sendId := side.sendId + 1 }

def assignEvents (side : SendSide) (payload : Bytes) : List Event :=
  .assigned ⟨side.sendId, payload⟩ ::
    ((side.sendPool.pushFrees side.sendId).map fun old => Event.freed old.packageId).toList

/-- The datagram is sent once more when it is a resend, and once more during the
fast start. -/
def copies (side : SendSide) (id : Nat) : Nat :=
  1 + (if side.sendCount id + 1 ≥ 2 then 1 else 0) + (if side.fastStart then 1 else 0)

/-- The bookkeeping of a transmission: the send count and the fast start. -/
def countSend (side : SendSide) (id : Nat) : SendSide :=
  { side with
    sendCount := Function.update side.sendCount id (side.sendCount id + 1)
    fastStart := side.fastStart && !(side.fastStartCount + 1 == 10)
    fastStartCount :=
      if !side.fastStart then side.fastStartCount
      else if side.fastStartCount + 1 == 10 then 0
      else side.fastStartCount + 1 }

/-- The next step of the main sender thread. -/
def senderStep (running : Bool) (recvAckId : Nat) (side : SendSide) :
    Option (SendSide × List Event) :=
  match side.sender with
  | .head => some ({ side with sender := if running then .polling else .exited }, [])
  | .polling =>
      if side.sendPool.size = 0 then
        -- no step while the thread is in `send_cv.wait`
        if running then none else some ({ side with sender := .exited }, [])
      else
        match side.sendPool.pop with
        -- the slot of the id has gone to another one
        | (none, pool) => some ({ side with sendPool := pool, sender := .head }, [])
        | (some package, pool) =>
            some ({ side with sendPool := pool, sender := .holding package },
              [.popped package.packageId])
  | .holding package =>
      some ({ side.countSend package.packageId with sender := .sent package },
        List.replicate (side.copies package.packageId)
          (.sent (.data (UInt64.ofNat package.packageId) (UInt64.ofNat recvAckId)
            package.payload)))
  | .sent package =>
      some ({ side with ackPool := side.ackPool.push package, sender := .head }, [])
  | .exited => none

/-- `send_pool.erase` and the package it deletes. -/
def eraseEvents (side : SendSide) (id : Nat) : List Event :=
  ((side.sendPool.eraseFrees id).map fun old => Event.freed old.packageId).toList

/-- The drop branch raises `send_from` past the dropped id. -/
def sendFromAfterDrop (side : SendSide) (id : Nat) : Nat :=
  if id > side.sendFrom then id + 1 else side.sendFrom

/-- The next step of the ack handler thread. `timedOut` decides whether a package
still not acknowledged has waited long enough. -/
def ackHandlerStep (running timedOut : Bool) (side : SendSide) :
    Option (SendSide × List Event) :=
  match side.ackHandler with
  | .head => some ({ side with ackHandler := if running then .polling else .exited }, [])
  | .polling =>
      if side.ackPool.cursor.len = 0 then
        -- no step while the thread is in `ack_cv.wait`
        if running then none else some ({ side with ackHandler := .exited }, [])
      else
        match side.ackPool.pop with
        | none => none
        | some (package, pool) =>
            some ({ side with ackPool := pool, ackHandler := .popped package }, [])
  | .popped package =>
      -- Whether the package has been acknowledged is not looked at.
      if side.sendCount package.packageId > 20 then
        some ({ side with
          sendPool := side.sendPool.erase package.packageId
          sendFrom := side.sendFromAfterDrop package.packageId
          ackHandler := .head },
          .dropped package.packageId :: side.eraseEvents package.packageId)
      else some ({ side with ackHandler := .waiting package }, [])
  | .waiting package =>
      -- The two tests are made anew after every sleep.
      if side.sendAckId < package.packageId ∧ side.ackRecvPool.find package.packageId = 0 then
        some ({ side with ackHandler := if timedOut then .expired package else .waiting package },
          [])
      else some ({ side with ackHandler := .settling package }, [])
  | .expired package =>
      some ({ side with
        sendPool := side.sendPool.pushResend package.packageId
        ackHandler := .head }, [.timedOut package.packageId])
  | .settling package =>
      some ({ side with
        sendPool := side.sendPool.erase package.packageId
        ackHandler := .head },
        .settled package.packageId :: side.eraseEvents package.packageId)
  | .exited => none

/-- The loop that follows every change of `send_ack_id`. -/
def advanceAck (side : SendSide) : SendSide :=
  { side with
    sendAckId := SlotTable.scan (fun id => side.ackRecvPool.find id ≠ 0) succ64 ringCapacity
      side.sendAckId }

/-- The Data branch's use of `una`. -/
def receiveUna (side : SendSide) (una : Nat) : SendSide :=
  { side with sendAckId := if side.sendAckId > una then side.sendAckId else una }.advanceAck

/-- The Ack branch takes an id of the list unless it is acknowledged or illegal. -/
def acceptsAck (side : SendSide) (id : Nat) : Bool :=
  -- The next id to assign passes, though no package has it.
  !(id ≤ side.sendAckId || id > side.sendId)

/-- The set after the ids of an Ack have been added. -/
def insertAcks (side : SendSide) (ids : List Nat) : IdSet ringCapacity :=
  ids.foldl (fun set id =>
    if side.acceptsAck id && set.find id == 0 then set.insert id else set) side.ackRecvPool

/-- `max_ack_id` after the ids of an Ack have been looked at. -/
def maxAckId (side : SendSide) (ids : List Nat) : Nat :=
  ids.foldl (fun most id =>
    if side.acceptsAck id then (if most > id then most else id) else most) 0

/-- The section of the Ack branch under `ack_recv_mutex`, and `resend_now` raised
to `send_ack_id` after it. -/
def receiveAck (side : SendSide) (una : Nat) (ids : List Nat) : SendSide :=
  let acked := { side with
    ackRecvPool := side.insertAcks ids
    sendAckId := if una > side.sendAckId then una else side.sendAckId }.advanceAck
  { acked with
    resendNow := if acked.resendNow < acked.sendAckId then acked.sendAckId else acked.resendNow }

/-- One iteration of the fast resend loop. -/
def fastResend (side : SendSide) (id : Nat) : SendSide :=
  if side.ackRecvPool.find id = 0 then { side with sendPool := side.sendPool.pushResend id }
  else side

def fastResendEvents (side : SendSide) (id : Nat) : List Event :=
  if side.ackRecvPool.find id = 0 then [.fastResent id] else []

variable {side : SendSide}

theorem acceptsAck_iff {id : Nat} :
    side.acceptsAck id = true ↔ side.sendAckId < id ∧ id ≤ side.sendId := by
  simp [acceptsAck]

/-- What the set holds after an Ack: what it held, and ids that were accepted. -/
theorem of_find_insertAcks {ids : List Nat} {id : Nat} (hfind : (side.insertAcks ids).find id ≠ 0) :
    side.ackRecvPool.find id ≠ 0 ∨ (id ∈ ids ∧ side.acceptsAck id = true) := by
  unfold insertAcks at hfind
  generalize side.ackRecvPool = set at hfind ⊢
  induction ids generalizing set with
  | nil => exact .inl hfind
  | cons head rest ih =>
      rw [List.foldl_cons] at hfind
      rcases ih _ hfind with hset | ⟨hmem, haccepted⟩
      · split at hset
        next hinsert =>
          rw [Bool.and_eq_true] at hinsert
          have haccepted := acceptsAck_iff.mp hinsert.1
          rcases (IdSet.find_insert (by omega)).mp hset with rfl | ⟨_, hheld⟩
          · exact .inr ⟨List.mem_cons_self, hinsert.1⟩
          · exact .inl hheld
        next => exact .inl hset
      · exact .inr ⟨List.mem_cons_of_mem _ hmem, haccepted⟩

/-- An id stays in the set unless another one of its slot is accepted. -/
theorem find_insertAcks {ids : List Nat} {id : Nat} (hheld : side.ackRecvPool.find id ≠ 0)
    (hslot : ∀ other ∈ ids, side.acceptsAck other = true →
      other % ringCapacity = id % ringCapacity → other = id) :
    (side.insertAcks ids).find id ≠ 0 := by
  unfold insertAcks
  generalize side.ackRecvPool = set at hheld ⊢
  induction ids generalizing set with
  | nil => exact hheld
  | cons head rest ih =>
      rw [List.foldl_cons]
      apply ih
      · exact fun other hmem => hslot other (List.mem_cons_of_mem _ hmem)
      · split
        next hinsert =>
          rw [Bool.and_eq_true] at hinsert
          have haccepted := acceptsAck_iff.mp hinsert.1
          refine (IdSet.find_insert (by omega)).mpr ?_
          by_cases heq : head % ringCapacity = id % ringCapacity
          · exact .inl (hslot head List.mem_cons_self hinsert.1 heq).symm
          · exact .inr ⟨Ne.symm heq, hheld⟩
        next => exact hheld

/-- The loop moves `send_ack_id` up, over acknowledged ids only. -/
theorem advanceAck_sendAckId (hrange : side.sendAckId < 2 ^ 64) :
    side.sendAckId ≤ side.advanceAck.sendAckId ∧ side.advanceAck.sendAckId < 2 ^ 64 ∧
      ∀ id, side.sendAckId < id → id ≤ side.advanceAck.sendAckId →
        side.ackRecvPool.find id ≠ 0 := by
  refine SlotTable.scan_invariant (fun key => side.sendAckId ≤ key ∧ key < 2 ^ 64 ∧
    ∀ id, side.sendAckId < id → id ≤ key → side.ackRecvPool.find id ≠ 0) ?_ _ _
    ⟨le_refl _, hrange, fun id hlt hle => by omega⟩
  rintro key ⟨hle, hlt, hbetween⟩ hpresent
  have hfound : side.ackRecvPool.find (succ64 key) ≠ 0 := by simpa using hpresent
  have hne := (IdSet.find_ne_zero.mp hfound).1
  have hsucc : succ64 key = key + 1 := by
    unfold succ64 at hne ⊢
    omega
  refine ⟨by omega, succ64_lt key, fun id hlow hhigh => ?_⟩
  rcases Nat.lt_or_ge key id with habove | hbelow
  · obtain rfl : id = succ64 key := by omega
    exact hfound
  · exact hbetween id hlow hbelow

@[simp] theorem receiveUna_ackRecvPool (una : Nat) :
    (side.receiveUna una).ackRecvPool = side.ackRecvPool := rfl

@[simp] theorem receiveAck_ackRecvPool (una : Nat) (ids : List Nat) :
    (side.receiveAck una ids).ackRecvPool = side.insertAcks ids := rfl

/-- `send_ack_id` after a Data datagram: `una` or more, over acknowledged ids. -/
theorem receiveUna_sendAckId {una : Nat} (hrange : side.sendAckId < 2 ^ 64)
    (huna : una < 2 ^ 64) :
    max side.sendAckId una ≤ (side.receiveUna una).sendAckId ∧
      (side.receiveUna una).sendAckId < 2 ^ 64 ∧
      ∀ id, max side.sendAckId una < id → id ≤ (side.receiveUna una).sendAckId →
        side.ackRecvPool.find id ≠ 0 := by
  let raised : SendSide :=
    { side with sendAckId := if side.sendAckId > una then side.sendAckId else una }
  have hraised : raised.sendAckId = max side.sendAckId una := by
    show (if _ then _ else _) = _
    split <;> omega
  have hadvance := @advanceAck_sendAckId raised (by omega)
  rw [hraised] at hadvance
  exact hadvance

/-- `send_ack_id` after an Ack: likewise, with the set the Ack has added to. -/
theorem receiveAck_sendAckId {una : Nat} {ids : List Nat} (hrange : side.sendAckId < 2 ^ 64)
    (huna : una < 2 ^ 64) :
    max side.sendAckId una ≤ (side.receiveAck una ids).sendAckId ∧
      (side.receiveAck una ids).sendAckId < 2 ^ 64 ∧
      ∀ id, max side.sendAckId una < id → id ≤ (side.receiveAck una ids).sendAckId →
        (side.insertAcks ids).find id ≠ 0 := by
  let raised : SendSide :=
    { side with
      ackRecvPool := side.insertAcks ids
      sendAckId := if una > side.sendAckId then una else side.sendAckId }
  have hraised : raised.sendAckId = max side.sendAckId una := by
    show (if _ then _ else _) = _
    split <;> omega
  have hadvance := @advanceAck_sendAckId raised (by omega)
  rw [hraised] at hadvance
  exact hadvance

theorem of_acknowledged_receiveUna {una id : Nat} (hrange : side.sendAckId < 2 ^ 64)
    (huna : una < 2 ^ 64) (hacked : (side.receiveUna una).Acknowledged id) :
    side.Acknowledged id ∨ id ≤ una := by
  obtain ⟨_, _, hbetween⟩ := receiveUna_sendAckId hrange huna
  rcases hacked with hcovered | hfound
  · rcases Nat.lt_or_ge (max side.sendAckId una) id with habove | hbelow
    · exact .inl (.inr (hbetween id habove hcovered))
    · rcases Nat.lt_or_ge side.sendAckId id with hlt | hge
      · exact .inr (by omega)
      · exact .inl (.inl hge)
  · exact .inl (.inr hfound)

theorem of_acknowledged_receiveAck {una id : Nat} {ids : List Nat}
    (hrange : side.sendAckId < 2 ^ 64) (huna : una < 2 ^ 64)
    (hacked : (side.receiveAck una ids).Acknowledged id) :
    side.Acknowledged id ∨ id ≤ una ∨ id ∈ ids := by
  have hheld : (side.insertAcks ids).find id ≠ 0 →
      side.Acknowledged id ∨ id ≤ una ∨ id ∈ ids := by
    intro hfound
    rcases of_find_insertAcks hfound with hold | ⟨hmem, _⟩
    · exact .inl (.inr hold)
    · exact .inr (.inr hmem)
  obtain ⟨_, _, hbetween⟩ := @receiveAck_sendAckId side una ids hrange huna
  rcases hacked with hcovered | hfound
  · rcases Nat.lt_or_ge (max side.sendAckId una) id with habove | hbelow
    · exact hheld (hbetween id habove hcovered)
    · rcases Nat.lt_or_ge side.sendAckId id with hlt | hge
      · exact .inr (.inl (by omega))
      · exact .inl (.inl hge)
  · exact hheld hfound

/-- A fast resend changes the send pool only. -/
theorem fastResend_frame (id : Nat) :
    ∃ pool, side.fastResend id = { side with sendPool := pool } := by
  unfold fastResend
  split
  · exact ⟨_, rfl⟩
  · exact ⟨side.sendPool, rfl⟩

end SendSide

end Sharpvpn
