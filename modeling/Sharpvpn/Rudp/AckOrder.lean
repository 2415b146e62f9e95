import Mathlib.Data.Set.Basic
import Sharpvpn.Rudp.FastResend
import Sharpvpn.Rudp.SendCounter

/-!
# Acks repeated and reordered

Every Ack is sent twice, and the network reorders them. While the window stays below a
ring, an Ack adds the ids it names to those acknowledged, and the set of these determines
`send_ack_id`: a repeated Ack changes nothing, and the order of two does not matter.
-/

namespace Sharpvpn

open Foundation

namespace SendSide

/-- The fast resend loop. -/
def fastResendLoop (side : SendSide) (resendId maxAckId : Nat) : SendSide :=
  (List.range' resendId (maxAckId - resendId)).foldl fastResend side

/-- An illegal `una` counts as 0. -/
def legalUna (side : SendSide) (una : Nat) : Nat := if una > side.sendId then 0 else una

/-- The Ack branch, but for `send_from`. -/
def processAck (side : SendSide) (una : Nat) (ids : List Nat) : SendSide :=
  let acked := side.receiveAck (side.legalUna una) ids
  if side.maxAckId ids > (acked.resendNow + 2) % 2 ^ 64 then
    { acked.fastResendLoop (succ64 acked.resendNow) (side.maxAckId ids) with
      resendNow := side.maxAckId ids }
  else acked

/-- The ids regarded as acknowledged. -/
def acked (side : SendSide) : Set Nat := {id | side.Acknowledged id}

/-- The legal ids an Ack names. -/
def named (side : SendSide) (una : Nat) (ids : List Nat) : Set Nat :=
  {id | id ≤ side.sendId ∧ (id ≤ una ∨ id ∈ ids)}

/-- Less than a ring of ids is unacknowledged, and nothing above `send_id` is known. -/
structure Narrow (side : SendSide) : Prop where
  sendAckId_le : side.sendAckId ≤ side.sendId
  sendId_lt_ring : side.sendId < side.sendAckId + ringCapacity
  sendId_lt : side.sendId + 1 < 2 ^ 63
  find_le : ∀ id, side.ackRecvPool.find id ≠ 0 → id ≤ side.sendId
  resendNow_le : side.resendNow ≤ side.sendId

variable {side other : SendSide} {una id : Nat} {ids : List Nat}

/-- The loop that follows every change of `send_ack_id` stops before an id that is not in
the set. -/
theorem find_advanceAck (side : SendSide) :
    side.ackRecvPool.find (succ64 side.advanceAck.sendAckId) = 0 := by
  have hslots : ∀ i j, decide (side.ackRecvPool.find i ≠ 0) = true →
      decide (side.ackRecvPool.find j ≠ 0) = true → i % ringCapacity = j % ringCapacity →
      i = j := by
    intro i j hi hj hslot
    have hi := IdSet.find_ne_zero.mp (of_decide_eq_true hi)
    have hj := IdSet.find_ne_zero.mp (of_decide_eq_true hj)
    exact hi.2.eq_of_slot hj.2 hslot
  have hstop := SlotTable.scan_capacity (by decide) hslots side.sendAckId
    (succ64_iterate_inj side.sendAckId)
  exact not_not.mp (of_decide_eq_false hstop)

theorem find_receiveAck (side : SendSide) (una : Nat) (ids : List Nat) :
    (side.receiveAck una ids).ackRecvPool.find (succ64 (side.receiveAck una ids).sendAckId) = 0 :=
  find_advanceAck { side with
    ackRecvPool := side.insertAcks ids
    sendAckId := if una > side.sendAckId then una else side.sendAckId }

/-- The ids of an Ack are in the set once they are taken. -/
theorem find_insertAcks_of_mem (hmem : id ∈ ids) (haccepted : side.acceptsAck id = true)
    (hslot : ∀ other ∈ ids, side.acceptsAck other = true →
      other % ringCapacity = id % ringCapacity → other = id) :
    (side.insertAcks ids).find id ≠ 0 := by
  obtain ⟨before, after, rfl⟩ := List.append_of_mem hmem
  unfold insertAcks
  rw [List.foldl_append, List.foldl_cons]
  generalize before.foldl _ side.ackRecvPool = set
  obtain ⟨taken, htaken⟩ : ∃ taken,
      (if side.acceptsAck id && set.find id == 0 then set.insert id else set) = taken := ⟨_, rfl⟩
  have hfound : taken.find id ≠ 0 := by
    rw [← htaken]
    split
    next => exact (IdSet.find_insert (by have := acceptsAck_iff.mp haccepted; omega)).mpr (.inl rfl)
    next hfound => simpa [haccepted] using hfound
  rw [htaken]
  exact @find_insertAcks { side with ackRecvPool := taken } after id hfound fun other hother =>
    hslot other (List.mem_append_right _ (List.mem_cons_of_mem _ hother))

theorem Narrow.eq_of_slot (hnarrow : side.Narrow) {first second : Nat}
    (hfirst : side.sendAckId < first ∧ first ≤ side.sendId)
    (hsecond : side.sendAckId < second ∧ second ≤ side.sendId)
    (hslot : first % ringCapacity = second % ringCapacity) : first = second := by
  have hring := hnarrow.sendId_lt_ring
  rcases Nat.le_total first second with hle | hle
  · exact eq_of_mod_eq hslot hle (by omega)
  · exact (eq_of_mod_eq hslot.symm hle (by omega)).symm

theorem Narrow.le_of_acknowledged (hnarrow : side.Narrow) (hacked : side.Acknowledged id) :
    id ≤ side.sendId := by
  rcases hacked with hle | hfound
  · exact hle.trans hnarrow.sendAckId_le
  · exact hnarrow.find_le id hfound

theorem Narrow.receiveAck (hnarrow : side.Narrow) (huna : una ≤ side.sendId) :
    (side.receiveAck una ids).Narrow := by
  obtain ⟨hle, hring, hlt, hfind, hnow⟩ := hnarrow
  obtain ⟨habove, _, hbetween⟩ := @receiveAck_sendAckId side una ids (by omega) (by omega)
  have hknown : ∀ id, (side.insertAcks ids).find id ≠ 0 → id ≤ side.sendId := by
    intro id hfound
    rcases of_find_insertAcks hfound with hold | ⟨_, haccepted⟩
    · exact hfind id hold
    · exact (acceptsAck_iff.mp haccepted).2
  have hcounter : (side.receiveAck una ids).sendAckId ≤ side.sendId := by
    -- Beyond `una` the counter moves over ids of the set only.
    rcases Nat.lt_or_ge (max side.sendAckId una) (side.receiveAck una ids).sendAckId with
      hmore | hsame
    · exact hknown _ (hbetween _ hmore (le_refl _))
    · omega
  refine ⟨hcounter, ?_, hlt, hknown, ?_⟩
  · show side.sendId < _
    omega
  · rw [receiveAck_resendNow]
    show _ ≤ side.sendId
    omega

/-- An Ack adds what it names to the acknowledged ids. -/
theorem Narrow.acked_receiveAck (hnarrow : side.Narrow) (huna : una ≤ side.sendId) :
    (side.receiveAck una ids).acked = side.acked ∪ side.named una ids := by
  have hlt := hnarrow.sendId_lt
  have hcounter := hnarrow.sendAckId_le
  obtain ⟨habove, _, _⟩ := @receiveAck_sendAckId side una ids (by omega) (by omega)
  ext id
  constructor
  · intro hacked
    have hle : id ≤ side.sendId := (hnarrow.receiveAck huna).le_of_acknowledged hacked
    rcases of_acknowledged_receiveAck (by omega) (by omega) hacked with hold | huna' | hmem
    · exact .inl hold
    · exact .inr ⟨hle, .inl huna'⟩
    · exact .inr ⟨hle, .inr hmem⟩
  · have hcovered : id ≤ max side.sendAckId una → id ∈ (side.receiveAck una ids).acked :=
      fun hle => .inl (hle.trans habove)
    -- Accepted ids lie within one ring, so none evicts another.
    have hslot : side.sendAckId < id → id ≤ side.sendId → ∀ other ∈ ids,
        side.acceptsAck other = true → other % ringCapacity = id % ringCapacity → other = id :=
      fun hlow hhigh other _ haccepted =>
        hnarrow.eq_of_slot (acceptsAck_iff.mp haccepted) ⟨hlow, hhigh⟩
    rcases Nat.lt_or_ge side.sendAckId id with hlow | hhigh
    · rintro ((hle | hfound) | ⟨hle, huna' | hmem⟩)
      · omega
      · exact .inr (find_insertAcks hfound (hslot hlow (hnarrow.find_le id hfound)))
      · exact hcovered (by omega)
      · exact .inr (find_insertAcks_of_mem hmem (acceptsAck_iff.mpr ⟨hlow, hle⟩)
          (hslot hlow hle))
    · exact fun _ => hcovered (by omega)

/-- The set of acknowledged ids determines `send_ack_id`. -/
theorem sendAckId_eq_of_acked (hacked : side.acked = other.acked)
    (hstop : ¬side.Acknowledged (side.sendAckId + 1))
    (hstop' : ¬other.Acknowledged (other.sendAckId + 1)) : side.sendAckId = other.sendAckId := by
  have hsame : ∀ id, side.Acknowledged id ↔ other.Acknowledged id := fun id =>
    Set.ext_iff.mp hacked id
  apply Nat.le_antisymm
  · by_contra hlt
    exact hstop' ((hsame _).mp (.inl (by omega)))
  · by_contra hlt
    exact hstop ((hsame _).mpr (.inl (by omega)))

theorem legalUna_le (side : SendSide) (una : Nat) : side.legalUna una ≤ side.sendId := by
  unfold legalUna
  split <;> omega

theorem fastResendLoop_frame (side : SendSide) (resendId maxAckId : Nat) :
    ∃ pool, side.fastResendLoop resendId maxAckId = { side with sendPool := pool } := by
  unfold fastResendLoop
  generalize List.range' resendId (maxAckId - resendId) = resends
  induction resends generalizing side with
  | nil => exact ⟨side.sendPool, rfl⟩
  | cons resend rest ih =>
      obtain ⟨pool, hresend⟩ := @fastResend_frame side resend
      obtain ⟨final, hrest⟩ := ih (side.fastResend resend)
      refine ⟨final, ?_⟩
      rw [List.foldl_cons, hrest, hresend]

/-- Beyond the section under `ack_recv_mutex` the Ack branch changes `send_pool` and
`resend_now` only. -/
theorem processAck_eq (side : SendSide) (una : Nat) (ids : List Nat) :
    ∃ pool now, side.processAck una ids =
      { side.receiveAck (side.legalUna una) ids with sendPool := pool, resendNow := now } ∧
      (now = (side.receiveAck (side.legalUna una) ids).resendNow ∧
          side.maxAckId ids ≤ (now + 2) % 2 ^ 64 ∨
        now = side.maxAckId ids ∧
          ((side.receiveAck (side.legalUna una) ids).resendNow + 2) % 2 ^ 64 < now) := by
  by_cases hlater : side.maxAckId ids >
      ((side.receiveAck (side.legalUna una) ids).resendNow + 2) % 2 ^ 64
  · obtain ⟨pool, hloop⟩ := fastResendLoop_frame (side.receiveAck (side.legalUna una) ids)
      (succ64 (side.receiveAck (side.legalUna una) ids).resendNow) (side.maxAckId ids)
    exact ⟨pool, side.maxAckId ids, (if_pos hlater).trans (by rw [hloop]), .inr ⟨rfl, hlater⟩⟩
  · exact ⟨_, _, if_neg hlater, .inl ⟨rfl, Nat.le_of_not_lt hlater⟩⟩

theorem maxAckId_le (side : SendSide) (ids : List Nat) : side.maxAckId ids ≤ side.sendId := by
  rcases side.mem_maxAckId ids with hzero | ⟨_, haccepted⟩
  · omega
  · exact (acceptsAck_iff.mp haccepted).2

theorem Narrow.processAck (hnarrow : side.Narrow) : (side.processAck una ids).Narrow := by
  obtain ⟨hle, hring, hlt, hfind, hnow⟩ :=
    @Narrow.receiveAck side (side.legalUna una) ids hnarrow (legalUna_le side una)
  obtain ⟨pool, now, heq, hcases⟩ := processAck_eq side una ids
  rw [heq]
  refine ⟨hle, hring, hlt, hfind, ?_⟩
  rcases hcases with ⟨hsame, _⟩ | ⟨hmost, _⟩
  · exact hsame ▸ hnow
  · exact hmost ▸ maxAckId_le side ids

theorem Narrow.acked_processAck (hnarrow : side.Narrow) :
    (side.processAck una ids).acked = side.acked ∪ side.named (side.legalUna una) ids := by
  obtain ⟨pool, now, heq, _⟩ := processAck_eq side una ids
  rw [← hnarrow.acked_receiveAck (legalUna_le side una), heq]
  rfl

/-- After an Ack the id that follows `send_ack_id` is not acknowledged. -/
theorem Narrow.not_acknowledged_succ (hnarrow : side.Narrow) :
    ¬(side.processAck una ids).Acknowledged ((side.processAck una ids).sendAckId + 1) := by
  have hafter := @Narrow.processAck side una ids hnarrow
  have hsucc : succ64 (side.processAck una ids).sendAckId =
      (side.processAck una ids).sendAckId + 1 :=
    succ64_eq (by have := hafter.sendAckId_le; have := hafter.sendId_lt; omega)
  obtain ⟨pool, now, heq, _⟩ := processAck_eq side una ids
  have hstop : (side.processAck una ids).ackRecvPool.find
      (succ64 (side.processAck una ids).sendAckId) = 0 := by
    rw [heq]
    exact find_receiveAck side _ ids
  rw [hsucc] at hstop
  rintro (hle | hfound)
  · omega
  · exact hfound hstop

theorem processAck_sendId (side : SendSide) (una : Nat) (ids : List Nat) :
    (side.processAck una ids).sendId = side.sendId := by
  obtain ⟨pool, now, heq, _⟩ := processAck_eq side una ids
  rw [heq]
  rfl

/-- Two Acks lead to the same acknowledged ids in either order. -/
theorem Narrow.acked_comm (hnarrow : side.Narrow) (una una' : Nat) (ids ids' : List Nat) :
    ((side.processAck una ids).processAck una' ids').acked =
      ((side.processAck una' ids').processAck una ids).acked := by
  rw [hnarrow.processAck.acked_processAck, hnarrow.processAck.acked_processAck,
    hnarrow.acked_processAck, hnarrow.acked_processAck]
  simp only [named, legalUna, processAck_sendId]
  exact Set.union_right_comm _ _ _

theorem insertAcks_eq_self (hheld : ∀ id ∈ ids, side.acceptsAck id = true →
    side.ackRecvPool.find id ≠ 0) : side.insertAcks ids = side.ackRecvPool := by
  unfold insertAcks
  induction ids with
  | nil => rfl
  | cons head rest ih =>
      have hhead : (side.acceptsAck head && side.ackRecvPool.find head == 0) = false := by
        by_contra hinsert
        rw [Bool.not_eq_false, Bool.and_eq_true, beq_iff_eq] at hinsert
        exact hheld head List.mem_cons_self hinsert.1 hinsert.2
      rw [List.foldl_cons, hhead]
      exact ih fun id hid => hheld id (List.mem_cons_of_mem _ hid)

/-- An Ack that says nothing new. -/
theorem receiveAck_eq_self (hset : side.insertAcks ids = side.ackRecvPool)
    (huna : una ≤ side.sendAckId) (hstop : side.ackRecvPool.find (succ64 side.sendAckId) = 0)
    (hnow : side.sendAckId ≤ side.resendNow) : side.receiveAck una ids = side := by
  have hscan : SlotTable.scan (fun id => decide (side.ackRecvPool.find id ≠ 0)) succ64 ringCapacity
      side.sendAckId = side.sendAckId :=
    SlotTable.scan_of_not_present (by simpa using hstop) _
  simp only [receiveAck, advanceAck, hset, if_neg (Nat.not_lt.mpr huna), hscan,
    if_neg (Nat.not_lt.mpr hnow)]

theorem sendAckId_le_processAck (hnarrow : side.Narrow) :
    side.sendAckId ≤ (side.processAck una ids).sendAckId ∧
      side.legalUna una ≤ (side.processAck una ids).sendAckId := by
  have hlegal := legalUna_le side una
  have hle := hnarrow.sendAckId_le
  have hlt := hnarrow.sendId_lt
  obtain ⟨habove, _, _⟩ :=
    @receiveAck_sendAckId side (side.legalUna una) ids (by omega) (by omega)
  obtain ⟨pool, now, heq, _⟩ := processAck_eq side una ids
  rw [heq]
  exact ⟨(le_max_left _ _).trans habove, (le_max_right _ _).trans habove⟩

/-- After an Ack `resend_now` has caught up with `send_ack_id` and with the ids of the Ack. -/
theorem Narrow.resendNow_processAck (hnarrow : side.Narrow) :
    (side.processAck una ids).sendAckId ≤ (side.processAck una ids).resendNow ∧
      side.maxAckId ids ≤ ((side.processAck una ids).resendNow + 2) % 2 ^ 64 := by
  have hreceived := @Narrow.receiveAck side (side.legalUna una) ids hnarrow (legalUna_le side una)
  have hbound := hreceived.resendNow_le
  have hrange : (side.receiveAck (side.legalUna una) ids).sendId + 1 < 2 ^ 63 := hreceived.sendId_lt
  have hraised := receiveAck_resendNow side (side.legalUna una) ids
  have hmost := maxAckId_le side ids
  have hlt := hnarrow.sendId_lt
  obtain ⟨pool, now, heq, hcases⟩ := processAck_eq side una ids
  rw [heq]
  show (side.receiveAck (side.legalUna una) ids).sendAckId ≤ now ∧
    side.maxAckId ids ≤ (now + 2) % 2 ^ 64
  rcases hcases with ⟨rfl, hless⟩ | ⟨rfl, hmore⟩
  · exact ⟨by omega, hless⟩
  · constructor <;> omega

theorem maxAckId_anti (hle : side.sendAckId ≤ other.sendAckId)
    (hsendId : other.sendId = side.sendId) :
    other.maxAckId ids ≤ side.maxAckId ids := by
  rcases other.mem_maxAckId ids with hzero | ⟨hmem, haccepted⟩
  · omega
  · obtain ⟨hlow, hhigh⟩ := acceptsAck_iff.mp haccepted
    exact le_maxAckId hmem (acceptsAck_iff.mpr ⟨by omega, by omega⟩)

/-- An Ack processed twice does what it does once. -/
theorem Narrow.processAck_idem (hnarrow : side.Narrow) :
    (side.processAck una ids).processAck una ids = side.processAck una ids := by
  have hsendId := processAck_sendId side una ids
  have hlegal : (side.processAck una ids).legalUna una = side.legalUna una := by
    simp only [legalUna, hsendId]
  obtain ⟨habove, huna⟩ := @sendAckId_le_processAck side una ids hnarrow
  obtain ⟨hnow, hmost⟩ := @Narrow.resendNow_processAck side una ids hnarrow
  have hacked := @Narrow.acked_processAck side una ids hnarrow
  have hstop := @Narrow.not_acknowledged_succ side una ids hnarrow
  have hless := @maxAckId_anti side (side.processAck una ids) ids habove hsendId
  have hafter := @Narrow.processAck side una ids hnarrow
  have hset : (side.processAck una ids).insertAcks ids = (side.processAck una ids).ackRecvPool := by
    refine insertAcks_eq_self fun id hid haccepted => ?_
    obtain ⟨hlow, hhigh⟩ := acceptsAck_iff.mp haccepted
    have hheld : id ∈ (side.processAck una ids).acked := by
      rw [hacked]
      exact .inr ⟨hsendId ▸ hhigh, .inr hid⟩
    exact hheld.resolve_left (by omega)
  have hsucc := hafter.sendAckId_le
  have hrange := hafter.sendId_lt
  generalize side.processAck una ids = after at *
  have hfind : after.ackRecvPool.find (succ64 after.sendAckId) = 0 := by
    rw [succ64_eq (by omega)]
    exact not_not.mp fun hfound => hstop (.inr hfound)
  have hself : after.receiveAck (side.legalUna una) ids = after :=
    receiveAck_eq_self hset huna hfind hnow
  unfold SendSide.processAck
  simp only [hlegal, hself]
  exact if_neg (by omega)

/-- Only ids up to `send_id` are put into the set. -/
theorem Transition.find_le {next : SendSide} {action : SendAction} {events : List Event}
    (htransition : side.Transition action next events)
    (hknown : ∀ id, side.ackRecvPool.find id ≠ 0 → id ≤ side.sendId)
    (hfound : next.ackRecvPool.find id ≠ 0) : id ≤ next.sendId := by
  have hgrows := htransition.sendId_le
  rcases htransition.acks_frame with ⟨_, hset⟩ | ⟨_, _, rfl⟩ | ⟨_, _, _, rfl⟩
  · rw [hset] at hfound
    exact (hknown id hfound).trans hgrows
  · exact hknown id hfound
  · rcases of_find_insertAcks hfound with hold | ⟨_, haccepted⟩
    · exact hknown id hold
    · exact (acceptsAck_iff.mp haccepted).2

end SendSide

namespace ReliableSocket

/-- The receiver treats an Ack: the socket at the end of its Ack branch. -/
def processAck (una sendFrom : UInt64) (ackList : List UInt64) (socket : ReliableSocket) :
    ReliableSocket :=
  { socket with
    recv := socket.recv.receiveSendFrom sendFrom.toNat
    send := socket.send.processAck una.toNat (ackList.map UInt64.toNat)
    receiver := .head }

variable {config : Config} {crypto : SharpCrypto} {memory : Memory}
  {start socket : ReliableSocket} {trace : List Event}

theorem reach_fastResendLoop (count resendId maxAckId : Nat) (hcount : maxAckId - resendId = count)
    (hreceiver : socket.receiver = .fastResend resendId maxAckId)
    (hreach : (socketMachine config crypto).Reach Machine.always start socket trace) :
    ∃ after, (socketMachine config crypto).Reach Machine.always start
      { socket with
        send := { socket.send.fastResendLoop resendId maxAckId with resendNow := maxAckId }
        receiver := .head } after := by
  induction count generalizing socket resendId trace with
  | zero =>
      have hend := hreach.extend .receiver (show _ = some ({ socket with
          send := { socket.send with resendNow := maxAckId }, receiver := .head }, []) by
        simp only [socketMachine, step, receiverStep, hreceiver]
        exact if_neg (by omega)) trivial
      simp only [SendSide.fastResendLoop, hcount]
      exact ⟨_, hend⟩
  | succ count ih =>
      have hnext := hreach.extend .receiver (show _ = some ({ socket with
          send := socket.send.fastResend resendId
          receiver := .fastResend (resendId + 1) maxAckId },
          socket.send.fastResendEvents resendId) by
        simp only [socketMachine, step, receiverStep, hreceiver]
        exact if_pos (by omega)) trivial
      obtain ⟨after, hafter⟩ := ih (resendId + 1) (by omega) rfl hnext
      refine ⟨after, ?_⟩
      simp only [SendSide.fastResendLoop, hcount, List.range'_succ, List.foldl_cons]
      simp only [SendSide.fastResendLoop, (by omega : maxAckId - (resendId + 1) = count)] at hafter
      exact hafter

/-- The steps of the receiver thread compute `processAck`. -/
theorem reach_processAck (hreceiver : socket.receiver = .listening) (una sendFrom : UInt64)
    (ackList : List UInt64)
    (hreach : (socketMachine config crypto).Reach Machine.always start socket trace) :
    ∃ after, (socketMachine config crypto).Reach Machine.always start
      (socket.processAck una sendFrom ackList) after := by
  have hlegal : (if una.toNat > socket.send.sendId then (0 : UInt64) else una).toNat =
      socket.send.legalUna una.toNat := by
    unfold SendSide.legalUna
    split <;> rfl
  have harrived := hreach.extend (.receive (.ack una sendFrom ackList))
    (show _ = some ({ socket with
        recv := socket.recv.receiveSendFrom sendFrom.toNat
        receiver := .ackRecv (if una.toNat > socket.send.sendId then 0 else una) ackList }, _) by
      simp only [socketMachine, step, receive, hreceiver]
      rfl) trivial
  have hreceived := harrived.extend .receiver (show _ = some (_, []) from rfl) trivial
  simp only [hlegal] at hreceived
  by_cases hlater : socket.send.maxAckId (ackList.map UInt64.toNat) >
      ((socket.send.receiveAck (socket.send.legalUna una.toNat)
        (ackList.map UInt64.toNat)).resendNow + 2) % 2 ^ 64
  · rw [if_pos hlater] at hreceived
    rw [processAck, SendSide.processAck, if_pos hlater]
    obtain ⟨after, hafter⟩ := reach_fastResendLoop _ _ _ rfl rfl hreceived
    exact ⟨after, hafter⟩
  · rw [if_neg hlater] at hreceived
    rw [processAck, SendSide.processAck, if_neg hlater]
    exact ⟨_, hreceived⟩

/-- What is known of a reachable socket whose window is below a ring. -/
theorem reach_narrow (hmemory : memory.NoStaleAck)
    (hreach : (socketMachine config crypto).Reach Machine.always (init memory) socket trace)
    (hle : socket.send.sendAckId ≤ socket.send.sendId)
    (hring : socket.send.sendId - socket.send.sendAckId < ringCapacity) : socket.send.Narrow := by
  have hasks := reach_asksOnce hreach
  have hsend : sendMachine.Reach Machine.always (init memory).send socket.send
      (trace.filter Event.ofSend) := reach_send (fun _ _ _ _ _ _ _ _ => trivial) hreach
  have hknown := hsend.invariant
    (fun side _ => ∀ id, side.ackRecvPool.find id ≠ 0 → id ≤ side.sendId)
    (fun id hfound => absurd (hmemory.find id) hfound)
    fun _ _ _ _ _ hknown hstep _ _ hfound => (SendSide.step_transition hstep).find_le hknown hfound
  refine ⟨hle, by omega, hasks.sendId_lt, hknown, ?_⟩
  have := hasks.resendNow_le
  omega

/-- A repeated Ack changes nothing, and two Acks lead to the same counters and the same
acknowledged ids in either order. -/
theorem acks_idempotent_commute (hmemory : memory.NoStaleAck)
    (hreach : (socketMachine config crypto).Reach Machine.always (init memory) socket trace)
    (hle : socket.send.sendAckId ≤ socket.send.sendId)
    (hring : socket.send.sendId - socket.send.sendAckId < ringCapacity)
    (una sendFrom una' sendFrom' : UInt64) (ackList ackList' : List UInt64) :
    let once := socket.processAck una sendFrom ackList
    let forward := once.processAck una' sendFrom' ackList'
    let backward :=
      (socket.processAck una' sendFrom' ackList').processAck una sendFrom ackList
    once.processAck una sendFrom ackList = once ∧
      forward.send.sendAckId = backward.send.sendAckId ∧
      forward.recv.recvAckId = backward.recv.recvAckId ∧
      ∀ id, forward.send.Acknowledged id ↔ backward.send.Acknowledged id := by
  intro once forward backward
  have hnarrow := reach_narrow hmemory hreach hle hring
  have hacked := hnarrow.acked_comm una.toNat una'.toNat (ackList.map UInt64.toNat)
    (ackList'.map UInt64.toNat)
  refine ⟨?_, ?_, ?_, fun id => Set.ext_iff.mp hacked id⟩
  · have hsend := @SendSide.Narrow.processAck_idem _ una.toNat (ackList.map UInt64.toNat) hnarrow
    have hrecv : (socket.recv.receiveSendFrom sendFrom.toNat).receiveSendFrom sendFrom.toNat =
        socket.recv.receiveSendFrom sendFrom.toNat :=
      if_neg (by rw [RecvSide.receiveSendFrom_recvAckId]; omega)
    simp only [once, processAck, hsend, hrecv]
  · exact SendSide.sendAckId_eq_of_acked hacked
      (SendSide.Narrow.not_acknowledged_succ hnarrow.processAck)
      (SendSide.Narrow.not_acknowledged_succ hnarrow.processAck)
  · simp only [forward, backward, once, processAck, RecvSide.receiveSendFrom_recvAckId]
    omega

/-- Package 1 is unacknowledged; one Ack covers it, another one lists it. -/
theorem acks_idempotent_commute_one : ∃ socket trace,
    (socketMachine .standard .marking).Reach Machine.always (init .zeroed) socket trace ∧
    let once := socket.processAck 1 0 []
    let forward := once.processAck 0 3 [1]
    let backward := (socket.processAck 0 3 [1]).processAck 1 0 []
    once.processAck 1 0 [] = once ∧
      forward.send.sendAckId = backward.send.sendAckId ∧
      forward.recv.recvAckId = backward.recv.recvAckId ∧
      ∀ id, forward.send.Acknowledged id ↔ backward.send.Acknowledged id := by
  obtain ⟨socket, trace, hreach, hcounters⟩ := Machine.reach_of_exec
    (fun (socket : ReliableSocket) (_ : List Event) => (socket.send.sendId, socket.send.sendAckId))
    (show ((socketMachine .standard .marking).exec Machine.always (init .zeroed) []
      (.sendPackage [7] :: List.replicate 7 (.segment .zero))).map _ = some (2, 0) by decide)
  simp only [Prod.mk.injEq] at hcounters
  have hring : socket.send.sendId - socket.send.sendAckId < ringCapacity := by
    rw [hcounters.1]
    exact Nat.lt_of_le_of_lt (Nat.sub_le _ _) (by decide)
  exact ⟨socket, trace, hreach, acks_idempotent_commute Memory.zeroed_noStaleAck hreach
    (by omega) hring 1 0 0 3 [] [1]⟩

end ReliableSocket

end Sharpvpn
