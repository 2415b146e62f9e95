import Sharpvpn.Rudp.HandOff
import Sharpvpn.Rudp.Rings
import Sharpvpn.Rudp.SendFrom

/-!
# Responsibility for packages

Until a package is acknowledged or given up, its data stays in `send_pool` and one
of the sender's queues, threads or lists keeps its id. This needs the outstanding
ids to fit into the rings, and an `ack_recv_pool` that does not start out with id 1:
an id it holds for no reason counts as acknowledged until a later id takes its slot.
-/

namespace Sharpvpn

open Foundation

namespace SendSide

variable {side next : SendSide} {trace events : List Event} {id : Nat}

/-- The assigned ids that are not acknowledged. -/
def unacknowledged (side : SendSide) : List Nat :=
  (List.range side.sendId).filter fun id => 1 ≤ id ∧ ¬side.Acknowledged id

/-- The ids that are unacknowledged or held span less than a ring, and no ring holds
more entries than it has room for. -/
structure Bounded (side : SendSide) : Prop where
  span : ∀ id ∈ side.unacknowledged ++ side.heldIds,
    ∀ other ∈ side.unacknowledged ++ side.heldIds, id < other + ringCapacity
  fresh : side.sendPool.queueCursor.len ≤ 2 * ringCapacity
  resend : side.sendPool.resendCursor.len ≤ ringCapacity
  ackPool : side.ackPool.cursor.len ≤ ringCapacity

instance (side : SendSide) : Decidable side.Bounded :=
  decidable_of_iff ((∀ id ∈ side.unacknowledged ++ side.heldIds,
      ∀ other ∈ side.unacknowledged ++ side.heldIds, id < other + ringCapacity) ∧
    side.sendPool.queueCursor.len ≤ 2 * ringCapacity ∧
    side.sendPool.resendCursor.len ≤ ringCapacity ∧
    side.ackPool.cursor.len ≤ ringCapacity)
    ⟨fun ⟨hspan, hfresh, hresend, hackPool⟩ => ⟨hspan, hfresh, hresend, hackPool⟩,
      fun ⟨hspan, hfresh, hresend, hackPool⟩ => ⟨hspan, hfresh, hresend, hackPool⟩⟩

/-- The data of an assigned id is in its slot of `send_pool`. -/
def HasData (side : SendSide) (trace : List Event) (id : Nat) : Prop :=
  side.sendPool.arr (id % ringCapacity) = id ∧
    ∃ package ∈ assignedPackages trace, package.packageId = id ∧
      side.sendPool.dataList (id % ringCapacity) = some package

/-- Every assigned id is acknowledged, was dropped, or has its data in place and is
held. -/
def Responsible (side : SendSide) (trace : List Event) : Prop :=
  ∀ id, 1 ≤ id → id < side.sendId →
    side.Acknowledged id ∨ id ∈ droppedIds trace ∨
      (side.HasData trace id ∧ id ∈ side.heldIds)

theorem mem_unacknowledged :
    id ∈ side.unacknowledged ↔ 1 ≤ id ∧ id < side.sendId ∧ ¬side.Acknowledged id := by
  simp only [unacknowledged, List.mem_filter, List.mem_range, decide_eq_true_eq]
  constructor
  · exact fun ⟨hlt, hone, hunacked⟩ => ⟨hone, hlt, hunacked⟩
  · exact fun ⟨hone, hlt, hunacked⟩ => ⟨hlt, hone, hunacked⟩

theorem Bounded.withinRings (hbounded : side.Bounded) : side.WithinRings :=
  ⟨hbounded.fresh, hbounded.resend, hbounded.ackPool⟩

/-- Two outstanding ids in one slot are the same. -/
theorem Bounded.eq_of_slot (hbounded : side.Bounded) {other : Nat}
    (hid : id ∈ side.unacknowledged ++ side.heldIds)
    (hother : other ∈ side.unacknowledged ++ side.heldIds)
    (hslot : id % ringCapacity = other % ringCapacity) : id = other := by
  rcases Nat.le_total id other with hle | hle
  · exact eq_of_mod_eq hslot hle (hbounded.span other hother id hid)
  · exact (eq_of_mod_eq hslot.symm hle (hbounded.span id hid other hother)).symm

section Acks

/-- The loop that follows every change of `send_ack_id` ends before an id that is not
in the set. -/
theorem advanceAck_maximal (side : SendSide) :
    side.advanceAck.ackRecvPool.find (succ64 side.advanceAck.sendAckId) = 0 := by
  let present (id : Nat) : Bool := side.ackRecvPool.find id ≠ 0
  have hslots : ∀ i j, present i = true → present j = true →
      i % ringCapacity = j % ringCapacity → i = j := by
    intro i j hi hj hslot
    have hheld : ∀ key, present key = true →
        SlotTable.Holds ringCapacity side.ackRecvPool.arr key := by
      intro key hkey
      exact (IdSet.find_ne_zero.mp (by simpa [present] using hkey)).2
    exact (hheld i hi).eq_of_slot (hheld j hj) hslot
  have habsent : present (succ64 side.advanceAck.sendAckId) = false :=
    SlotTable.scan_capacity (by decide) hslots side.sendAckId
      (succ64_iterate_inj side.sendAckId)
  have hnone : side.ackRecvPool.find (succ64 side.advanceAck.sendAckId) = 0 := by
    simpa [present] using habsent
  exact hnone

/-- The counter is maximal, and unacknowledged ids are less than a ring behind the
next id: acknowledgements do not get lost. -/
structure Steady (side : SendSide) : Prop where
  maximal : side.ackRecvPool.find (succ64 side.sendAckId) = 0
  sendAckId_lt : side.sendAckId < 2 ^ 64
  sendId_lt : side.sendId + 1 < 2 ^ 63
  window : ∀ id, 1 ≤ id → id < side.sendId → ¬side.Acknowledged id →
    side.sendId ≤ id + ringCapacity

/-- An Ack evicts no assigned id that is above the counter. -/
theorem Steady.keeps_slot (hsteady : side.Steady) {other : Nat} (hid : id < side.sendId)
    (habove : side.sendAckId < id) (hfound : side.ackRecvPool.find id ≠ 0)
    (haccepted : side.acceptsAck other = true)
    (hslot : other % ringCapacity = id % ringCapacity) : other = id := by
  have hlt := hsteady.sendId_lt
  have hmaximal := hsteady.maximal
  rw [succ64_eq (by omega)] at hmaximal
  -- The id after the counter is assigned and unacknowledged, which bounds the ids above it.
  have hwindow : side.sendId ≤ side.sendAckId + 1 + ringCapacity := by
    refine hsteady.window (side.sendAckId + 1) (by omega) (by omega) ?_
    rintro (hle | hfound)
    · omega
    · exact hfound hmaximal
  have hne : id ≠ side.sendAckId + 1 := by
    intro heq
    rw [heq] at hfound
    exact hfound hmaximal
  obtain ⟨hlow, hhigh⟩ := acceptsAck_iff.mp haccepted
  rcases Nat.le_total other id with hle | hle
  · exact eq_of_mod_eq hslot hle (by omega)
  · exact (eq_of_mod_eq hslot.symm hle (by omega)).symm

/-- Acknowledged assigned ids stay acknowledged. -/
theorem Steady.acknowledged {action : SendAction} (hsteady : side.Steady)
    (htransition : side.Transition action next events) (hid : id < side.sendId)
    (hacked : side.Acknowledged id) : next.Acknowledged id := by
  have hrange := hsteady.sendAckId_lt
  rcases htransition.acks_frame with hsame | ⟨una, rfl, rfl⟩ | ⟨una, ackList, rfl, rfl⟩
  · unfold Acknowledged
    rw [hsame.1, hsame.2]
    exact hacked
  · obtain ⟨hle, _, _⟩ := receiveUna_sendAckId hrange una.toNat_lt
    exact hacked.imp_left fun hcovered => by omega
  · obtain ⟨hle, _, _⟩ := @receiveAck_sendAckId side una.toNat (ackList.map UInt64.toNat)
      hrange una.toNat_lt
    by_cases hcovered : id ≤ side.sendAckId
    · exact .inl (by omega)
    · have hfound := hacked.resolve_left hcovered
      refine .inr (find_insertAcks hfound fun other _ haccepted hslot => ?_)
      exact hsteady.keeps_slot hid (by omega) hfound haccepted hslot

/-- Steps that leave the acknowledgements and the next id alone. -/
theorem Steady.mono (hsteady : side.Steady) (hpool : next.ackRecvPool = side.ackRecvPool)
    (hcounter : next.sendAckId = side.sendAckId) (hsendId : next.sendId = side.sendId) :
    next.Steady := by
  obtain ⟨hmaximal, hackLt, hidLt, hwindow⟩ := hsteady
  unfold Acknowledged at hwindow
  refine ⟨?_, ?_, ?_, ?_⟩
  · rwa [hpool, hcounter]
  · rwa [hcounter]
  · rwa [hsendId]
  · unfold Acknowledged
    rwa [hpool, hcounter, hsendId]

theorem Steady.assign {payload : Bytes} (hsteady : side.Steady) (hid : side.sendId + 2 < 2 ^ 63)
    (hheld : side.sendId ∈ (side.assign payload).heldIds)
    (hbounded : (side.assign payload).Bounded) : (side.assign payload).Steady where
  maximal := hsteady.maximal
  sendAckId_lt := hsteady.sendAckId_lt
  sendId_lt := hid
  window := by
    intro id hone hlt hunacked
    have hspan := hbounded.span side.sendId (List.mem_append_right _ hheld) id
      (List.mem_append_left _ (mem_unacknowledged.mpr ⟨hone, hlt, hunacked⟩))
    exact hspan

theorem Steady.step {action : SendAction} (hsteady : side.Steady)
    (htransition : side.Transition action next events)
    (hheld : ∀ payload, action = .assign payload → side.sendId ∈ next.heldIds)
    (hbounded : next.Bounded) : next.Steady := by
  -- Ids do not lose their acknowledgements, so the old window still holds.
  have hwindow : ∀ id, 1 ≤ id → id < side.sendId → ¬next.Acknowledged id →
      side.sendId ≤ id + ringCapacity := by
    intro id hone hlt hunacked
    refine hsteady.window id hone hlt fun hacked => hunacked ?_
    exact hsteady.acknowledged htransition hlt hacked
  have hrange := hsteady.sendAckId_lt
  cases htransition with
  | assign hid => exact hsteady.assign hid (hheld _ rfl) hbounded
  | @recvUna una =>
      exact ⟨advanceAck_maximal _, (receiveUna_sendAckId hrange una.toNat_lt).2.1,
        hsteady.sendId_lt, hwindow⟩
  | @ackRecv una ackList =>
      exact ⟨advanceAck_maximal { side with
          ackRecvPool := side.insertAcks (ackList.map UInt64.toNat)
          sendAckId := if una.toNat > side.sendAckId then una.toNat else side.sendAckId },
        (receiveAck_sendAckId hrange una.toNat_lt).2.1, hsteady.sendId_lt, hwindow⟩
  | fastResend =>
      obtain ⟨pool, heq⟩ := @fastResend_frame side _
      rw [heq]
      exact hsteady.mono rfl rfl rfl
  | senderMove | missed | vanished | popped | sent | queued | handlerMove | handled | dropped
  | watch | expire | settle | timedOut | settled | fastResent => exact hsteady.mono rfl rfl rfl

end Acks

section Pools

/-- The rings are used within their capacities, packages have assigned ids, and a
package about to be settled is acknowledged. -/
structure Orderly (side : SendSide) : Prop where
  sendPool : side.sendPool.Lawful
  ackPool : side.ackPool.Lawful
  pooled : ∀ slot package, side.sendPool.dataList slot = some package →
    package.packageId < side.sendId
  inHand : ∀ package ∈ side.inHand, package.packageId < side.sendId
  settling : ∀ package, side.ackHandler = .settling package →
    side.Acknowledged package.packageId

/-- Only a step of the ack handler that has seen an acknowledgement gets to settling. -/
theorem Transition.settling {action : SendAction} {package : PackageData}
    (htransition : side.Transition action next events)
    (hsettling : next.ackHandler = .settling package) :
    side.ackHandler = .settling package ∨ side.Acknowledged package.packageId ∧
      package ∈ side.ackHandler.packages := by
  cases htransition with
  | settle hhandler hacked =>
      cases hsettling
      exact .inr ⟨hacked, by simp [hhandler, AckHandlerThread.packages]⟩
  | handlerMove _ hnew => rcases hnew with rfl | rfl <;> cases hsettling
  | handled | dropped | watch | expire | timedOut | settled => cases hsettling
  | fastResend =>
      obtain ⟨pool, heq⟩ := @fastResend_frame side _
      rw [heq] at hsettling
      exact .inl hsettling
  | assign | senderMove | missed | vanished | popped | sent | queued | recvUna | ackRecv
  | fastResent => exact .inl hsettling

theorem Orderly.step {action : SendAction} (horderly : side.Orderly) (hsteady : side.Steady)
    (htransition : side.Transition action next events) (hbounded : next.Bounded) :
    next.Orderly := by
  obtain ⟨hsendPool, hackPool⟩ :=
    htransition.lawful horderly.sendPool horderly.ackPool hbounded.withinRings
  have hle : side.sendId ≤ next.sendId := htransition.sendId_le
  refine ⟨hsendPool, hackPool, ?_, ?_, ?_⟩
  · intro slot package hslot
    rcases htransition.pooled hslot with hold | ⟨hnew, hnext⟩
    · exact Nat.lt_of_lt_of_le (horderly.pooled slot package hold) hle
    · omega
  · intro package hmem
    rcases htransition.inHand_step horderly.ackPool hbounded.withinRings hmem with
      hold | ⟨_, _, hslot⟩
    · exact Nat.lt_of_lt_of_le (horderly.inHand package hold) hle
    · exact Nat.lt_of_lt_of_le (horderly.pooled _ package hslot) hle
  · intro package hsettling
    have hacked : side.Acknowledged package.packageId ∧ package ∈ side.inHand := by
      rcases htransition.settling hsettling with hold | ⟨hacked, hmem⟩
      · refine ⟨horderly.settling package hold, mem_inHand.mpr (.inr (.inr ?_))⟩
        simp [hold, AckHandlerThread.packages]
      · exact ⟨hacked, mem_inHand.mpr (.inr (.inr hmem))⟩
    exact hsteady.acknowledged htransition (horderly.inHand package hacked.2) hacked.1

end Pools

section Tokens

/-- The slot of the next id has no outstanding package in it. -/
theorem Orderly.slot_free {payload : Bytes} (horderly : side.Orderly)
    (hbounded : (side.assign payload).Bounded) (hone : 1 ≤ id) (hlt : id < side.sendId)
    (hunacked : ¬side.Acknowledged id) : id % ringCapacity ≠ side.sendId % ringCapacity := by
  intro hslot
  have hnew : side.sendId ∈ (side.assign payload).heldIds :=
    (mem_heldIds_assign horderly.sendPool hbounded.fresh).mpr (.inl rfl)
  have hold : id ∈ (side.assign payload).unacknowledged :=
    mem_unacknowledged.mpr ⟨hone, Nat.lt_succ_of_lt hlt, hunacked⟩
  have heq := hbounded.eq_of_slot (List.mem_append_left _ hold) (List.mem_append_right _ hnew) hslot
  omega

/-- Data in place stays there until the package is acknowledged or dropped. -/
theorem Orderly.keeps_stored {action : SendAction} (horderly : side.Orderly)
    (htransition : side.Transition action next events) (hbounded : next.Bounded)
    (hone : 1 ≤ id) (hlt : id < side.sendId) (hunacked : ¬side.Acknowledged id)
    (hdropped : id ∉ droppedIds events) (hstored : side.sendPool.Stored id) :
    next.sendPool.Stored id := by
  cases htransition with
  | assign => exact hstored.push (horderly.slot_free hbounded hone hlt hunacked)
  | missed | vanished | popped => exact PackageQueueMap.stored_popRest.mpr hstored
  | timedOut => exact PackageQueueMap.stored_pushResend.mpr hstored
  | dropped hhandler =>
      refine hstored.erase ?_
      rintro rfl
      exact hdropped (by simp [droppedIds, Event.droppedId?])
  | settled hhandler =>
      refine hstored.erase ?_
      rintro rfl
      exact hunacked (horderly.settling _ hhandler)
  | fastResend =>
      unfold SendSide.fastResend
      split
      next => exact PackageQueueMap.stored_pushResend.mpr hstored
      next => exact hstored
  | senderMove | sent | queued | handlerMove | handled | watch | expire | settle | recvUna
  | ackRecv | fastResent => exact hstored

/-- Taking an id from the queues leaves the others with whoever has them. -/
theorem Orderly.held_popRest {sender : SenderThread} (horderly : side.Orderly)
    (hsender : side.sender = .polling) (hsize : 0 < side.sendPool.size)
    (hne : id ≠ side.sendPool.popId) (hheld : id ∈ side.heldIds) :
    id ∈ heldIds { side with sendPool := side.sendPool.popRest, sender } := by
  rw [mem_heldIds, PackageQueueMap.queued_eq_cons horderly.sendPool hsize, hsender] at hheld
  rw [mem_heldIds]
  rcases hheld with hqueued | ⟨_, hnone, _⟩ | hwaiting
  · exact .inl ((List.mem_cons.mp hqueued).resolve_left hne)
  · cases hnone
  · exact .inr (.inr hwaiting)

/-- The ack handler discards an entry only for a later one of the same slot, which has
the same id while the outstanding ids fit into a ring. -/
theorem Orderly.held_handled {package : PackageData} {pool : AckWaitList ringCapacity}
    (horderly : side.Orderly) (hside : side.Bounded) (hhandler : side.ackHandler = .polling)
    (hpop : side.ackPool.pop = some (package, pool)) (hheld : id ∈ side.heldIds) :
    id ∈ heldIds { side with ackPool := pool, ackHandler := .popped package } := by
  obtain ⟨_, hcontents, hlater⟩ := horderly.ackPool.pop hpop
  have hkept : ∀ other ∈ package :: pool.contents, other.packageId = id →
      id ∈ heldIds { side with ackPool := pool, ackHandler := .popped package } := by
    intro other hmem hid
    rw [mem_heldIds]
    rcases List.mem_cons.mp hmem with rfl | hrest
    · exact .inr (.inr (.inr ⟨other, List.mem_singleton_self _, hid⟩))
    · exact .inr (.inr (.inl ⟨other, hrest, hid⟩))
  rcases mem_heldIds.mp hheld with hqueued | hsending | ⟨entry, hmem, hid⟩ | ⟨_, hnone, _⟩
  · exact mem_heldIds.mpr (.inl hqueued)
  · exact mem_heldIds.mpr (.inr (.inl hsending))
  · rw [hcontents, List.mem_append] at hmem
    rcases hmem with hskipped | hstays
    -- The entry discarded has a later one of its slot, which stays.
    · obtain ⟨last, hlast, hslot⟩ := hlater entry hskipped
      have hlastHeld : last.packageId ∈ side.heldIds := by
        refine mem_heldIds.mpr (.inr (.inr (.inl ⟨last, ?_, rfl⟩)))
        rw [hcontents]
        exact List.mem_append_right _ hlast
      rw [hid] at hslot
      exact hkept last hlast (hside.eq_of_slot (List.mem_append_right _ hlastHeld)
        (List.mem_append_right _ hheld) hslot)
    · exact hkept entry hstays hid
  · rw [hhandler] at hnone
    cases hnone

/-- A held id whose data is in place stays held, unless it is acknowledged or dropped. -/
theorem Orderly.keeps_held {action : SendAction} (horderly : side.Orderly) (hside : side.Bounded)
    (htransition : side.Transition action next events) (hbounded : next.Bounded)
    (hunacked : ¬side.Acknowledged id) (hdropped : id ∉ droppedIds events)
    (hstored : side.sendPool.Stored id) (hheld : id ∈ side.heldIds) : id ∈ next.heldIds := by
  cases htransition with
  | assign => exact (mem_heldIds_assign horderly.sendPool hbounded.fresh).mpr (.inr hheld)
  | senderMove hold hnew =>
      rw [mem_heldIds] at hheld ⊢
      rcases hold with hold | hold <;> rcases hnew with rfl | rfl | rfl <;>
        simpa [hold, SenderThread.packages] using hheld
  | missed hsender hsize hpop =>
      refine horderly.held_popRest hsender hsize ?_ hheld
      intro heq
      exact hpop (heq ▸ hstored.1.symm)
  | vanished hsender hsize hpop hdata =>
      refine horderly.held_popRest hsender hsize ?_ hheld
      intro heq
      obtain ⟨_, package, hslot, _⟩ := hstored
      rw [heq, hdata] at hslot
      cases hslot
  | @popped _ _ package hsender hsize hpop hdata =>
      by_cases heq : id = side.sendPool.popId
      · -- The id popped is held by the sender now, with the package of its slot.
        obtain ⟨_, found, hslot, hid⟩ := hstored
        rw [heq, hdata] at hslot
        obtain rfl := Option.some.inj hslot
        exact mem_heldIds.mpr (.inr (.inl ⟨package, List.mem_singleton_self _, hid⟩))
      · exact horderly.held_popRest hsender hsize heq hheld
  | sent hsender =>
      rw [mem_heldIds] at hheld ⊢
      simpa [hsender, SenderThread.packages, countSend] using hheld
  | @queued _ _ package hsender =>
      rw [mem_heldIds] at hheld ⊢
      rw [AckWaitList.contents_push horderly.ackPool hbounded.ackPool]
      rcases hheld with hqueued | ⟨other, hmem, hid⟩ | ⟨other, hmem, hid⟩ | hhandler
      · exact .inl hqueued
      · rw [hsender] at hmem
        obtain rfl := List.mem_singleton.mp hmem
        exact .inr (.inr (.inl ⟨other, by simp, hid⟩))
      · exact .inr (.inr (.inl ⟨other, by simp [hmem], hid⟩))
      · exact .inr (.inr (.inr hhandler))
  | handlerMove hold hnew =>
      rw [mem_heldIds] at hheld ⊢
      rcases hold with hold | hold <;> rcases hnew with rfl | rfl <;>
        simpa [hold, AckHandlerThread.packages] using hheld
  | handled hhandler hpop => exact horderly.held_handled hside hhandler hpop hheld
  | @dropped _ _ package hhandler =>
      have hne : package.packageId ≠ id := by
        rintro rfl
        exact hdropped (by simp [droppedIds, Event.droppedId?])
      rw [mem_heldIds] at hheld ⊢
      simpa [hhandler, AckHandlerThread.packages, hne] using hheld
  | @settled _ _ package hhandler =>
      have hne : package.packageId ≠ id := by
        rintro rfl
        exact hunacked (horderly.settling package hhandler)
      rw [mem_heldIds] at hheld ⊢
      simpa [hhandler, AckHandlerThread.packages, hne] using hheld
  | watch hhandler =>
      rw [mem_heldIds] at hheld ⊢
      rcases hhandler with hhandler | hhandler <;>
        simpa [hhandler, AckHandlerThread.packages] using hheld
  | expire hhandler | settle hhandler =>
      rw [mem_heldIds] at hheld ⊢
      simpa [hhandler, AckHandlerThread.packages] using hheld
  | timedOut hhandler =>
      rw [mem_heldIds] at hheld ⊢
      rw [PackageQueueMap.mem_queued_pushResend horderly.sendPool hbounded.resend]
      rcases hheld with hqueued | hsending | hwaiting | ⟨other, hmem, hid⟩
      · exact .inl (.inr hqueued)
      · exact .inr (.inl hsending)
      · exact .inr (.inr (.inl hwaiting))
      · rw [hhandler] at hmem
        obtain rfl := List.mem_singleton.mp hmem
        exact .inl (.inl hid.symm)
  | fastResend =>
      have hresend := hbounded.resend
      unfold SendSide.fastResend at hresend ⊢
      split at hresend
      next hmissing =>
        rw [if_pos hmissing, mem_heldIds]
        rw [PackageQueueMap.mem_queued_pushResend horderly.sendPool hresend]
        exact (mem_heldIds.mp hheld).imp_left .inr
      next hfound =>
        rw [if_neg hfound]
        exact hheld
  | recvUna | ackRecv | fastResent => exact hheld

/-- The invariant behind `Responsible`. -/
structure Accountable (side : SendSide) (trace : List Event) : Prop where
  steady : side.Steady
  orderly : side.Orderly
  bounded : side.Bounded
  kept : ∀ id, 1 ≤ id → id < side.sendId →
    side.Acknowledged id ∨ id ∈ droppedIds trace ∨
      (side.sendPool.Stored id ∧ id ∈ side.heldIds)

/-- The package just assigned is in its slot and in the fresh queue. -/
theorem Accountable.assign {payload : Bytes} (haccountable : side.Accountable trace)
    (hbounded : (side.assign payload).Bounded) :
    (side.assign payload).sendPool.Stored side.sendId ∧
      side.sendId ∈ (side.assign payload).heldIds :=
  ⟨PackageQueueMap.stored_push_self rfl,
    (mem_heldIds_assign haccountable.orderly.sendPool hbounded.fresh).mpr (.inl rfl)⟩

theorem Accountable.step {action : SendAction} (haccountable : side.Accountable trace)
    (htransition : side.Transition action next events) (hbounded : next.Bounded) :
    next.Accountable (trace ++ events) := by
  have hassigned : ∀ payload, action = .assign payload →
      next.sendPool.Stored side.sendId ∧ side.sendId ∈ next.heldIds ∧
        next.sendId = side.sendId + 1 := by
    intro payload haction
    subst haction
    cases htransition with
    | assign =>
        obtain ⟨hstored, hheld⟩ := haccountable.assign hbounded
        exact ⟨hstored, hheld, rfl⟩
  obtain ⟨hsteady, horderly, hside, hkept⟩ := haccountable
  refine ⟨hsteady.step htransition (fun payload haction => (hassigned payload haction).2.1)
    hbounded, horderly.step hsteady htransition hbounded, hbounded, ?_⟩
  intro id hone hlt
  rw [droppedIds_append, List.mem_append]
  by_cases hold : id < side.sendId
  · rcases hkept id hone hold with hacked | hdropped | ⟨hstored, hheld⟩
    · exact .inl (hsteady.acknowledged htransition hold hacked)
    · exact .inr (.inl (.inl hdropped))
    · by_cases hacked : side.Acknowledged id
      · exact .inl (hsteady.acknowledged htransition hold hacked)
      · by_cases hdropped : id ∈ droppedIds events
        · exact .inr (.inl (.inr hdropped))
        · exact .inr (.inr
            ⟨horderly.keeps_stored htransition hbounded hone hold hacked hdropped hstored,
              horderly.keeps_held hside htransition hbounded hacked hdropped hstored hheld⟩)
  · -- Only the segment thread raises `send_id`, and by one.
    cases action with
    | assign payload =>
        obtain ⟨hstored, hheld, hnext⟩ := hassigned payload rfl
        obtain rfl : id = side.sendId := by omega
        exact .inr (.inr ⟨hstored, hheld⟩)
    | sender | ackHandler | recvUna | ackRecv | fastResend | fastResent =>
        have hsame := (htransition.assigned_frame fun payload haction => by cases haction).1
        omega

end Tokens

/-- A fresh sender holds nothing. -/
theorem bounded_init (memory : Memory) : (ReliableSocket.init memory).send.Bounded := by
  have hnone : (ReliableSocket.init memory).send.unacknowledged ++
      (ReliableSocket.init memory).send.heldIds = [] := rfl
  refine ⟨?_, Nat.zero_le _, Nat.zero_le _, Nat.zero_le _⟩
  intro id hid
  rw [hnone] at hid
  cases hid

theorem accountable_init {memory : Memory} (hmemory : memory.ackRecvPool 1 ≠ 1) :
    (ReliableSocket.init memory).send.Accountable [] := by
  have hcapacity : 0 < ringCapacity := by decide
  refine ⟨⟨?_, Nat.two_pow_pos 64, ?_, ?_⟩, ⟨PackageQueueMap.lawful_empty hcapacity,
    AckWaitList.lawful_empty hcapacity, ?_, ?_, ?_⟩, bounded_init memory, ?_⟩
  · show IdSet.find ⟨memory.ackRecvPool⟩ 1 = 0
    exact if_pos hmemory
  · show 1 + 1 < 2 ^ 63
    omega
  · intro id hone hlt
    exact absurd hlt (Nat.not_lt.mpr hone)
  · intro slot package hslot
    cases hslot
  · intro package hmem
    cases hmem
  · intro package hsettling
    cases hsettling
  · intro id hone hlt
    exact absurd hlt (Nat.not_lt.mpr hone)

end SendSide

namespace ReliableSocket

variable {config : Config} {crypto : SharpCrypto} {memory : Memory} {socket : ReliableSocket}
  {trace : List Event}

/-- No package is forgotten in any run within the rings, unless `ack_recv_pool` starts
out with id 1 in its slot. -/
theorem packages_responsible (hmemory : memory.ackRecvPool 1 ≠ 1)
    (hreach : (socketMachine config crypto).Reach (fun _ _ _ next => next.send.Bounded)
      (init memory) socket trace) : socket.send.Responsible trace := by
  have hsend : sendMachine.Reach (fun _ _ _ next => next.Bounded)
      (init memory).send socket.send (trace.filter Event.ofSend) :=
    reach_send (fun _ _ _ _ _ _ hbounded _ => hbounded) hreach
  have haccountable := hsend.invariant SendSide.Accountable (SendSide.accountable_init hmemory)
    fun side trace action next events haccountable hstep hbounded =>
      haccountable.step (SendSide.step_transition hstep) hbounded
  have hcarries := SendSide.reach_carries hsend
  intro id hone hlt
  rcases haccountable.kept id hone hlt with hacked | hdropped | ⟨⟨harr, package, hslot, hid⟩, hheld⟩
  · exact .inl hacked
  · rw [droppedIds_filter] at hdropped
    exact .inr (.inl hdropped)
  -- only assigned packages get into the pool
  · have hassigned := hcarries.pool _ package hslot
    rw [assignedPackages_filter] at hassigned
    exact .inr (.inr ⟨⟨harr, package, hassigned, hid, hslot⟩, hheld⟩)

/-- A package is sent and waits for its resend after a timeout. -/
theorem packages_responsible_resend : ∃ socket trace,
    (socketMachine .standard .marking).Reach (fun _ _ _ next => next.send.Bounded)
      (init .zeroed) socket trace ∧
    socket.send.sendId = 2 ∧ socket.send.sendPool.resend = [1] ∧
      socket.send.Responsible trace := by
  obtain ⟨socket, trace, hreach, hview⟩ := Machine.reach_of_exec
    (fun (socket : ReliableSocket) (_ : List Event) =>
      (socket.send.sendId, socket.send.sendPool.resend))
    (show ((socketMachine .standard .marking).exec (fun _ _ _ next => next.send.Bounded)
      (init .zeroed) [] (packTurn ++ senderTurn ++ handlerTurn)).map _ = some (2, [1]) by decide)
  simp only [Prod.mk.injEq] at hview
  exact ⟨socket, trace, hreach, hview.1, hview.2, packages_responsible (by decide) hreach⟩

end ReliableSocket

/-- Memory in which an earlier set has left a whole ring of ids. -/
def Memory.stale : Memory :=
  { Memory.zeroed with ackRecvPool := fun slot => if slot = 0 then ringCapacity else slot }

/-- A segment of which no two fit into a package. -/
def wideSegment : Bytes := List.replicate 1000 0

theorem length_wideSegment : wideSegment.length = 1000 := List.length_replicate

theorem maxSegment_standard : maxSegment Config.standard.mtu = 1408 := by decide

theorem fits_wideSegment {list : Cursor} (hlen : 0 < list.len) :
    SegmentSide.fits .standard list wideSegment [] = true := by
  simp [SegmentSide.fits, hlen, length_wideSegment, maxSegment_standard]

theorem length_frame_wideSegment : (Framing.frame wideSegment).length = 1002 := by
  simp only [Framing.frame, List.length_append, length_wideSegment]
  rfl

theorem not_fits_wideSegment (list : Cursor) :
    SegmentSide.fits .standard list wideSegment (Framing.frame wideSegment) = false := by
  simp [SegmentSide.fits, length_wideSegment, maxSegment_standard, length_frame_wideSegment]

/-- The front of a list that repeats one segment. -/
theorem SegmentSide.front_replicate {side : SegmentSide} {list : Cursor} {segment : Bytes}
    {count : Nat} (hvalid : list.Valid ringCapacity)
    (hcontents : list.contents ringCapacity side.segmentArr = List.replicate count segment) :
    list.len = count ∧ side.front list = if count = 0 then none else some segment := by
  have hlen := congrArg List.length hcontents
  rw [Cursor.length_contents, List.length_replicate] at hlen
  refine ⟨hlen, ?_⟩
  cases count with
  | zero => exact front_eq_none hlen
  | succ count =>
      rw [Cursor.contents_eq_cons hvalid.start_lt (by omega), List.replicate_succ] at hcontents
      rw [front_eq (by omega), (List.cons.inj hcontents).1]
      rfl

namespace SendSide

variable {side : SendSide} {payload : Bytes} {package : PackageData} {id : Nat}
  {queued : List Nat} {waiting : List PackageData}

/-- At most one id is unacknowledged or held. -/
def Sparse (side : SendSide) : Prop := (side.unacknowledged ++ side.heldIds).length ≤ 1

theorem Sparse.bounded (hsparse : side.Sparse) : side.Bounded := by
  unfold Sparse at hsparse
  have hlength : side.sendPool.size + side.ackPool.cursor.len ≤ 1 := by
    have hheld := hsparse
    simp only [heldIds, inHand, AckWaitList.contents, List.length_append, List.length_map,
      PackageQueueMap.length_queued, Cursor.length_contents] at hheld
    omega
  unfold PackageQueueMap.size at hlength
  have hcapacity : 1 ≤ ringCapacity := by decide
  refine ⟨?_, by omega, by omega, by omega⟩
  intro id hid other hother
  obtain ⟨only, honly⟩ := List.length_eq_one_iff.mp
    (Nat.le_antisymm hsparse (List.length_pos_of_mem hid))
  rw [honly, List.mem_singleton] at hid hother
  omega

/-- Nothing has been acknowledged, and ids up to a ring have been assigned; stale memory
makes them count as acknowledged. -/
def Stale (side : SendSide) : Prop :=
  side.sendAckId = 0 ∧ side.ackRecvPool = ⟨Memory.stale.ackRecvPool⟩ ∧
    side.sendId ≤ ringCapacity + 1

theorem Stale.find (hstale : side.Stale) (hone : 1 ≤ id) (hid : id ≤ ringCapacity) :
    side.ackRecvPool.find id ≠ 0 := by
  rw [hstale.2.1, IdSet.find_ne_zero]
  refine ⟨by omega, ?_⟩
  show (if id % ringCapacity = 0 then ringCapacity else id % ringCapacity) = id
  unfold ringCapacity at hid ⊢
  split <;> omega

theorem Stale.unacknowledged_eq (hstale : side.Stale) : side.unacknowledged = [] := by
  rw [List.eq_nil_iff_forall_not_mem]
  intro id hmem
  obtain ⟨hone, hlt, hunacked⟩ := mem_unacknowledged.mp hmem
  exact hunacked (.inr (hstale.find hone (Nat.le_of_lt_succ (hlt.trans_le hstale.2.2))))

theorem Stale.sparse (hstale : side.Stale) (hheld : side.heldIds.length ≤ 1) : side.Sparse := by
  unfold Sparse
  rw [hstale.unacknowledged_eq]
  exact hheld

/-- The sender's two threads are at their heads, with these ids queued and these packages
in `ack_pool`. -/
structure Idle (side : SendSide) (queued : List Nat) (waiting : List PackageData) : Prop where
  stale : side.Stale
  sender : side.sender = .head
  ackHandler : side.ackHandler = .head
  sendPool : side.sendPool.Lawful
  ackPool : side.ackPool.Lawful
  queued_eq : side.sendPool.queued = queued
  waiting_eq : side.ackPool.contents = waiting

theorem Stale.assign (hstale : side.Stale) (hid : side.sendId ≤ ringCapacity) :
    (side.assign payload).Stale :=
  ⟨hstale.1, hstale.2.1, Nat.succ_le_succ hid⟩

theorem Idle.heldIds_eq (hidle : side.Idle queued waiting) :
    side.heldIds = queued ++ waiting.map (·.packageId) := by
  simp [heldIds, inHand, hidle.queued_eq, hidle.waiting_eq, hidle.sender, hidle.ackHandler,
    SenderThread.packages, AckHandlerThread.packages]

theorem Idle.room (hidle : side.Idle [] waiting) :
    side.sendPool.queueCursor.len < 2 * ringCapacity := by
  have hsize : side.sendPool.size = 0 := by
    rw [← PackageQueueMap.length_queued, hidle.queued_eq]
    rfl
  unfold PackageQueueMap.size at hsize
  unfold ringCapacity
  omega

theorem Idle.ackRoom (hidle : side.Idle queued []) : side.ackPool.cursor.len < ringCapacity := by
  have hlength := congrArg List.length hidle.waiting_eq
  rw [AckWaitList.contents, Cursor.length_contents] at hlength
  rw [hlength]
  decide

theorem Idle.assign (hidle : side.Idle [] []) (hid : side.sendId ≤ ringCapacity) :
    (side.assign payload).Idle [side.sendId] [] where
  stale := hidle.stale.assign hid
  sender := hidle.sender
  ackHandler := hidle.ackHandler
  sendPool := hidle.sendPool.push hidle.room
  ackPool := hidle.ackPool
  queued_eq := (PackageQueueMap.queued_push hidle.sendPool hidle.room).trans (by
    rw [hidle.queued_eq, List.nil_append])
  waiting_eq := hidle.waiting_eq

/-- The id that is `send_id` itself is accepted. -/
theorem Stale.insertAcks_eq (hstale : side.Stale) (hid : side.sendId = ringCapacity + 1) :
    side.insertAcks [ringCapacity + 1] = side.ackRecvPool.insert (ringCapacity + 1) := by
  have haccepted : side.acceptsAck (ringCapacity + 1) = true :=
    acceptsAck_iff.mpr ⟨hstale.1.trans_lt (Nat.succ_pos _), hid.ge⟩
  have habsent : side.ackRecvPool.find (ringCapacity + 1) = 0 := by
    rw [hstale.2.1]
    decide
  simp [insertAcks, haccepted, habsent]

/-- It has the slot of id 1. -/
theorem Stale.evict (hstale : side.Stale) (hid : side.sendId = ringCapacity + 1) :
    ¬(side.receiveAck 0 [ringCapacity + 1]).Acknowledged 1 := by
  have hevicted : (side.insertAcks [ringCapacity + 1]).find 1 = 0 := by
    rw [hstale.insertAcks_eq hid, hstale.2.1]
    decide
  rintro (hcovered | hfound)
  · obtain ⟨_, _, hbetween⟩ := @receiveAck_sendAckId side 0 [ringCapacity + 1]
      (hstale.1.trans_lt (Nat.two_pow_pos 64)) (Nat.two_pow_pos 64)
    exact hbetween 1 (by rw [hstale.1]; decide) hcovered hevicted
  · exact hfound hevicted

/-- Every other id still counts as acknowledged. -/
theorem Stale.sparse_evict (hstale : side.Stale) (hid : side.sendId = ringCapacity + 1)
    (hheld : side.heldIds = []) : (side.receiveAck 0 [ringCapacity + 1]).Sparse := by
  have hset : ∀ id, 1 ≤ id → id < side.sendId → id ≠ 1 →
      (side.receiveAck 0 [ringCapacity + 1]).Acknowledged id := by
    intro id hone hlt hne
    rw [hid] at hlt
    have hfind := hstale.find hone (Nat.le_of_lt_succ hlt)
    refine .inr ?_
    rw [receiveAck_ackRecvPool, hstale.insertAcks_eq hid]
    refine (IdSet.find_insert (Nat.succ_ne_zero _)).mpr (.inr ⟨?_, hfind⟩)
    unfold ringCapacity at hlt ⊢
    omega
  have honly : ∀ id ∈ (side.receiveAck 0 [ringCapacity + 1]).unacknowledged, id = 1 := by
    intro id hmem
    obtain ⟨hone, hlt, hunacked⟩ := mem_unacknowledged.mp hmem
    by_contra hne
    exact hunacked (hset id hone hlt hne)
  have hnodup : (side.receiveAck 0 [ringCapacity + 1]).unacknowledged.Nodup :=
    List.nodup_range.filter _
  rw [List.eq_replicate_of_mem honly, List.nodup_replicate] at hnodup
  have hsame : (side.receiveAck 0 [ringCapacity + 1]).heldIds = [] := hheld
  unfold Sparse
  rwa [hsame, List.append_nil]

end SendSide

namespace ReliableSocket

variable {socket : ReliableSocket} {trace events : List Event} {action : Action}
  {moved : SendSide} {package : PackageData}

/-- A run in which ids are assigned, sent and settled one by one, though nothing has been
acknowledged. -/
structure Settled (socket : ReliableSocket) (trace : List Event) : Prop where
  reach : (socketMachine .standard .marking).Reach
    (fun _ _ _ next => next.send.Bounded ∧ next.send.Sparse) (init .stale) socket trace
  running : socket.workerRunning = true
  receiver : socket.receiver = .head
  dropped : droppedIds trace = []

theorem Settled.move {segment : SegmentSide} {moved : SendSide}
    (hsettled : Settled socket trace) (action : Action) {events : List Event}
    (hstep : (socketMachine .standard .marking).step socket action =
      some ({ socket with segment, send := moved }, events))
    (hevents : droppedIds events = []) (hstale : moved.Stale) (hheld : moved.heldIds.length ≤ 1) :
    Settled { socket with segment, send := moved } (trace ++ events) where
  reach := hsettled.reach.extend action hstep
    ⟨(hstale.sparse hheld).bounded, hstale.sparse hheld⟩
  running := hsettled.running
  receiver := hsettled.receiver
  dropped := by rw [droppedIds_append, hsettled.dropped, hevents, List.append_nil]

/-- A step of the segment thread, or a push, that assigns nothing. -/
theorem Settled.segment (hsettled : Settled socket trace) (hidle : socket.send.Idle [] [])
    (action : Action) (segment : SegmentSide) (events : List Event)
    (hstep : (socketMachine .standard .marking).step socket action =
      some ({ socket with segment }, events))
    (hevents : droppedIds events = []) : Settled { socket with segment } (trace ++ events) :=
  hsettled.move action hstep hevents hidle.stale (hidle.heldIds_eq ▸ Nat.zero_le _)

theorem Settled.sender (hsettled : Settled socket trace) (moved : SendSide) (events : List Event)
    (hstep : socket.send.senderStep true socket.recv.recvAckId = some (moved, events))
    (hevents : droppedIds events = []) (hstale : moved.Stale) (hheld : moved.heldIds.length ≤ 1) :
    Settled { socket with send := moved } (trace ++ events) :=
  hsettled.move .sender (by simp [socketMachine, step, hsettled.running, hstep]) hevents hstale
    hheld

theorem Settled.ackHandler (hsettled : Settled socket trace) (moved : SendSide)
    (events : List Event)
    (hstep : socket.send.ackHandlerStep true false = some (moved, events))
    (hevents : droppedIds events = []) (hstale : moved.Stale) (hheld : moved.heldIds.length ≤ 1) :
    Settled { socket with send := moved } (trace ++ events) :=
  hsettled.move (.ackHandler false) (by simp [socketMachine, step, hsettled.running, hstep])
    hevents hstale hheld

/-- The sender thread sends a package that is queued alone. -/
theorem Settled.send (hsettled : Settled socket trace)
    (hidle : socket.send.Idle [package.packageId] [])
    (harr : socket.send.sendPool.arr (package.packageId % ringCapacity) = package.packageId)
    (hdata : socket.send.sendPool.dataList (package.packageId % ringCapacity) = some package)
    (hcount : socket.send.sendCount package.packageId = 0) :
    ∃ send later, Settled { socket with send } later ∧ send.Idle [] [package] ∧
      send.sendId = socket.send.sendId ∧ send.sendCount package.packageId = 1 := by
  obtain ⟨hsize, hpop, hlawful, hqueued⟩ :=
    PackageQueueMap.pop_of_queued hidle.sendPool hidle.queued_eq harr hdata
  have hwaiting : (socket.send.ackPool.push package).contents = [package] := by
    rw [AckWaitList.contents_push hidle.ackPool hidle.ackRoom, hidle.waiting_eq, List.nil_append]
  let polling : SendSide := { socket.send with sender := .polling }
  let holding : SendSide :=
    { socket.send with sendPool := socket.send.sendPool.popRest, sender := .holding package }
  let sent : SendSide := { holding.countSend package.packageId with sender := .sent package }
  let pushed : SendSide :=
    { sent with ackPool := socket.send.ackPool.push package, sender := .head }
  have hpolling := hsettled.sender polling [] (by simp [SendSide.senderStep, hidle.sender, polling])
    rfl hidle.stale (by
      simp [SendSide.heldIds, SendSide.inHand, polling, hidle.queued_eq, hidle.waiting_eq,
        hidle.ackHandler, SenderThread.packages, AckHandlerThread.packages])
  have hholding := hpolling.sender holding [.popped package.packageId]
    (by simp [SendSide.senderStep, polling, holding, hsize, hpop]) rfl hidle.stale (by
      simp [SendSide.heldIds, SendSide.inHand, holding, hqueued, hidle.waiting_eq,
        hidle.ackHandler, SenderThread.packages, AckHandlerThread.packages])
  have hsent := hholding.sender sent _ rfl (by simp [droppedIds, Event.droppedId?]) hidle.stale (by
      simp [SendSide.heldIds, SendSide.inHand, SendSide.countSend, holding, sent, hqueued,
        hidle.waiting_eq, hidle.ackHandler, SenderThread.packages, AckHandlerThread.packages])
  have hidlePushed : pushed.Idle [] [package] :=
    ⟨hidle.stale, rfl, hidle.ackHandler, hlawful, hidle.ackPool.push hidle.ackRoom, hqueued,
      hwaiting⟩
  have hpushed := hsent.sender pushed [] rfl rfl hidle.stale (hidlePushed.heldIds_eq ▸ le_refl 1)
  refine ⟨pushed, _, hpushed, hidlePushed, rfl, ?_⟩
  show Function.update socket.send.sendCount package.packageId _ package.packageId = 1
  rw [Function.update_self]
  exact congrArg (· + 1) hcount

/-- The ack handler settles a package that waits alone. -/
theorem Settled.settle (hsettled : Settled socket trace) (hidle : socket.send.Idle [] [package])
    (hone : 1 ≤ package.packageId) (hid : package.packageId ≤ ringCapacity)
    (hcount : socket.send.sendCount package.packageId = 1) :
    ∃ send later, Settled { socket with send } later ∧ send.Idle [] [] ∧
      send.sendId = socket.send.sendId := by
  obtain ⟨hlen, rest, hpop, hlawful, hrest⟩ := hidle.ackPool.pop_of_contents hidle.waiting_eq
  have hfind := hidle.stale.find hone hid
  let polling : SendSide := { socket.send with ackHandler := .polling }
  let popped : SendSide := { socket.send with ackPool := rest, ackHandler := .popped package }
  let waiting : SendSide := { socket.send with ackPool := rest, ackHandler := .waiting package }
  let settling : SendSide := { socket.send with ackPool := rest, ackHandler := .settling package }
  let settled : SendSide := { socket.send with
    sendPool := socket.send.sendPool.erase package.packageId, ackPool := rest, ackHandler := .head }
  have hpolling := hsettled.ackHandler polling []
    (by simp [SendSide.ackHandlerStep, hidle.ackHandler, polling]) rfl hidle.stale (by
      simp [SendSide.heldIds, SendSide.inHand, polling, hidle.queued_eq, hidle.waiting_eq,
        hidle.sender, SenderThread.packages, AckHandlerThread.packages])
  have hpopped := hpolling.ackHandler popped []
    (by simp [SendSide.ackHandlerStep, polling, popped, hlen, hpop]) rfl hidle.stale (by
      simp [SendSide.heldIds, SendSide.inHand, popped, hidle.queued_eq, hrest, hidle.sender,
        SenderThread.packages, AckHandlerThread.packages])
  have hwaiting := hpopped.ackHandler waiting []
    (by simp [SendSide.ackHandlerStep, popped, waiting, hcount]) rfl hidle.stale (by
      simp [SendSide.heldIds, SendSide.inHand, waiting, hidle.queued_eq, hrest, hidle.sender,
        SenderThread.packages, AckHandlerThread.packages])
  have hsettling := hwaiting.ackHandler settling []
    (by simp [SendSide.ackHandlerStep, waiting, settling, hfind]) rfl hidle.stale (by
      simp [SendSide.heldIds, SendSide.inHand, settling, hidle.queued_eq, hrest, hidle.sender,
        SenderThread.packages, AckHandlerThread.packages])
  have hidleSettled : settled.Idle [] [] :=
    ⟨hidle.stale, hidle.sender, rfl, hidle.sendPool.erase, hlawful,
      PackageQueueMap.queued_erase.trans hidle.queued_eq, hrest⟩
  have hevents : droppedIds (.settled package.packageId ::
      settling.eraseEvents package.packageId) = [] := by
    unfold SendSide.eraseEvents
    cases settling.sendPool.eraseFrees package.packageId <;> rfl
  exact ⟨settled, _, hsettling.ackHandler settled _ rfl hevents hidle.stale
    (hidleSettled.heldIds_eq ▸ Nat.zero_le 1), hidleSettled, rfl⟩

/-- The segment thread closes a package that holds one segment, and it is settled. -/
theorem Settled.close {list : Cursor} {front : Option Bytes} (hsettled : Settled socket trace)
    (hidle : socket.send.Idle [] [])
    (hthread : socket.segment.thread = .inner list front (Framing.frame wideSegment))
    (hfront : front = none ∨ front = some wideSegment) (hone : 1 ≤ socket.send.sendId)
    (hid : socket.send.sendId ≤ ringCapacity) :
    ∃ send later, Settled { socket with
        segment := { socket.segment with thread := .outer list }
        send } later ∧
      send.Idle [] [] ∧ send.sendId = socket.send.sendId + 1 := by
  let payload := SharpCrypto.marking.encrypt .zero (Framing.frame wideSegment ++ Framing.word 0)
  have hrange : socket.send.sendId + 2 < 2 ^ 63 := by
    unfold ringCapacity at hid
    omega
  have hlength : (Framing.frame wideSegment).length + 2 > 2 := by
    rw [length_frame_wideSegment]
    omega
  have hclose : segmentStep.closePackage .marking .zero socket list (Framing.frame wideSegment) =
      some ({ socket with
        segment := { socket.segment with thread := .outer list }
        send := socket.send.assign payload }, socket.send.assignEvents payload) := by
    unfold segmentStep.closePackage
    rw [if_pos hlength, if_pos hrange]
  have hstep : (socketMachine .standard .marking).step socket (.segment .zero) =
      segmentStep.closePackage .marking .zero socket list (Framing.frame wideSegment) := by
    rcases hfront with rfl | rfl
    · simp [socketMachine, step, segmentStep, hthread]
    · simp [socketMachine, step, segmentStep, hthread, not_fits_wideSegment]
  have hevents : droppedIds (socket.send.assignEvents payload) = [] := by
    unfold SendSide.assignEvents
    cases socket.send.sendPool.pushFrees socket.send.sendId <;> rfl
  have hassigned : (socket.send.assign payload).Idle [socket.send.sendId] [] := hidle.assign hid
  have hclosed := hsettled.move (.segment .zero) (hstep.trans hclose) hevents hassigned.stale
    (hassigned.heldIds_eq ▸ le_refl 1)
  obtain ⟨sent, later, hsent, hsentIdle, hsentId, hsentCount⟩ := @Settled.send _ _
    ⟨socket.send.sendId, payload⟩ hclosed hassigned (Function.update_self ..)
    (Function.update_self ..) (Function.update_self ..)
  obtain ⟨send, last, hlast, hlastIdle, hlastId⟩ := hsent.settle hsentIdle hone hid hsentCount
  exact ⟨send, last, hlast, hlastIdle, hlastId.trans hsentId⟩

/-- Each segment of the copied list becomes a package. -/
theorem Settled.pack (count : Nat) {socket : ReliableSocket} {trace : List Event} {list : Cursor}
    (hsettled : Settled socket trace) (hidle : socket.send.Idle [] [])
    (hthread : socket.segment.thread = .outer list) (hvalid : list.Valid ringCapacity)
    (hcontents : list.contents ringCapacity socket.segment.segmentArr =
      List.replicate count wideSegment)
    (hone : 1 ≤ socket.send.sendId) (hid : socket.send.sendId + count ≤ ringCapacity + 1) :
    ∃ final later, Settled final later ∧ final.send.Idle [] [] ∧
      final.send.sendId = socket.send.sendId + count := by
  induction count generalizing socket trace list with
  | zero => exact ⟨socket, trace, hsettled, hidle, rfl⟩
  | succ count ih =>
      obtain ⟨hcount, hfirst⟩ := SegmentSide.front_replicate hvalid hcontents
      have hlen : 0 < list.len := by omega
      have hentered := hsettled.segment hidle (.segment .zero)
        { socket.segment with thread := .inner list (some wideSegment) [] } []
        (by simp [socketMachine, step, segmentStep, hthread, hlen, hfirst]) rfl
      have hunpacked := hentered.segment hidle (.segment .zero)
        { socket.segment with
          thread := .inner (list.pop ringCapacity) (socket.segment.front (list.pop ringCapacity))
            (Framing.frame wideSegment) }
        [.unpacked wideSegment] (by
          simp [socketMachine, step, segmentStep, fits_wideSegment hlen, SegmentSide.unpack]
          rfl) rfl
      have hrest : (list.pop ringCapacity).contents ringCapacity socket.segment.segmentArr =
          List.replicate count wideSegment := by
        rw [Cursor.contents_eq_cons hvalid.start_lt hlen, List.replicate_succ] at hcontents
        exact (List.cons.inj hcontents).2
      have hfront : socket.segment.front (list.pop ringCapacity) = none ∨
          socket.segment.front (list.pop ringCapacity) = some wideSegment := by
        rw [(SegmentSide.front_replicate (hvalid.pop hlen) hrest).2]
        split <;> simp
      obtain ⟨send, later, hclosed, hclosedIdle, hsendId⟩ :=
        hunpacked.close hidle rfl hfront hone (by
          show socket.send.sendId ≤ ringCapacity
          omega)
      have hsendId : send.sendId = socket.send.sendId + 1 := hsendId
      obtain ⟨final, last, hfinal, hfinalIdle, hfinalId⟩ := ih hclosed hclosedIdle rfl
        (hvalid.pop hlen) hrest (hsendId ▸ Nat.succ_pos _) (by
          show send.sendId + count ≤ _
          omega)
      refine ⟨final, last, hfinal, hfinalIdle, hfinalId.trans ?_⟩
      show send.sendId + count = _
      omega

/-- Segments are pushed while the segment thread sleeps. -/
theorem Settled.push (hsettled : Settled socket trace) (hidle : socket.send.Idle [] [])
    (hvalid : socket.segment.segmentList.Valid ringCapacity)
    (hempty : socket.segment.segmentList.len = 0) (count : Nat) (hcount : count ≤ ringCapacity) :
    ∃ segment later, Settled { socket with segment } later ∧
      segment.thread = socket.segment.thread ∧ segment.segmentList.Valid ringCapacity ∧
      segment.segmentList.contents ringCapacity segment.segmentArr =
        List.replicate count wideSegment := by
  have hroom : socket.segment.segmentList.len + (List.replicate count wideSegment).length ≤
      ringCapacity := by
    rw [hempty, List.length_replicate, Nat.zero_add]
    exact hcount
  obtain ⟨hlist, hcontents⟩ := SegmentSide.pushAll_contents hvalid hroom
  rw [Cursor.contents_eq_nil hempty, List.nil_append] at hcontents
  have hsparse : socket.send.Sparse := hidle.stale.sparse (hidle.heldIds_eq ▸ Nat.zero_le _)
  have hpushed := reach_pushAll hsettled.running (fun _ _ _ => ⟨hsparse.bounded, hsparse⟩)
    (List.replicate count wideSegment) hsettled.reach
  have hnone : droppedIds ((List.replicate count wideSegment).map Event.pushed) = [] := by
    rw [List.map_replicate]
    exact List.filterMap_replicate_of_none rfl
  refine ⟨_, _, ⟨hpushed, hsettled.running, hsettled.receiver, ?_⟩,
    SegmentSide.pushAll_thread _ _, hlist, hcontents⟩
  rw [droppedIds_append, hsettled.dropped, hnone, List.append_nil]

theorem settled_init : Settled (init .stale) [] := ⟨.start, rfl, rfl, rfl⟩

theorem idle_init : (init .stale).send.Idle [] [] where
  stale := ⟨rfl, rfl, by decide⟩
  sender := rfl
  ackHandler := rfl
  sendPool := PackageQueueMap.lawful_empty (by decide)
  ackPool := AckWaitList.lawful_empty (by decide)
  queued_eq := rfl
  waiting_eq := rfl

/-- One batch takes `send_id` to the id that shares the slot of id 1. -/
theorem settled_full : ∃ socket trace, Settled socket trace ∧ socket.send.Idle [] [] ∧
    socket.send.sendId = ringCapacity + 1 := by
  obtain ⟨segment, later, hpushed, hthread, hvalid, hcontents⟩ := settled_init.push idle_init
    ⟨by decide, by decide, by decide⟩ rfl ringCapacity (le_refl _)
  have hnonempty : segment.segmentList.len ≠ 0 := by
    rw [(SegmentSide.front_replicate hvalid hcontents).1]
    decide
  have hthread : segment.thread = .head := hthread
  have hwindow : ¬sub64 (init .stale).send.sendId (init .stale).send.sendAckId > 8000 := by decide
  have hsparse : (init .stale).send.Sparse :=
    idle_init.stale.sparse (idle_init.heldIds_eq ▸ Nat.zero_le _)
  have houter : Settled _ later := ⟨reach_outer .zero (fun _ _ _ => ⟨hsparse.bounded, hsparse⟩)
    hpushed.running hthread hnonempty hwindow hpushed.reach, rfl, rfl, hpushed.dropped⟩
  have hstart : (init .stale).send.sendId = 1 := rfl
  obtain ⟨final, last, hfinal, hidle, hid⟩ := houter.pack ringCapacity idle_init rfl hvalid
    hcontents hstart.ge (by
      rw [hstart, Nat.add_comm])
  refine ⟨final, last, hfinal, hidle, hid.trans ?_⟩
  rw [hstart, Nat.add_comm]

/-- Package 1 is settled because of what was left in `ack_recv_pool`, and forgotten
once another id takes its slot. -/
theorem package_forgotten : ∃ socket trace,
    (socketMachine .standard .marking).Reach
      (fun _ _ _ next => next.send.Bounded ∧ next.send.Sparse) (init .stale) socket trace ∧
    ¬socket.send.Responsible trace := by
  obtain ⟨socket, trace, hsettled, hidle, hid⟩ := settled_full
  have hheld : socket.send.heldIds = [] := hidle.heldIds_eq
  have hacks : UInt64.toNat 100001 = ringCapacity + 1 := by decide
  have hlisten : (socketMachine .standard .marking).step socket .receiver =
      some ({ socket with receiver := .listening }, []) := by
    simp [socketMachine, step, receiverStep, hsettled.receiver, hsettled.running]
  have harrive : (socketMachine .standard .marking).step { socket with receiver := .listening }
      (.receive (.ack 0 0 [100001])) =
      some ({ socket with recv := socket.recv.receiveSendFrom 0, receiver := .ackRecv 0 [100001] },
        [.arrived (.ack 0 0 [100001])]) := by
    simp [socketMachine, step, receive]
  obtain ⟨receiver, hack⟩ : ∃ receiver, (socketMachine .standard .marking).step
      { socket with recv := socket.recv.receiveSendFrom 0, receiver := .ackRecv 0 [100001] }
      .receiver = some ({ socket with
        recv := socket.recv.receiveSendFrom 0
        send := socket.send.receiveAck 0 [ringCapacity + 1]
        receiver }, []) := by
    rw [← hacks]
    exact ⟨_, rfl⟩
  have hbefore := hidle.stale.sparse (hheld ▸ Nat.zero_le 1)
  have hafter := hidle.stale.sparse_evict hid hheld
  refine ⟨_, _, ((hsettled.reach.extend _ hlisten ⟨hbefore.bounded, hbefore⟩).extend _ harrive
    ⟨hbefore.bounded, hbefore⟩).extend _ hack ⟨hafter.bounded, hafter⟩, ?_⟩
  intro hresponsible
  have hassigned : 1 < socket.send.sendId := by
    rw [hid]
    decide
  rcases hresponsible 1 (le_refl 1) hassigned with hacked | hdropped | ⟨_, hlisted⟩
  · exact hidle.stale.evict hid hacked
  · simp only [droppedIds_append, hsettled.dropped] at hdropped
    exact absurd hdropped List.not_mem_nil
  · exact absurd (hheld ▸ hlisted : 1 ∈ []) List.not_mem_nil

end ReliableSocket

end Sharpvpn
