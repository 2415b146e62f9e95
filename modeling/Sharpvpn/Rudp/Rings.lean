import Sharpvpn.Rudp.Assigned
import Sharpvpn.Rudp.SendPools

/-!
# Where the sender keeps packages

An id that the sender has not finished with is in one of the two queues, with the
sender thread, in `ack_pool` or with the ack handler. While no ring is overrun these
places can be read as lists, and every package in them comes from `send_pool`.
-/

namespace Sharpvpn

open Foundation

def SenderThread.packages : SenderThread → List PackageData
  | .holding package | .sent package => [package]
  | .head | .polling | .exited => []

def AckHandlerThread.packages : AckHandlerThread → List PackageData
  | .popped package | .waiting package | .expired package | .settling package => [package]
  | .head | .polling | .exited => []

namespace SendSide

variable {side next : SendSide} {trace events : List Event} {id : Nat} {action : SendAction}
  {package : PackageData}

/-- The packages held by the threads and in `ack_pool`. -/
def inHand (side : SendSide) : List PackageData :=
  side.sender.packages ++ side.ackPool.contents ++ side.ackHandler.packages

/-- The ids held in the sender's structures. -/
def heldIds (side : SendSide) : List Nat :=
  side.sendPool.queued ++ side.inHand.map (·.packageId)

theorem mem_heldIds : id ∈ side.heldIds ↔
    id ∈ side.sendPool.queued ∨ (∃ package ∈ side.sender.packages, package.packageId = id) ∨
      (∃ package ∈ side.ackPool.contents, package.packageId = id) ∨
      ∃ package ∈ side.ackHandler.packages, package.packageId = id := by
  simp [heldIds, inHand]

theorem mem_inHand : package ∈ side.inHand ↔
    package ∈ side.sender.packages ∨ package ∈ side.ackPool.contents ∨
      package ∈ side.ackHandler.packages := by
  simp [inHand]

/-- No ring holds more entries than it has room for. -/
structure WithinRings (side : SendSide) : Prop where
  fresh : side.sendPool.queueCursor.len ≤ 2 * ringCapacity
  resend : side.sendPool.resendCursor.len ≤ ringCapacity
  ackPool : side.ackPool.cursor.len ≤ ringCapacity

instance (side : SendSide) : Decidable side.WithinRings :=
  decidable_of_iff (side.sendPool.queueCursor.len ≤ 2 * ringCapacity ∧
    side.sendPool.resendCursor.len ≤ ringCapacity ∧ side.ackPool.cursor.len ≤ ringCapacity)
    ⟨fun ⟨hfresh, hresend, hackPool⟩ => ⟨hfresh, hresend, hackPool⟩,
      fun ⟨hfresh, hresend, hackPool⟩ => ⟨hfresh, hresend, hackPool⟩⟩

/-- The rings stay valid while none of them is overrun. -/
theorem Transition.lawful (hsendPool : side.sendPool.Lawful) (hackPool : side.ackPool.Lawful)
    (htransition : side.Transition action next events) (hrings : next.WithinRings) :
    next.sendPool.Lawful ∧ next.ackPool.Lawful := by
  cases htransition with
  | assign => exact ⟨hsendPool.push hrings.fresh, hackPool⟩
  | missed _ hsize | vanished _ hsize | popped _ hsize =>
      exact ⟨hsendPool.popRest hsize, hackPool⟩
  | queued => exact ⟨hsendPool, hackPool.push hrings.ackPool⟩
  | handled _ hpop => exact ⟨hsendPool, (hackPool.pop hpop).1⟩
  | dropped | settled => exact ⟨hsendPool.erase, hackPool⟩
  | timedOut => exact ⟨hsendPool.pushResend hrings.resend, hackPool⟩
  | @fastResend id =>
      have hresend := hrings.resend
      unfold SendSide.fastResend at hresend ⊢
      split at hresend
      next hmissing =>
        rw [if_pos hmissing]
        exact ⟨hsendPool.pushResend hresend, hackPool⟩
      next hfound =>
        rw [if_neg hfound]
        exact ⟨hsendPool, hackPool⟩
  | senderMove | sent | handlerMove | watch | expire | settle | recvUna | ackRecv | fastResent =>
      exact ⟨hsendPool, hackPool⟩

/-- A package that a thread or `ack_pool` gets was there before, or has just been popped
from the send pool. -/
theorem Transition.inHand_step (hackPool : side.ackPool.Lawful)
    (htransition : side.Transition action next events) (hrings : next.WithinRings)
    (hmem : package ∈ next.inHand) :
    package ∈ side.inHand ∨ 0 < side.sendPool.size ∧
      side.sendPool.popId = side.sendPool.arr (side.sendPool.popId % ringCapacity) ∧
      side.sendPool.dataList (side.sendPool.popId % ringCapacity) = some package := by
  rw [mem_inHand] at hmem ⊢
  cases htransition with
  | senderMove hold hnew =>
      rcases hold with hold | hold <;> rcases hnew with rfl | rfl | rfl <;>
        exact .inl (by simpa [hold, SenderThread.packages] using hmem)
  | missed hsender | vanished hsender =>
      exact .inl (by simpa [hsender, SenderThread.packages] using hmem)
  | popped hsender hsize hpop hdata =>
      rcases hmem with hnew | hold
      · obtain rfl := List.mem_singleton.mp hnew
        exact .inr ⟨hsize, hpop, hdata⟩
      · exact .inl (.inr hold)
  | sent hsender => exact .inl (by simpa [hsender, SenderThread.packages, countSend] using hmem)
  | queued hsender =>
      rw [AckWaitList.contents_push hackPool hrings.ackPool] at hmem
      left
      simp only [SenderThread.packages, hsender, List.mem_append, List.mem_singleton] at hmem ⊢
      rcases hmem with hnil | (hold | hnew) | hhandler
      · cases hnil
      · exact .inr (.inl hold)
      · exact .inl hnew
      · exact .inr (.inr hhandler)
  | handlerMove hold hnew =>
      rcases hold with hold | hold <;> rcases hnew with rfl | rfl <;>
        exact .inl (by simpa [hold, AckHandlerThread.packages] using hmem)
  | handled _ hpop =>
      obtain ⟨_, hcontents, _⟩ := hackPool.pop hpop
      left
      rw [hcontents]
      rcases hmem with hsender | hrest | hnew
      · exact .inl hsender
      · exact .inr (.inl (by simp [hrest]))
      · obtain rfl := List.mem_singleton.mp hnew
        exact .inr (.inl (by simp))
  | dropped hhandler | timedOut hhandler | settled hhandler =>
      left
      rcases hmem with hsender | hpool | hnil
      · exact .inl hsender
      · exact .inr (.inl hpool)
      · cases hnil
  | watch hhandler =>
      rcases hhandler with hhandler | hhandler <;>
        exact .inl (by simpa [hhandler, AckHandlerThread.packages] using hmem)
  | expire hhandler | settle hhandler =>
      exact .inl (by simpa [hhandler, AckHandlerThread.packages] using hmem)
  | fastResend =>
      obtain ⟨pool, heq⟩ := @fastResend_frame side _
      rw [heq] at hmem
      exact .inl hmem
  | assign | recvUna | ackRecv | fastResent => exact .inl hmem

/-- A package in the send pool was there before, or has just been assigned. -/
theorem Transition.pooled {slot : Nat} (htransition : side.Transition action next events)
    (hslot : next.sendPool.dataList slot = some package) :
    side.sendPool.dataList slot = some package ∨
      package.packageId = side.sendId ∧ next.sendId = side.sendId + 1 := by
  cases htransition with
  | assign =>
      by_cases hcell : slot = side.sendId % ringCapacity
      · rw [hcell] at hslot
        simp only [SendSide.assign, PackageQueueMap.push, Function.update_self] at hslot
        exact .inr ⟨by rw [← Option.some.inj hslot], rfl⟩
      · simp only [SendSide.assign, PackageQueueMap.push, Function.update_of_ne hcell] at hslot
        exact .inl hslot
  | missed | vanished | popped | dropped | settled => exact .inl (by simpa using hslot)
  | fastResend =>
      unfold SendSide.fastResend at hslot
      split at hslot <;> exact .inl hslot
  | senderMove | sent | queued | handlerMove | handled | watch | expire | settle | timedOut
  | recvUna | ackRecv | fastResent => exact .inl hslot

theorem mem_heldIds_assign {payload : Bytes} (hlawful : side.sendPool.Lawful)
    (hroom : side.sendPool.queueCursor.len < 2 * ringCapacity) :
    id ∈ (side.assign payload).heldIds ↔ id = side.sendId ∨ id ∈ side.heldIds := by
  have hqueued : (side.assign payload).sendPool.queued = side.sendPool.queued ++ [side.sendId] :=
    PackageQueueMap.queued_push hlawful hroom
  have hinHand : (side.assign payload).inHand = side.inHand := rfl
  simp only [heldIds, hqueued, hinHand, List.mem_append, List.mem_singleton]
  constructor
  · rintro ((hold | hnew) | hhand)
    · exact .inr (.inl hold)
    · exact .inl hnew
    · exact .inr (.inr hhand)
  · rintro (hnew | hold | hhand)
    · exact .inl (.inr hnew)
    · exact .inl (.inl hold)
    · exact .inr hhand

end SendSide

end Sharpvpn
