import Mathlib.Data.Nat.SuccPred
import Sharpvpn.Rudp.Life
import Sharpvpn.Rudp.Rings

/-!
# References to packages

The sender's queues, lists and threads, seen from one package: every step of the
sending half is a step in the package's life.
-/

namespace Sharpvpn

open Foundation

/-- The package popped and not sent. -/
def SenderThread.unsent : SenderThread → List PackageData
  | .holding package => [package]
  | .head | .polling | .sent _ | .exited => []

/-- The package sent and not in `ack_pool`. -/
def SenderThread.unwatched : SenderThread → List PackageData
  | .sent package => [package]
  | .head | .polling | .holding _ | .exited => []

/-- The package before the test of its send count. -/
def AckHandlerThread.unchecked : AckHandlerThread → List PackageData
  | .popped package => [package]
  | .head | .polling | .waiting _ | .expired _ | .settling _ | .exited => []

/-- The package after the test. -/
def AckHandlerThread.unsettled : AckHandlerThread → List PackageData
  | .waiting package | .expired package | .settling package => [package]
  | .head | .polling | .popped _ | .exited => []

/-- The ack handler finished the package, as acknowledged or dropped. -/
def Event.finishes (id : Nat) : Event → Bool
  | .settled packageId | .dropped packageId => packageId == id
  | _ => false

/-- How many of the packages have the id. -/
def countId (packages : List PackageData) (id : Nat) : Nat :=
  packages.countP fun package => package.packageId == id

@[simp] theorem countId_nil (id : Nat) : countId [] id = 0 := rfl

@[simp] theorem countId_cons (package : PackageData) (packages : List PackageData) (id : Nat) :
    countId (package :: packages) id =
      countId packages id + if package.packageId = id then 1 else 0 := by
  simp [countId, List.countP_cons]

@[simp] theorem countId_append (first second : List PackageData) (id : Nat) :
    countId (first ++ second) id = countId first id + countId second id :=
  List.countP_append

theorem count_map_packageId (packages : List PackageData) (id : Nat) :
    (packages.map (·.packageId)).count id = countId packages id := by
  rw [List.count, List.countP_map]
  rfl

theorem SenderThread.countId_packages (thread : SenderThread) (id : Nat) :
    countId thread.packages id = countId thread.unsent id + countId thread.unwatched id := by
  cases thread <;> simp [packages, unsent, unwatched]

theorem AckHandlerThread.countId_packages (thread : AckHandlerThread) (id : Nat) :
    countId thread.packages id = countId thread.unchecked id + countId thread.unsettled id := by
  cases thread <;> simp [packages, unchecked, unsettled]

namespace SendSide

variable {side next : SendSide} {trace events : List Event} {id : Nat} {action : SendAction}
  {package : PackageData}

/-- The life of the package with an id so far. -/
def life (side : SendSide) (trace : List Event) (id : Nat) : Life where
  born := id < side.sendId
  stored := side.sendPool.arr (id % ringCapacity) = id
  ref :=
    if side.sendPool.arr (id % ringCapacity) = id then side.sendPool.ref (id % ringCapacity) else 0
  queued := side.sendPool.queued.count id
  holding := countId side.sender.unsent id
  sent := countId side.sender.unwatched id
  waiting := countId side.ackPool.contents id
  checking := countId side.ackHandler.unchecked id
  passed := countId side.ackHandler.unsettled id
  sends := side.sendCount id
  pops := trace.count (.popped id)
  timeouts := trace.count (.timedOut id)
  fasts := trace.count (.fastResent id)
  finished := trace.countP (Event.finishes id)
  freed := trace.count (.freed id)

theorem life_total : (side.life trace id).total = side.heldIds.count id := by
  simp only [heldIds, inHand, List.count_append, count_map_packageId, countId_append,
    SenderThread.countId_packages, AckHandlerThread.countId_packages, Life.total, Life.inHand, life]
  omega

theorem life_inHand : (side.life trace id).inHand = countId side.inHand id := by
  simp only [inHand, countId_append, SenderThread.countId_packages,
    AckHandlerThread.countId_packages, Life.inHand, life, Nat.add_assoc]

/-- Slots hold the packages of the ids they name, which have been assigned. -/
def Slotted (side : SendSide) : Prop :=
  ∀ slot, side.sendPool.arr slot ≠ 0 → side.sendPool.arr slot % ringCapacity = slot ∧
    side.sendPool.arr slot < side.sendId ∧
    ∃ package, side.sendPool.dataList slot = some package ∧
      package.packageId = side.sendPool.arr slot

/-- The rings are valid, slots hold the packages of the ids they name, and ids are
positive. -/
structure Tidy (side : SendSide) : Prop where
  sendPool : side.sendPool.Lawful
  ackPool : side.ackPool.Lawful
  slots : side.Slotted
  one_le : 1 ≤ side.sendId
  positive : ∀ id ∈ side.heldIds, 1 ≤ id

theorem mem_heldIds_of_inHand (hmem : package ∈ side.inHand) : package.packageId ∈ side.heldIds :=
  List.mem_append_right _ (List.mem_map.mpr ⟨package, hmem, rfl⟩)

/-- The id that `pop` takes is a held one, and a package that `pop` finds has it. -/
theorem Tidy.popId (htidy : side.Tidy) (hsize : 0 < side.sendPool.size) :
    side.sendPool.popId ∈ side.heldIds := by
  refine List.mem_append_left _ ?_
  rw [PackageQueueMap.queued_eq_cons htidy.sendPool hsize]
  exact List.mem_cons_self

theorem Tidy.packageId_eq (htidy : side.Tidy) (hsize : 0 < side.sendPool.size)
    (hpop : side.sendPool.popId = side.sendPool.arr (side.sendPool.popId % ringCapacity)) :
    ∃ package, side.sendPool.dataList (side.sendPool.popId % ringCapacity) = some package ∧
      package.packageId = side.sendPool.popId := by
  have hone := htidy.positive _ (htidy.popId hsize)
  obtain ⟨_, _, package, hdata, hid⟩ :=
    htidy.slots (side.sendPool.popId % ringCapacity) (by omega)
  exact ⟨package, hdata, hid.trans hpop.symm⟩

theorem Tidy.one_le_handled (htidy : side.Tidy) (hmem : package ∈ side.ackHandler.packages) :
    1 ≤ package.packageId :=
  htidy.positive _ (mem_heldIds_of_inHand (mem_inHand.mpr (.inr (.inr hmem))))

/-- A held id was held before, or has just been assigned or asked for by a fast resend. -/
theorem Transition.heldIds_step (htidy : side.Tidy)
    (htransition : side.Transition action next events) (hrings : next.WithinRings)
    (hmem : id ∈ next.heldIds) :
    id ∈ side.heldIds ∨ id = side.sendId ∨ action = .fastResend id := by
  have hinHand : ∀ package ∈ next.inHand, package.packageId ∈ side.heldIds := by
    intro package hhand
    rcases htransition.inHand_step htidy.ackPool hrings hhand with hold | ⟨hsize, hpop, hdata⟩
    · exact mem_heldIds_of_inHand hold
    · obtain ⟨found, hfound, hid⟩ := htidy.packageId_eq hsize hpop
      rw [hdata] at hfound
      obtain rfl := Option.some.inj hfound
      rw [hid]
      exact htidy.popId hsize
  rcases List.mem_append.mp hmem with hqueued | hhand
  · cases htransition with
    | assign =>
        rw [show (side.assign _).sendPool.queued = _ from
          PackageQueueMap.queued_push htidy.sendPool hrings.fresh] at hqueued
        rcases List.mem_append.mp hqueued with hold | hnew
        · exact .inl (List.mem_append_left _ hold)
        · exact .inr (.inl (List.mem_singleton.mp hnew))
    | missed _ hsize | vanished _ hsize | popped _ hsize =>
        refine .inl (List.mem_append_left _ ?_)
        rw [PackageQueueMap.queued_eq_cons htidy.sendPool hsize]
        exact List.mem_cons_of_mem _ hqueued
    | dropped | settled =>
        exact .inl (List.mem_append_left _ (PackageQueueMap.queued_erase ▸ hqueued))
    | @timedOut _ _ package hhandler =>
        rcases (PackageQueueMap.mem_queued_pushResend htidy.sendPool hrings.resend).mp hqueued with
          rfl | hold
        · refine .inl (mem_heldIds_of_inHand (mem_inHand.mpr (.inr (.inr ?_))))
          simp [hhandler, AckHandlerThread.packages]
        · exact .inl (List.mem_append_left _ hold)
    | @fastResend resendId =>
        have hresend := hrings.resend
        unfold SendSide.fastResend at hresend hqueued
        split at hqueued
        next hmissing =>
          rw [if_pos hmissing] at hresend
          rcases (PackageQueueMap.mem_queued_pushResend htidy.sendPool hresend).mp hqueued with
            rfl | hold
          · exact .inr (.inr rfl)
          · exact .inl (List.mem_append_left _ hold)
        next => exact .inl (List.mem_append_left _ hqueued)
    | senderMove | sent | queued | handlerMove | handled | watch | expire | settle | recvUna
    | ackRecv | fastResent => exact .inl (List.mem_append_left _ hqueued)
  · obtain ⟨package, hpackage, rfl⟩ := List.mem_map.mp hhand
    exact .inl (hinHand package hpackage)

/-- The slots of the send pool: a package is put in by the segment thread only. -/
theorem Slotted.step (hslots : side.Slotted) (htransition : side.Transition action next events) :
    next.Slotted := by
  unfold Slotted at hslots ⊢
  cases htransition with
  | assign =>
      intro slot hne
      by_cases hslot : slot = side.sendId % ringCapacity
      · subst hslot
        simp [SendSide.assign, PackageQueueMap.push]
      · simp only [SendSide.assign, PackageQueueMap.push, Function.update_of_ne hslot] at hne ⊢
        obtain ⟨hmod, hlt, hdata⟩ := hslots slot hne
        exact ⟨hmod, Nat.lt_succ_of_lt hlt, hdata⟩
  | missed | vanished | popped => simpa using hslots
  | dropped | settled =>
      intro slot hne
      have hsame := PackageQueueMap.arr_erase_of_ne_zero hne
      simp only [PackageQueueMap.erase_dataList, hsame] at hne ⊢
      exact hslots slot hne
  | fastResend =>
      unfold SendSide.fastResend
      split <;> exact hslots
  | senderMove | sent | queued | handlerMove | handled | watch | expire | settle | timedOut
  | recvUna | ackRecv | fastResent => exact hslots

theorem Tidy.step (htidy : side.Tidy) (htransition : side.Transition action next events)
    (hrings : next.WithinRings) (hfast : ∀ id, action = .fastResend id → 1 ≤ id) : next.Tidy := by
  obtain ⟨hsendPool, hackPool⟩ := htransition.lawful htidy.sendPool htidy.ackPool hrings
  refine ⟨hsendPool, hackPool, htidy.slots.step htransition,
    htidy.one_le.trans htransition.sendId_le, ?_⟩
  intro id hmem
  rcases htransition.heldIds_step htidy hrings hmem with hold | rfl | hasked
  · exact htidy.positive id hold
  · exact htidy.one_le
  · exact hfast id hasked

/-- The steps after which more references to the id are counted than there are: a resend
request of the ack handler in the slot of the id, an entry of the id that `ack_pool`
discards, and a fast resend of another id of the slot. -/
def Leaks (side : SendSide) (id : Nat) : SendAction → Prop
  | .ackHandler .. =>
      match side.ackHandler with
      | .polling => ∃ entry ∈ side.ackPool.discarded, entry.packageId = id
      | .expired package => package.packageId % ringCapacity = id % ringCapacity
      | _ => False
  | .fastResend resendId =>
      side.ackRecvPool.find resendId = 0 ∧ resendId ≠ id ∧
        resendId % ringCapacity = id % ringCapacity
  | _ => False

instance (side : SendSide) (id : Nat) (action : SendAction) : Decidable (side.Leaks id action) := by
  unfold Leaks
  split
  · split
    · exact List.decidableBEx _ _
    · infer_instance
    · infer_instance
  · infer_instance
  · infer_instance

/-- How often an id is queued once the first one has gone. -/
theorem Tidy.count_queued (htidy : side.Tidy) (id : Nat) (hsize : 0 < side.sendPool.size) :
    side.sendPool.queued.count id =
      side.sendPool.popRest.queued.count id + if side.sendPool.popId = id then 1 else 0 := by
  rw [PackageQueueMap.queued_eq_cons htidy.sendPool hsize, List.count_cons]
  simp

/-- What becomes of an id when the sender pops one and finds its package. -/
theorem Tidy.life_popped (htidy : side.Tidy) (hsender : side.sender = .polling)
    (hsize : 0 < side.sendPool.size) (hpackage : package.packageId = side.sendPool.popId) :
    SendSide.life { side with sendPool := side.sendPool.popRest, sender := .holding package }
      (trace ++ [.popped package.packageId]) id =
      if side.sendPool.popId = id then
        { side.life trace id with
          queued := side.sendPool.popRest.queued.count id
          holding := (side.life trace id).holding + 1
          pops := (side.life trace id).pops + 1 }
      else side.life trace id := by
  have hcount := htidy.count_queued id hsize
  split
  next hid =>
    simp [life, Event.finishes, hsender, SenderThread.unsent, SenderThread.unwatched,
      hpackage, hid]
  next hid =>
    rw [if_neg hid] at hcount
    simp [life, Event.finishes, hsender, SenderThread.unsent, SenderThread.unwatched,
      hpackage, hid, hcount]

/-- What becomes of an id when the sender transmits a package, once or more often. -/
theorem life_sent {copies : Nat} {datagram : Datagram} (hsender : side.sender = .holding package) :
    SendSide.life { side.countSend package.packageId with sender := .sent package }
      (trace ++ List.replicate copies (.sent datagram)) id =
      if package.packageId = id then
        { side.life trace id with
          holding := 0
          sent := (side.life trace id).sent + 1
          sends := (side.life trace id).sends + 1 }
      else side.life trace id := by
  split
  next hid =>
    simp [life, Event.finishes, countSend, hsender, SenderThread.unsent,
      SenderThread.unwatched, hid, List.count_replicate, List.countP_replicate]
  next hid =>
    simp [life, Event.finishes, countSend, hsender, SenderThread.unsent,
      SenderThread.unwatched, hid, Function.update_of_ne (Ne.symm hid),
      List.count_replicate, List.countP_replicate]

/-- What becomes of an id when the sender puts a package into `ack_pool`. -/
theorem Tidy.life_queued (htidy : side.Tidy) (hsender : side.sender = .sent package)
    (hroom : side.ackPool.cursor.len < ringCapacity) :
    SendSide.life { side with ackPool := side.ackPool.push package, sender := .head } trace id =
      if package.packageId = id then
        { side.life trace id with sent := 0, waiting := (side.life trace id).waiting + 1 }
      else side.life trace id := by
  have hcontents : (side.ackPool.push package).contents = side.ackPool.contents ++ [package] :=
    AckWaitList.contents_push htidy.ackPool hroom
  split
  next hid => simp [life, hsender, SenderThread.unsent, SenderThread.unwatched, hid, hcontents]
  next hid => simp [life, hsender, SenderThread.unsent, SenderThread.unwatched, hid, hcontents]

theorem Transition.life_sender {recent leaks : Prop} {running : Bool} {recvAckId : Nat}
    (htidy : side.Tidy) (htransition : side.Transition (.sender running recvAckId) next events)
    (hrings : next.WithinRings) :
    Life.Step recent leaks (side.life trace id) (next.life (trace ++ events) id) := by
  cases htransition with
  | @senderMove _ _ thread hold hnew =>
      have hsame : SendSide.life { side with sender := thread } (trace ++ []) id =
          side.life trace id := by
        rcases hold with hold | hold <;> rcases hnew with rfl | rfl | rfl <;>
          simp [life, hold, SenderThread.unsent, SenderThread.unwatched]
      rw [hsame]
      exact .stay
  | missed hsender hsize hpop =>
      have hcount := htidy.count_queued id hsize
      have hlife : SendSide.life { side with sendPool := side.sendPool.popRest, sender := .head }
          (trace ++ []) id =
          { side.life trace id with queued := side.sendPool.popRest.queued.count id } := by
        simp [life, hsender, SenderThread.unsent, SenderThread.unwatched]
      rw [hlife]
      by_cases hid : side.sendPool.popId = id
      · rw [if_pos hid] at hcount
        refine .miss ?_ hcount
        rw [hid] at hpop
        simpa [life] using Ne.symm hpop
      · rw [if_neg hid, Nat.add_zero] at hcount
        rw [← hcount]
        exact .stay
  | vanished hsender hsize hpop hdata =>
      obtain ⟨package, hfound, _⟩ := htidy.packageId_eq hsize hpop
      rw [hdata] at hfound
      cases hfound
  | @popped _ _ package hsender hsize hpop hdata =>
      have hcount := htidy.count_queued id hsize
      obtain ⟨found, hfound, hpackage⟩ := htidy.packageId_eq hsize hpop
      rw [hdata] at hfound
      obtain rfl := Option.some.inj hfound
      rw [htidy.life_popped hsender hsize hpackage]
      split
      next hid =>
        rw [if_pos hid] at hcount
        refine .pop ?_ hcount
        rw [hid] at hpop
        simp [life, ← hpop]
      next => exact .stay
  | sent hsender =>
      rw [life_sent hsender]
      split
      next hid =>
        refine .send ?_
        simp [life, hsender, SenderThread.unsent, hid]
      next => exact .stay
  | queued hsender =>
      rw [List.append_nil, htidy.life_queued hsender hrings.ackPool]
      split
      next hid =>
        refine .wait ?_
        simp [life, hsender, SenderThread.unwatched, hid]
      next => exact .stay

/-- Erasing an id releases its package. -/
theorem Tidy.life_erase_self {sendFrom : Nat} {fate : Event} (htidy : side.Tidy) (hone : 1 ≤ id)
    (hfate : fate = .dropped id ∨ fate = .settled id) :
    SendSide.life
      { side with sendPool := side.sendPool.erase id, sendFrom, ackHandler := .head }
      (trace ++ fate :: side.eraseEvents id) id =
      { side.life trace id with
        checking := 0, passed := 0, finished := (side.life trace id).finished + 1 }.release := by
  rcases side.sendPool.erase_cases id with ⟨hother, hfrees, harr, _⟩ |
    ⟨hheld, hmore, hfrees, harr, href⟩ | ⟨hheld, hlast, hfrees, harr, _⟩
  · rcases hfate with rfl | rfl <;>
      simp [life, Event.finishes, Life.release, eraseEvents, hfrees, harr, hother,
        AckHandlerThread.unchecked, AckHandlerThread.unsettled]
  · rcases hfate with rfl | rfl <;>
      simp [life, Event.finishes, Life.release, eraseEvents, hfrees, harr, href, hheld, hmore,
        AckHandlerThread.unchecked, AckHandlerThread.unsettled]
  · obtain ⟨_, _, package, hdata, hpackage⟩ := htidy.slots (id % ringCapacity) (by omega)
    rw [hheld] at hpackage
    have hzero : 0 ≠ id := by omega
    rcases hfate with rfl | rfl <;>
      simp [life, Event.finishes, Life.release, eraseEvents, hfrees, harr, hheld, hlast, hdata,
        hpackage, hzero, AckHandlerThread.unchecked, AckHandlerThread.unsettled]

/-- Erasing an id leaves the other ids alone. -/
theorem Tidy.life_erase_of_ne {other sendFrom : Nat} {fate : Event} (htidy : side.Tidy)
    (hone : 1 ≤ id) (hother : 1 ≤ other) (hne : id ≠ other)
    (hfate : fate = .dropped other ∨ fate = .settled other) :
    SendSide.life
      { side with sendPool := side.sendPool.erase other, sendFrom, ackHandler := .head }
      (trace ++ fate :: side.eraseEvents other) id =
      { side.life trace id with checking := 0, passed := 0 } := by
  have hslot : side.sendPool.arr (other % ringCapacity) = other →
      id % ringCapacity = other % ringCapacity → side.sendPool.arr (id % ringCapacity) ≠ id := by
    intro hheld hslot heq
    rw [hslot, hheld] at heq
    exact hne heq.symm
  rcases side.sendPool.erase_cases other with ⟨_, hfrees, harr, href⟩ |
    ⟨hheld, hmore, hfrees, harr, href⟩ | ⟨hheld, hlast, hfrees, harr, href⟩
  · rcases hfate with rfl | rfl <;>
      simp [life, Event.finishes, hne.symm, eraseEvents, hfrees, harr, href,
        AckHandlerThread.unchecked, AckHandlerThread.unsettled]
  · by_cases heq : id % ringCapacity = other % ringCapacity
    · rcases hfate with rfl | rfl <;>
        simp [life, Event.finishes, hne.symm, eraseEvents, hfrees, harr, hslot hheld heq,
          AckHandlerThread.unchecked, AckHandlerThread.unsettled]
    · rcases hfate with rfl | rfl <;>
        simp [life, Event.finishes, hne.symm, eraseEvents, hfrees, harr, href,
          Function.update_of_ne heq, AckHandlerThread.unchecked, AckHandlerThread.unsettled]
  · obtain ⟨_, _, package, hdata, hpackage⟩ := htidy.slots (other % ringCapacity) (by omega)
    rw [hheld] at hpackage
    have hold : package.packageId ≠ id := by
      rw [hpackage]
      exact hne.symm
    by_cases heq : id % ringCapacity = other % ringCapacity
    · have hzero : 0 ≠ id := by omega
      have hnone := hslot hheld heq
      rw [heq] at hnone
      rcases hfate with rfl | rfl <;>
        simp [life, Event.finishes, hne.symm, eraseEvents, hfrees, harr, heq, hnone, hzero,
          hdata, hold, AckHandlerThread.unchecked, AckHandlerThread.unsettled]
    · rcases hfate with rfl | rfl <;>
        simp [life, Event.finishes, hne.symm, eraseEvents, hfrees, harr, href,
          Function.update_of_ne heq, hdata, hold, AckHandlerThread.unchecked,
          AckHandlerThread.unsettled]

/-- What becomes of an id when the ack handler erases one. -/
theorem Tidy.life_erase {other sendFrom : Nat} {fate : Event} (htidy : side.Tidy)
    (hone : 1 ≤ id) (hother : 1 ≤ other) (hfate : fate = .dropped other ∨ fate = .settled other) :
    SendSide.life
      { side with sendPool := side.sendPool.erase other, sendFrom, ackHandler := .head }
      (trace ++ fate :: side.eraseEvents other) id =
      if other = id then
        { side.life trace id with
          checking := 0, passed := 0, finished := (side.life trace id).finished + 1 }.release
      else { side.life trace id with checking := 0, passed := 0 } := by
  split
  next heq =>
    subst heq
    exact htidy.life_erase_self hone hfate
  next hne => exact htidy.life_erase_of_ne hone hother (Ne.symm hne) hfate

/-- A resend request is a reference to its own package. Counted in the slot, it is also
taken for a reference to whatever other package is there. -/
theorem Tidy.life_pushResend {other : Nat} (htidy : side.Tidy)
    (hroom : side.sendPool.resendCursor.len < ringCapacity) :
    SendSide.life { side with sendPool := side.sendPool.pushResend other } trace id =
      if other = id then
        { side.life trace id with queued := (side.life trace id).queued + 1 }.reference
      else if other % ringCapacity = id % ringCapacity then (side.life trace id).reference
      else side.life trace id := by
  have hqueued : (side.sendPool.pushResend other).queued.Perm (other :: side.sendPool.queued) :=
    PackageQueueMap.queued_pushResend htidy.sendPool hroom
  have hcount := hqueued.count_eq id
  rw [List.count_cons] at hcount
  have harr : (side.sendPool.pushResend other).arr = side.sendPool.arr := rfl
  have href : (side.sendPool.pushResend other).ref = Function.update side.sendPool.ref
      (other % ringCapacity) (side.sendPool.ref (other % ringCapacity) + 1) := rfl
  by_cases hstored : side.sendPool.arr (id % ringCapacity) = id
  · by_cases hid : other = id
    · subst hid
      simp [life, Life.reference, harr, href, hcount, hstored]
    · by_cases hslot : other % ringCapacity = id % ringCapacity
      · simp [life, Life.reference, harr, href, hcount, hstored, hid, hslot]
      · simp [life, harr, href, hcount, hid, hslot, Function.update_of_ne (Ne.symm hslot)]
  · by_cases hid : other = id
    · subst hid
      simp [life, Life.reference, harr, hcount, hstored]
    · simp [life, Life.reference, harr, hcount, hstored, hid]

/-- What becomes of an id when the ack handler has tested the send count of a package. -/
theorem life_watched (hhandler : side.ackHandler = .popped package) :
    SendSide.life { side with ackHandler := .waiting package } trace id =
      if package.packageId = id then
        { side.life trace id with checking := 0, passed := (side.life trace id).passed + 1 }
      else side.life trace id := by
  split
  next hid => simp [life, hhandler, AckHandlerThread.unchecked, AckHandlerThread.unsettled, hid]
  next hid => simp [life, hhandler, AckHandlerThread.unchecked, AckHandlerThread.unsettled, hid]

theorem Transition.life_ackHandler {recent : Prop} {running timedOut : Bool}
    (htidy : side.Tidy) (hone : 1 ≤ id)
    (htransition : side.Transition (.ackHandler running timedOut) next events)
    (hrings : next.WithinRings) :
    Life.Step recent (side.Leaks id (.ackHandler running timedOut)) (side.life trace id)
      (next.life (trace ++ events) id) := by
  cases htransition with
  | @handlerMove _ _ thread hold hnew =>
      have hsame : SendSide.life { side with ackHandler := thread } (trace ++ []) id =
          side.life trace id := by
        rcases hold with hold | hold <;> rcases hnew with rfl | rfl <;>
          simp [life, hold, AckHandlerThread.unchecked, AckHandlerThread.unsettled]
      rw [hsame]
      exact .stay
  | @handled _ _ package pool hhandler hpop =>
      obtain ⟨_, hcontents, _⟩ := htidy.ackPool.pop hpop
      have hlife : SendSide.life { side with ackPool := pool, ackHandler := .popped package }
          (trace ++ []) id =
          { side.life trace id with
            waiting := countId pool.contents id
            checking := (side.life trace id).checking + countId [package] id } := by
        simp [life, hhandler, AckHandlerThread.unchecked, AckHandlerThread.unsettled]
      rw [hlife]
      have hwaiting : (side.life trace id).waiting =
          countId side.ackPool.discarded id +
            (countId [package] id + countId pool.contents id) := by
        simp only [life, hcontents, countId_append, countId_cons, countId_nil]
        omega
      refine .handle hwaiting ?_
      · intro hdiscarded _
        obtain ⟨entry, hmem, hid⟩ := List.countP_pos_iff.mp hdiscarded
        simp only [Leaks, hhandler]
        exact ⟨entry, hmem, by simpa using hid⟩
  | @dropped _ _ package hhandler =>
      have hlife : side.life trace id = { side.life trace id with
          checking := if package.packageId = id then 1 else 0, passed := 0 } := by
        simp [life, hhandler, AckHandlerThread.unchecked, AckHandlerThread.unsettled]
      rw [hlife, htidy.life_erase hone
        (htidy.one_le_handled (by simp [hhandler, AckHandlerThread.packages])) (.inl rfl)]
      split
      next => exact .drop rfl
      next => exact .stay
  | @watch _ _ package hhandler hcount =>
      rcases hhandler with hhandler | hhandler
      · rw [List.append_nil, life_watched hhandler]
        split
        next hid =>
          refine .pass ?_ ?_
          · simp [life, hhandler, AckHandlerThread.unchecked, hid]
          · simpa [life, hid] using hcount hhandler
        next => exact .stay
      · rw [List.append_nil, ← hhandler]
        exact .stay
  | @expire _ package hhandler =>
      have hlife : SendSide.life { side with ackHandler := .expired package } (trace ++ []) id =
          side.life trace id := by
        simp [life, hhandler, AckHandlerThread.unchecked, AckHandlerThread.unsettled]
      rw [hlife]
      exact .stay
  | @settle _ _ package hhandler =>
      have hlife : SendSide.life { side with ackHandler := .settling package } (trace ++ []) id =
          side.life trace id := by
        simp [life, hhandler, AckHandlerThread.unchecked, AckHandlerThread.unsettled]
      rw [hlife]
      exact .stay
  | @timedOut _ _ package hhandler =>
      let pushed : SendSide :=
        { side with sendPool := side.sendPool.pushResend package.packageId }
      have hpush : pushed.life trace id = _ := htidy.life_pushResend hrings.resend
      have hlife : SendSide.life { pushed with ackHandler := .head }
          (trace ++ [.timedOut package.packageId]) id =
          { pushed.life trace id with
            passed := 0
            timeouts := (side.life trace id).timeouts +
              if package.packageId = id then 1 else 0 } := by
        simp [life, Event.finishes, pushed, hhandler, AckHandlerThread.unchecked,
          AckHandlerThread.unsettled, List.count_singleton]
      show Life.Step _ _ _ (SendSide.life { pushed with ackHandler := .head } _ id)
      rw [hlife, hpush]
      by_cases hid : package.packageId = id
      · rw [if_pos hid, if_pos hid]
        refine .timeout ?_ ?_
        · simp [life, hhandler, AckHandlerThread.unsettled, hid]
        · simp [Leaks, hhandler, hid]
      · have hpassed : (side.life trace id).passed = 0 := by
          simp [life, hhandler, AckHandlerThread.unsettled, hid]
        rw [if_neg hid, if_neg hid, Nat.add_zero, ← hpassed]
        split
        next hslot =>
          refine .other fun _ => ?_
          simpa [Leaks, hhandler] using hslot
        next => exact .stay
  | @settled _ _ package hhandler =>
      have hlife : side.life trace id = { side.life trace id with
          checking := 0, passed := if package.packageId = id then 1 else 0 } := by
        simp [life, hhandler, AckHandlerThread.unchecked, AckHandlerThread.unsettled]
      rw [hlife, htidy.life_erase hone
        (htidy.one_le_handled (by simp [hhandler, AckHandlerThread.packages])) (.inr rfl)]
      split
      next => exact .settle rfl
      next => exact .stay

theorem Tidy.life_fastResend {recent : Prop} {resendId : Nat} (htidy : side.Tidy)
    (hassigned : resendId < side.sendId) (hrings : (side.fastResend resendId).WithinRings) :
    Life.Step recent (side.Leaks id (.fastResend resendId)) (side.life trace id)
      ((side.fastResend resendId).life (trace ++ side.fastResendEvents resendId) id) := by
  have hresend := hrings.resend
  unfold SendSide.fastResend fastResendEvents at *
  split at hresend
  next hmissing =>
    rw [if_pos hmissing, if_pos hmissing]
    let pushed : SendSide := { side with sendPool := side.sendPool.pushResend resendId }
    have hpush : pushed.life trace id = _ := htidy.life_pushResend hresend
    have hlife : pushed.life (trace ++ [.fastResent resendId]) id =
        { pushed.life trace id with
          fasts := (side.life trace id).fasts + if resendId = id then 1 else 0 } := by
      simp [life, Event.finishes, pushed, List.count_singleton]
    rw [hlife, hpush]
    by_cases hid : resendId = id
    · rw [if_pos hid, if_pos hid]
      refine .fast ?_
      simp [life, ← hid, hassigned]
    · rw [if_neg hid, if_neg hid, Nat.add_zero]
      split
      next hslot => exact .other fun _ => ⟨hmissing, hid, hslot⟩
      next => exact .stay
  next hfound =>
    rw [if_neg hfound, if_neg hfound, List.append_nil]
    exact .stay

/-- The segment thread deletes the package whose slot the new id takes. -/
theorem Tidy.count_assignEvents (htidy : side.Tidy) (payload : Bytes) (hone : 1 ≤ id) :
    (side.assignEvents payload).count (.freed id) =
      (if side.sendPool.arr (side.sendId % ringCapacity) = id then 1 else 0) ∧
    (side.assignEvents payload).count (.popped id) = 0 ∧
    (side.assignEvents payload).count (.timedOut id) = 0 ∧
    (side.assignEvents payload).count (.fastResent id) = 0 ∧
    (side.assignEvents payload).countP (Event.finishes id) = 0 := by
  unfold assignEvents PackageQueueMap.pushFrees
  by_cases hempty : side.sendPool.arr (side.sendId % ringCapacity) = 0
  · have hzero : 0 ≠ id := by omega
    simp [hempty, hzero, Event.finishes]
  · obtain ⟨_, _, package, hdata, hpackage⟩ := htidy.slots _ hempty
    simp [hempty, hdata, hpackage, Event.finishes, List.count_singleton]

/-- Assigning an id begins its life, and ends that of the id in its slot. -/
theorem Tidy.life_assign {leaks : Prop} {payload : Bytes} (htidy : side.Tidy) (hone : 1 ≤ id)
    (hrings : (side.assign payload).WithinRings) :
    Life.Step (side.sendId + 1 ≤ id + ringCapacity) leaks (side.life trace id)
      ((side.assign payload).life (trace ++ side.assignEvents payload) id) := by
  obtain ⟨hfreed, hpopped, htimedOut, hfast, hfinished⟩ := htidy.count_assignEvents payload hone
  have hqueued : (side.assign payload).sendPool.queued = side.sendPool.queued ++ [side.sendId] :=
    PackageQueueMap.queued_push htidy.sendPool hrings.fresh
  have harr : (side.assign payload).sendPool.arr =
      Function.update side.sendPool.arr (side.sendId % ringCapacity) side.sendId := rfl
  have href : (side.assign payload).sendPool.ref =
      Function.update side.sendPool.ref (side.sendId % ringCapacity) 1 := rfl
  have hsendCount : (side.assign payload).sendCount =
      Function.update side.sendCount side.sendId 0 := rfl
  have hthreads : (side.assign payload).sender = side.sender ∧
      (side.assign payload).ackHandler = side.ackHandler ∧
      (side.assign payload).ackPool = side.ackPool ∧
      (side.assign payload).sendId = side.sendId + 1 := ⟨rfl, rfl, rfl, rfl⟩
  obtain ⟨hsender, hackHandler, hackPool, hsendId⟩ := hthreads
  have hslots := htidy.slots (side.sendId % ringCapacity)
  by_cases hid : id = side.sendId
  · subst hid
    have hold : side.sendPool.arr (side.sendId % ringCapacity) ≠ side.sendId := by
      intro heq
      have := (hslots (by omega)).2.1
      omega
    have hlife : (side.assign payload).life (trace ++ side.assignEvents payload) side.sendId =
        { side.life trace side.sendId with
          born := true, stored := true, ref := 1, sends := 0
          queued := (side.life trace side.sendId).queued + 1 } := by
      ext <;> simp [life, hsender, hackHandler, hackPool, hsendId, hqueued, harr, href, hsendCount,
        hfreed, hpopped, htimedOut, hfast, hfinished, hold]
    rw [hlife]
    refine .assign ?_
    simp [life]
  · have hborn : id ≤ side.sendId ↔ id < side.sendId := by omega
    by_cases hheld : side.sendPool.arr (side.sendId % ringCapacity) = id
    · obtain ⟨hslot, hlt, _⟩ := hslots (by omega)
      rw [hheld] at hslot hlt
      have hlife : (side.assign payload).life (trace ++ side.assignEvents payload) id =
          { side.life trace id with
            stored := false, ref := 0, freed := (side.life trace id).freed + 1 } := by
        ext <;> simp [life, hsender, hackHandler, hackPool, hsendId, hqueued, harr,
          hsendCount, hfreed, hpopped, htimedOut, hfast, hfinished, hheld, hslot,
          hborn, hid, Ne.symm hid]
      rw [hlife]
      refine .evict ?_ ?_
      · intro hrecent
        have := eq_of_mod_eq hslot (by omega) (by omega)
        omega
      · simp [life, hslot, hheld]
    · have hlife : (side.assign payload).life (trace ++ side.assignEvents payload) id =
          side.life trace id := by
        by_cases hslot : id % ringCapacity = side.sendId % ringCapacity
        · ext <;> simp [life, hsender, hackHandler, hackPool, hsendId, hqueued, harr,
            hsendCount, hfreed, hpopped, htimedOut, hfast, hfinished, hheld, hslot,
            hborn, hid, Ne.symm hid]
        · ext <;> simp [life, hsender, hackHandler, hackPool, hsendId, hqueued, harr, href,
            hsendCount, hfreed, hpopped, htimedOut, hfast, hfinished, hheld,
            hborn, hid, Ne.symm hid, Function.update_of_ne hslot]
      rw [hlife]
      exact .stay

/-- Every step of the sending half is a step in the life of each package. -/
theorem Transition.life (htidy : side.Tidy) (hone : 1 ≤ id)
    (htransition : side.Transition action next events) (hrings : next.WithinRings)
    (hfast : ∀ resendId, action = .fastResend resendId → resendId < side.sendId) :
    Life.Step (next.sendId ≤ id + ringCapacity) (side.Leaks id action) (side.life trace id)
      (next.life (trace ++ events) id) := by
  cases action with
  | assign payload =>
      cases htransition with
      | assign => exact htidy.life_assign hone hrings
  | sender => exact htransition.life_sender htidy hrings
  | ackHandler => exact htransition.life_ackHandler htidy hone hrings
  | recvUna | ackRecv | fastResent =>
      cases htransition
      rw [List.append_nil]
      exact .stay
  | fastResend resendId =>
      cases htransition with
      | fastResend => exact htidy.life_fastResend (hfast _ rfl) hrings

end SendSide

end Sharpvpn
