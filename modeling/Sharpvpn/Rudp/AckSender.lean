import Sharpvpn.Foundation.Batches
import Sharpvpn.Rudp.ReliableSocket

/-!
# Acks for everything received

The ack sender takes the queued ids off in batches, one for each Ack. An Ack lists the ids
above the acknowledgement counter as it stands at that moment, so the list of ids is cut
at places that depend on how the counter has moved.
-/

namespace Sharpvpn

open Foundation

/-- `PackageAck`: what its buffer holds, and `len`. The package is loaded again and again. -/
structure PackageAck where
  una : UInt64 := 0
  sendFrom : UInt64 := 0
  ackCount : UInt64 := 0
  ackList : Nat → UInt64 := fun _ => 0
  len : Nat := 0

namespace PackageAck

/-- The ids in the first `ack_count` places of `ack_list`. -/
def ids (package : PackageAck) : List UInt64 :=
  (List.range package.ackCount.toNat).map package.ackList

/-- The loop of `load` over the entries left in the queue; `i` places are taken. -/
def loadFrom (arr : Nat → UInt64) (maxAck : Nat) (una : UInt64) :
    (entries i : Nat) → (ackList : Nat → UInt64) → Cursor → Nat × (Nat → UInt64) × Cursor
  | 0, i, ackList, list => (i, ackList, list)
  | entries + 1, i, ackList, list =>
      if i < maxAck then
        let ackId := arr list.start
        if ackId > una then
          loadFrom arr maxAck una entries (i + 1) (Function.update ackList i ackId)
            (list.pop ringCapacity)
        else loadFrom arr maxAck una entries i ackList (list.pop ringCapacity)
      else (i, ackList, list)

def load (package : PackageAck) (arr : Nat → UInt64) (maxAck : UInt64) (una : UInt64)
    (list : Cursor) : PackageAck × Cursor :=
  let loaded := loadFrom arr maxAck.toNat una list.len 0 package.ackList list
  ({ package with
    una
    ackCount := UInt64.ofNat loaded.1
    ackList := loaded.2.1
    len := 4 + 24 + 8 * (UInt64.ofNat loaded.1).toNat }, loaded.2.2)

/-- The places hold the ids that the loop over the queue lists. -/
theorem loadFrom_eq (arr : Nat → UInt64) (maxAck : Nat) (una : UInt64) (entries i : Nat)
    (ackList : Nat → UInt64) (list : Cursor) :
    let loaded := loadFrom arr maxAck una entries i ackList list
    let listed := AckQueue.loadLoop arr una entries (maxAck - i) list
    loaded.1 = i + listed.1.length ∧
      (List.range loaded.1).map loaded.2.1 = (List.range i).map ackList ++ listed.1 ∧
      loaded.2.2 = listed.2 := by
  induction entries generalizing i ackList list with
  | zero => simp [loadFrom, AckQueue.loadLoop]
  | succ entries ih =>
      unfold loadFrom
      split
      next hroom =>
        obtain ⟨room, hroom⟩ : ∃ room, maxAck - i = room + 1 := ⟨maxAck - i - 1, by omega⟩
        have hrest : maxAck - (i + 1) = room := by omega
        dsimp only
        rw [hroom]
        unfold AckQueue.loadLoop
        split
        next =>
          obtain ⟨hcount, hids, hcursor⟩ := ih (i + 1)
            (Function.update ackList i (arr list.start)) (list.pop ringCapacity)
          rw [hrest] at hcount hids hcursor
          refine ⟨?_, ?_, hcursor⟩
          · rw [hcount, List.length_cons]
            omega
          · have hbefore : (List.range i).map (Function.update ackList i (arr list.start)) =
                (List.range i).map ackList := by
              apply List.map_congr_left
              intro j hj
              exact Function.update_of_ne (Nat.ne_of_lt (List.mem_range.mp hj)) _ _
            rw [hids, List.range_succ, List.map_append, hbefore]
            simp
        next =>
          obtain ⟨hcount, hids, hcursor⟩ := ih i ackList (list.pop ringCapacity)
          rw [hroom] at hcount hids hcursor
          exact ⟨hcount, hids, hcursor⟩
      next hfull =>
        have hroom : maxAck - i = 0 := by omega
        dsimp only
        rw [hroom]
        simp [AckQueue.loadLoop]

end PackageAck

namespace AckQueue

theorem length_loadLoop_le (arr : Nat → UInt64) (una : UInt64) (entries room : Nat)
    (list : Cursor) : (loadLoop arr una entries room list).1.length ≤ room := by
  induction entries generalizing room list with
  | zero => exact Nat.zero_le _
  | succ entries ih =>
      cases room with
      | zero => exact Nat.zero_le _
      | succ room =>
          unfold loadLoop
          split
          next => exact Nat.succ_le_succ (ih room _)
          next => exact ih (room + 1) _

/-- On what the queue holds, the loop takes a batch. -/
theorem loadLoop_eq_takeBatch (arr : Nat → UInt64) (una : UInt64) {list : Cursor}
    (hstart : list.start < ringCapacity) (room : Nat) :
    let loaded := loadLoop arr una list.len room list
    let taken := takeBatch (una < ·) room (list.contents ringCapacity arr)
    loaded.1 = taken.1 ∧ loaded.2.contents ringCapacity arr = taken.2 ∧
      loaded.2.start < ringCapacity := by
  generalize hentries : list.len = entries
  induction entries generalizing room list with
  | zero =>
      rw [Cursor.contents_eq_nil hentries]
      cases room <;> exact ⟨rfl, Cursor.contents_eq_nil hentries, hstart⟩
  | succ entries ih =>
      cases room with
      | zero =>
          rw [takeBatch_zero]
          exact ⟨rfl, rfl, hstart⟩
      | succ room =>
          have hpop : (list.pop ringCapacity).start < ringCapacity :=
            Nat.mod_lt _ (Nat.zero_lt_of_lt hstart)
          have hlen : (list.pop ringCapacity).len = entries := by simp [Cursor.pop, hentries]
          rw [Cursor.contents_eq_cons hstart (by omega)]
          unfold loadLoop takeBatch
          simp only [decide_eq_true_eq]
          split
          next =>
            obtain ⟨hlisted, hrest⟩ := ih hpop room hlen
            exact ⟨congrArg _ hlisted, hrest⟩
          next => exact ih hpop (room + 1) hlen

end AckQueue

namespace PackageAck

/-- The package lists what the queue gives up. -/
theorem load_eq (package : PackageAck) (arr : Nat → UInt64) (maxAck una : UInt64)
    (list : Cursor) :
    (package.load arr maxAck una list).1.ids = (AckQueue.load arr maxAck.toNat una list).1 ∧
      (package.load arr maxAck una list).2 = (AckQueue.load arr maxAck.toNat una list).2 := by
  obtain ⟨hcount, hids, hcursor⟩ :=
    loadFrom_eq arr maxAck.toNat una list.len 0 package.ackList list
  refine ⟨?_, hcursor⟩
  have hlength := AckQueue.length_loadLoop_le arr una list.len maxAck.toNat list
  have hfits : (UInt64.ofNat (loadFrom arr maxAck.toNat una list.len 0 package.ackList
      list).1).toNat = (loadFrom arr maxAck.toNat una list.len 0 package.ackList list).1 := by
    apply UInt64.toNat_ofNat_of_lt'
    have := maxAck.toNat_lt
    rw [hcount, Nat.sub_zero, UInt64.size]
    omega
  unfold ids load AckQueue.load
  rw [hfits]
  simpa using hids

@[simp] theorem length_ids (package : PackageAck) :
    package.ids.length = package.ackCount.toNat := by
  simp [ids]

/-- An Ack as the ack sender sends it. -/
structure WellFormed (package : PackageAck) : Prop where
  length_le : package.ids.length ≤ 35
  above : ∀ ackId ∈ package.ids, package.una < ackId
  ackCount_eq : package.ackCount.toNat = package.ids.length
  len_eq : package.len = 28 + 8 * package.ids.length

/-- An Ack takes a segment off the queue and lists the ids above its `una`. -/
theorem load_segment (package : PackageAck) (arr : Nat → UInt64) (una : UInt64)
    {list : Cursor} (hstart : list.start < ringCapacity) (hlen : list.len ≠ 0) :
    let loaded := package.load arr 35 una list
    loaded.1.una = una ∧ loaded.1.WellFormed ∧
      loaded.2.start < ringCapacity ∧ loaded.2.len < list.len ∧
      ∃ segment, segment ++ loaded.2.contents ringCapacity arr = list.contents ringCapacity arr ∧
        loaded.1.ids = segment.filter (una < ·) := by
  obtain ⟨hids, hcursor⟩ := package.load_eq arr 35 una list
  obtain ⟨hlisted, hrest, hrestStart⟩ := AckQueue.loadLoop_eq_takeBatch arr una hstart 35
  have hbatch : (package.load arr 35 una list).1.ids =
      (takeBatch (una < ·) 35 (list.contents ringCapacity arr)).1 := hids.trans hlisted
  have hleft : (package.load arr 35 una list).2.contents ringCapacity arr =
      (takeBatch (una < ·) 35 (list.contents ringCapacity arr)).2 := by
    rw [hcursor]
    exact hrest
  obtain ⟨segment, hsegment, hkept⟩ :=
    takeBatch_segment (una < ·) 35 (list.contents ringCapacity arr)
  have hnonempty : list.contents ringCapacity arr ≠ [] := by
    rw [← List.length_pos_iff, Cursor.length_contents]
    omega
  have hshorter := takeBatch_rest_length_lt (una < ·) (show 0 < 35 by decide) hnonempty
  rw [← hleft, Cursor.length_contents, Cursor.length_contents] at hshorter
  refine ⟨rfl, ⟨?_, ?_, ?_, ?_⟩, ?_, hshorter, segment, ?_, ?_⟩
  · rw [hbatch]
    exact length_takeBatch_le _ _ _
  · intro ackId hlistedId
    rw [hbatch, hkept] at hlistedId
    exact of_decide_eq_true (List.mem_filter.mp hlistedId).2
  · exact (length_ids _).symm
  · rw [length_ids]
    rfl
  · rw [hcursor]
    exact hrestStart
  · rw [hleft, hsegment]
  · rw [hbatch, hkept]

end PackageAck

/-- The loop of the ack sender over a copied queue: the Acks, each of which it sends twice,
and what is left of the copy. The counters are read once in every turn, and `fuel` bounds the
number of turns. -/
def ackSenderLoop (arr : Nat → UInt64) (recvAckId sendFrom : Nat → UInt64) :
    (fuel turn : Nat) → PackageAck → Cursor → Option (List PackageAck × Cursor)
  | 0, _, _, list => if list.len = 0 then some ([], list) else none
  | fuel + 1, turn, package, list =>
      if list.len = 0 then some ([], list)
      else
        let loaded := package.load arr 35 (recvAckId turn) list
        let ackPackage := { loaded.1 with sendFrom := sendFrom turn }
        (ackSenderLoop arr recvAckId sendFrom fuel (turn + 1) ackPackage loaded.2).map
          fun rest => (ackPackage :: rest.1, rest.2)

theorem ackSenderLoop_covers (arr : Nat → UInt64) (recvAckId sendFrom : Nat → UInt64)
    (fuel turn : Nat) (package : PackageAck) (list : Cursor)
    (hstart : list.start < ringCapacity) (hfuel : list.len ≤ fuel) :
    ∃ packages rest,
      ackSenderLoop arr recvAckId sendFrom fuel turn package list = some (packages, rest) ∧
        rest.len = 0 ∧
        packages.map PackageAck.una =
          (List.range' turn packages.length).map recvAckId ∧
        (∀ ackPackage ∈ packages, ackPackage.WellFormed) ∧
        Batched (fun ackPackage ackId => ackPackage.una < ackId) PackageAck.ids
          (list.contents ringCapacity arr) packages := by
  induction fuel generalizing turn package list with
  | zero =>
      have hlen : list.len = 0 := Nat.le_zero.mp hfuel
      refine ⟨[], list, if_pos hlen, hlen, rfl, by simp, ?_⟩
      rw [Cursor.contents_eq_nil hlen]
      exact .nil
  | succ fuel ih =>
      unfold ackSenderLoop
      split
      next hlen =>
        refine ⟨[], list, rfl, hlen, rfl, by simp, ?_⟩
        rw [Cursor.contents_eq_nil hlen]
        exact .nil
      next hlen =>
        obtain ⟨huna, hwellFormed, hrestStart, hshorter, segment, hsegment, hids⟩ :=
          package.load_segment arr (recvAckId turn) hstart hlen
        obtain ⟨packages, rest, hloop, hrest, hunas, hall, hbatched⟩ :=
          ih (turn + 1) { (package.load arr 35 (recvAckId turn) list).1 with
            sendFrom := sendFrom turn } _ hrestStart (by omega)
        refine ⟨_, rest, by dsimp only; rw [hloop]; rfl, hrest, ?_, ?_, ?_⟩
        · rw [List.map_cons, hunas]
          rfl
        · exact List.forall_mem_cons.mpr ⟨⟨hwellFormed.1, hwellFormed.2, hwellFormed.3,
            hwellFormed.4⟩, hall⟩
        · rw [← hsegment]
          exact .cons hids hbatched

/-- A turn of the loop is a step of the thread. -/
theorem ackSenderStep_reading {side : AckSide} {list : Cursor} (running : Bool)
    (recvAckId sendFrom : Nat) (package : PackageAck) (hreading : side.ackSender = .reading list)
    (hlen : list.len ≠ 0) :
    let loaded := package.load side.ackSendQueue.arr 35 (UInt64.ofNat recvAckId) list
    side.ackSenderStep running recvAckId sendFrom =
      some ({ side with ackSender := .reading loaded.2 },
        List.replicate 2
          (.sent (.ack loaded.1.una (UInt64.ofNat sendFrom) loaded.1.ids))) := by
  obtain ⟨hids, hcursor⟩ :=
    package.load_eq side.ackSendQueue.arr 35 (UInt64.ofNat recvAckId) list
  dsimp only
  rw [hids, hcursor]
  simp [AckSide.ackSenderStep, hreading, hlen, PackageAck.load]

/-- From any copy of the queue, and whatever the counters read in the turns of the loop, the
loop ends with the copy empty. Its Acks list, in order and in segments of the copy that
together are all of it, the ids above the counter of their turn. -/
theorem ackSender_covers (arr : Nat → UInt64) (ackReadList : Cursor)
    (recvAckId sendFrom : Nat → UInt64) (ackPackage : PackageAck)
    (hstart : ackReadList.start < ringCapacity) :
    ∃ packages rest,
      ackSenderLoop arr recvAckId sendFrom ackReadList.len 0 ackPackage ackReadList =
          some (packages, rest) ∧
        rest.len = 0 ∧
        packages.map PackageAck.una = (List.range packages.length).map recvAckId ∧
        (∀ package ∈ packages, package.WellFormed) ∧
        (packages.flatMap PackageAck.ids).Sublist (ackReadList.contents ringCapacity arr) ∧
        Batched (fun package ackId => package.una < ackId) PackageAck.ids
          (ackReadList.contents ringCapacity arr) packages ∧
        ∀ ackId ∈ ackReadList.contents ringCapacity arr,
          ∃ package ∈ packages, ackId ∈ package.ids ∨ ackId ≤ package.una := by
  obtain ⟨packages, rest, hloop, hrest, hunas, hall, hbatched⟩ :=
    ackSenderLoop_covers arr recvAckId sendFrom ackReadList.len 0 ackPackage ackReadList hstart
      (le_refl _)
  refine ⟨packages, rest, hloop, hrest, ?_, hall, hbatched.sublist, hbatched, ?_⟩
  · rw [hunas, List.range_eq_range']
  · intro ackId hmem
    obtain ⟨package, hpackage, hlisted | hskipped⟩ := hbatched.covers hmem
    · exact ⟨package, hpackage, .inl hlisted⟩
    · exact ⟨package, hpackage, .inr (UInt64.not_lt.mp (of_decide_eq_false hskipped))⟩

/-- Three ids, with a counter that has moved past the first of them. -/
theorem ackSender_covers_three :
    ∃ packages rest,
      ackSenderLoop (fun i => UInt64.ofNat (i + 4)) (fun turn => UInt64.ofNat (4 + turn))
          (fun _ => 0) 3 0 {} ⟨0, 3, 3⟩ = some (packages, rest) ∧
        ∀ ackId ∈ ([4, 5, 6] : List UInt64),
          ∃ package ∈ packages, ackId ∈ package.ids ∨ ackId ≤ package.una := by
  obtain ⟨packages, rest, hloop, -, -, -, -, -, hcovers⟩ :=
    ackSender_covers (fun i => UInt64.ofNat (i + 4)) ⟨0, 3, 3⟩
      (fun turn => UInt64.ofNat (4 + turn)) (fun _ => 0) {} (by decide)
  have hcontents : Cursor.contents ringCapacity (fun i => UInt64.ofNat (i + 4)) ⟨0, 3, 3⟩ =
      [4, 5, 6] := by decide
  rw [hcontents] at hcovers
  exact ⟨packages, rest, hloop, hcovers⟩

end Sharpvpn
