import Sharpvpn.Rudp.NetStruct

/-!
# The sender's queues and wait list

What `send_pool` and `ack_pool` hold, as lists, while no ring is overrun. A slot of
`send_pool` keeps a package until its id is erased or another id takes the slot;
`ack_pool` discards an entry only when a later one has the same slot.
-/

namespace Sharpvpn

open Foundation

namespace PackageQueueMap

variable {capacity : Nat} {map : PackageQueueMap capacity} {data : PackageData} {id other : Nat}

/-- The ids in the queue of fresh packages. -/
def fresh (map : PackageQueueMap capacity) : List Nat :=
  map.queueCursor.contents (2 * capacity) map.queue

/-- The ids in the resend queue. -/
def resend (map : PackageQueueMap capacity) : List Nat :=
  map.resendCursor.contents capacity map.resendQueue

/-- The ids in the order in which they are popped. -/
def queued (map : PackageQueueMap capacity) : List Nat := map.resend ++ map.fresh

/-- The slot of the id holds its package. -/
def Stored (map : PackageQueueMap capacity) (id : Nat) : Prop :=
  map.arr (id % capacity) = id ∧
    ∃ package, map.dataList (id % capacity) = some package ∧ package.packageId = id

/-- Both rings have been used within their capacities. -/
structure Lawful (map : PackageQueueMap capacity) : Prop where
  fresh : map.queueCursor.Valid (2 * capacity)
  resend : map.resendCursor.Valid capacity

theorem lawful_empty (hcapacity : 0 < capacity) : ({} : PackageQueueMap capacity).Lawful where
  fresh := ⟨by simpa using hcapacity, by simp, Nat.zero_le _⟩
  resend := ⟨hcapacity, by simp, Nat.zero_le _⟩

theorem Lawful.push (hlawful : map.Lawful) (hroom : map.queueCursor.len < 2 * capacity) :
    (map.push data id).Lawful where
  fresh := hlawful.fresh.push hroom
  resend := hlawful.resend

theorem fresh_push (hlawful : map.Lawful) (hroom : map.queueCursor.len < 2 * capacity) :
    (map.push data id).fresh = map.fresh ++ [id] :=
  Cursor.contents_push hlawful.fresh hroom id

theorem queued_push (hlawful : map.Lawful) (hroom : map.queueCursor.len < 2 * capacity) :
    (map.push data id).queued = map.queued ++ [id] := by
  unfold queued
  rw [fresh_push hlawful hroom, ← List.append_assoc]
  rfl

theorem Lawful.pushResend (hlawful : map.Lawful) (hroom : map.resendCursor.len < capacity) :
    (map.pushResend id).Lawful where
  fresh := hlawful.fresh
  resend := hlawful.resend.push hroom

theorem resend_pushResend (hlawful : map.Lawful) (hroom : map.resendCursor.len < capacity) :
    (map.pushResend id).resend = map.resend ++ [id] :=
  Cursor.contents_push hlawful.resend hroom id

/-- A resend request goes before the fresh ids. -/
theorem queued_pushResend (hlawful : map.Lawful) (hroom : map.resendCursor.len < capacity) :
    (map.pushResend id).queued.Perm (id :: map.queued) := by
  have hfresh : (map.pushResend id).fresh = map.fresh := rfl
  unfold queued
  rw [resend_pushResend hlawful hroom, hfresh, List.append_assoc]
  exact List.perm_middle

theorem mem_queued_pushResend (hlawful : map.Lawful) (hroom : map.resendCursor.len < capacity) :
    other ∈ (map.pushResend id).queued ↔ other = id ∨ other ∈ map.queued := by
  rw [(queued_pushResend hlawful hroom).mem_iff, List.mem_cons]

theorem Lawful.popRest (hlawful : map.Lawful) (hsize : 0 < map.size) : map.popRest.Lawful := by
  unfold PackageQueueMap.popRest
  split
  next hresend => exact ⟨hlawful.fresh, hlawful.resend.pop hresend⟩
  next hresend =>
    refine ⟨hlawful.fresh.pop ?_, hlawful.resend⟩
    unfold size at hsize
    omega

/-- The first resend request, and those after it. -/
theorem resend_eq_cons (hlawful : map.Lawful) (hlen : 0 < map.resendCursor.len) :
    map.resend = map.resendQueue map.resendCursor.start ::
      (map.resendCursor.pop capacity).contents capacity map.resendQueue :=
  Cursor.contents_eq_cons hlawful.resend.start_lt hlen

theorem fresh_eq_cons (hlawful : map.Lawful) (hlen : 0 < map.queueCursor.len) :
    map.fresh = map.queue map.queueCursor.start ::
      (map.queueCursor.pop (2 * capacity)).contents (2 * capacity) map.queue :=
  Cursor.contents_eq_cons hlawful.fresh.start_lt hlen

/-- `pop` takes the first id. -/
theorem queued_eq_cons (hlawful : map.Lawful) (hsize : 0 < map.size) :
    map.queued = map.popId :: map.popRest.queued := by
  unfold queued popId popRest
  split
  next hresend =>
    rw [resend_eq_cons hlawful hresend]
    rfl
  next hresend =>
    have hfresh : 0 < map.queueCursor.len := by
      unfold size at hsize
      omega
    have hnil : map.resend = [] := Cursor.contents_eq_nil (by omega)
    rw [hnil, fresh_eq_cons hlawful hfresh]
    show _ = _ :: (map.resend ++ _)
    rw [hnil]
    rfl

theorem length_queued (map : PackageQueueMap capacity) : map.queued.length = map.size := by
  simp [queued, resend, fresh, size]

/-- `pop` of a single id whose package is in its slot. -/
theorem pop_of_queued (hlawful : map.Lawful) (hqueued : map.queued = [id])
    (harr : map.arr (id % capacity) = id) (hdata : map.dataList (id % capacity) = some data) :
    map.size ≠ 0 ∧ map.pop = (some data, map.popRest) ∧ map.popRest.Lawful ∧
      map.popRest.queued = [] := by
  have hsize : map.size = 1 := by
    rw [← length_queued, hqueued]
    rfl
  have hcons := hqueued.symm.trans (queued_eq_cons hlawful (hsize ▸ Nat.one_pos))
  obtain ⟨hpopId, hrest⟩ := List.cons.inj hcons
  refine ⟨by omega, ?_, hlawful.popRest (hsize ▸ Nat.one_pos), hrest.symm⟩
  unfold size at hsize
  unfold pop
  rw [if_neg (by omega), ← hpopId, if_neg (not_not.mpr harr.symm), hdata]

theorem Lawful.erase (hlawful : map.Lawful) : (map.erase id).Lawful := by
  simp only [PackageQueueMap.erase]
  split
  · exact hlawful
  · split <;> exact ⟨hlawful.fresh, hlawful.resend⟩

@[simp] theorem fresh_erase : (map.erase id).fresh = map.fresh := by
  simp only [PackageQueueMap.erase]
  split
  · rfl
  · split <;> rfl

@[simp] theorem resend_erase : (map.erase id).resend = map.resend := by
  simp only [PackageQueueMap.erase]
  split
  · rfl
  · split <;> rfl

@[simp] theorem queued_erase : (map.erase id).queued = map.queued := by
  rw [queued, resend_erase, fresh_erase, queued]

@[simp] theorem popRest_arr (map : PackageQueueMap capacity) : map.popRest.arr = map.arr := by
  unfold popRest
  split <;> rfl

@[simp] theorem popRest_ref (map : PackageQueueMap capacity) : map.popRest.ref = map.ref := by
  unfold popRest
  split <;> rfl

/-- `erase` finds another id in the slot, or one of several references, or the last one. -/
theorem erase_cases (map : PackageQueueMap capacity) (id : Nat) :
    (map.arr (id % capacity) ≠ id ∧ map.eraseFrees id = none ∧
      (map.erase id).arr = map.arr ∧ (map.erase id).ref = map.ref) ∨
    (map.arr (id % capacity) = id ∧ 1 < map.ref (id % capacity) ∧ map.eraseFrees id = none ∧
      (map.erase id).arr = map.arr ∧
      (map.erase id).ref =
        Function.update map.ref (id % capacity) (map.ref (id % capacity) - 1)) ∨
    (map.arr (id % capacity) = id ∧ ¬1 < map.ref (id % capacity) ∧
      map.eraseFrees id = map.dataList (id % capacity) ∧
      (map.erase id).arr = Function.update map.arr (id % capacity) 0 ∧
      (map.erase id).ref =
        Function.update map.ref (id % capacity) (map.ref (id % capacity) - 1)) := by
  unfold erase eraseFrees
  by_cases hheld : map.arr (id % capacity) = id
  · by_cases hmore : 1 < map.ref (id % capacity)
    · exact .inr (.inl (by simp [hheld, hmore]))
    · exact .inr (.inr (by simp [hheld, hmore]))
  · exact .inl (by simp [hheld])

/-- Erasing only clears slots. -/
theorem arr_erase_of_ne_zero {slot : Nat} (hslot : (map.erase id).arr slot ≠ 0) :
    (map.erase id).arr slot = map.arr slot := by
  rcases map.erase_cases id with ⟨_, _, harr, _⟩ | ⟨_, _, _, harr, _⟩ | ⟨_, _, _, harr, _⟩
  · rw [harr]
  · rw [harr]
  · rw [harr] at hslot ⊢
    refine Function.update_of_ne ?_ _ _
    rintro rfl
    exact hslot (Function.update_self ..)

theorem stored_popRest : map.popRest.Stored id ↔ map.Stored id := by
  simp [Stored]

theorem stored_pushResend : (map.pushResend other).Stored id ↔ map.Stored id := Iff.rfl

theorem stored_push_self (hid : data.packageId = id) : (map.push data id).Stored id := by
  refine ⟨?_, data, ?_, hid⟩ <;> simp [push]

theorem Stored.push (hstored : map.Stored other) (hslot : other % capacity ≠ id % capacity) :
    (map.push data id).Stored other := by
  simpa [Stored, PackageQueueMap.push, hslot] using hstored

/-- Erasing an id leaves the packages of other ids alone, also of those in its slot. -/
theorem Stored.erase (hstored : map.Stored other) (hne : other ≠ id) :
    (map.erase id).Stored other := by
  obtain ⟨harr, hdata⟩ := hstored
  refine ⟨?_, by simpa using hdata⟩
  rcases map.erase_cases id with ⟨_, _, herase, _⟩ | ⟨_, _, _, herase, _⟩ | ⟨hheld, _, _, herase, _⟩
  · rw [herase, harr]
  · rw [herase, harr]
  · have hslot : other % capacity ≠ id % capacity := by
      intro heq
      rw [heq, hheld] at harr
      exact hne harr.symm
    rw [herase, Function.update_of_ne hslot, harr]

end PackageQueueMap

namespace AckWaitList

variable {capacity : Nat} {list rest : AckWaitList capacity} {data package : PackageData}

/-- The entries from the oldest to the newest. -/
def contents (list : AckWaitList capacity) : List PackageData :=
  list.cursor.contents capacity list.queue

/-- The package belongs to the slot. -/
def inSlot (capacity slot : Nat) (package : PackageData) : Bool :=
  package.packageId % capacity == slot

/-- The ring has been used within its capacity, and the counters count its entries. -/
structure Lawful (list : AckWaitList capacity) : Prop where
  valid : list.cursor.Valid capacity
  counts : ∀ slot, list.countList slot = list.contents.countP (inSlot capacity slot)

theorem lawful_empty (hcapacity : 0 < capacity) : ({} : AckWaitList capacity).Lawful where
  valid := ⟨hcapacity, by simp, Nat.zero_le _⟩
  counts := fun _ => rfl

theorem contents_push (hlawful : list.Lawful) (hroom : list.cursor.len < capacity) :
    (list.push data).contents = list.contents ++ [data] :=
  Cursor.contents_push hlawful.valid hroom data

theorem Lawful.push (hlawful : list.Lawful) (hroom : list.cursor.len < capacity) :
    (list.push data).Lawful where
  valid := hlawful.valid.push hroom
  counts := by
    intro slot
    rw [contents_push hlawful hroom, List.countP_append, ← hlawful.counts]
    by_cases hslot : data.packageId % capacity = slot
    · simp [AckWaitList.push, inSlot, hslot]
    · simp [AckWaitList.push, inSlot, hslot, Function.update_of_ne (Ne.symm hslot)]

theorem contents_eq_cons (hlawful : list.Lawful) (hlen : 0 < list.cursor.len) :
    list.contents = list.front :: list.skip.contents :=
  Cursor.contents_eq_cons hlawful.valid.start_lt hlen

/-- The counter of a slot after the first entry has gone. -/
theorem countP_skip (hlawful : list.Lawful) (hlen : 0 < list.cursor.len) (slot : Nat) :
    list.countList slot = list.skip.contents.countP (inSlot capacity slot) +
      if list.front.packageId % capacity = slot then 1 else 0 := by
  rw [hlawful.counts, contents_eq_cons hlawful hlen, List.countP_cons]
  simp [inSlot]

theorem Lawful.skip (hlawful : list.Lawful) (hlen : 0 < list.cursor.len) :
    list.skip.Lawful where
  valid := hlawful.valid.pop hlen
  counts := by
    intro slot
    have hcount := countP_skip hlawful hlen slot
    by_cases hslot : list.front.packageId % capacity = slot
    · subst hslot
      rw [if_pos rfl] at hcount
      have hself : list.skip.countList (list.front.packageId % capacity) =
          list.countList (list.front.packageId % capacity) - 1 := Function.update_self ..
      rw [hself, hcount, Nat.add_sub_cancel]
    · rw [if_neg hslot] at hcount
      have hother : list.skip.countList slot = list.countList slot :=
        Function.update_of_ne (Ne.symm hslot) _ _
      rw [hother, hcount, Nat.add_zero]

/-- The last entry of a slot is returned, and its counter is cleared. -/
theorem Lawful.take (hlawful : list.Lawful) (hlen : 0 < list.cursor.len)
    (hlast : ¬list.countList (list.front.packageId % capacity) > 1) : list.take.Lawful where
  valid := hlawful.valid.pop hlen
  counts := by
    intro slot
    have hcount := countP_skip hlawful hlen slot
    have hcontents : list.take.contents = list.skip.contents := rfl
    rw [hcontents]
    by_cases hslot : list.front.packageId % capacity = slot
    · subst hslot
      rw [if_pos rfl] at hcount
      have hself : list.take.countList (list.front.packageId % capacity) = 0 :=
        Function.update_self ..
      omega
    · rw [if_neg hslot] at hcount
      have hother : list.take.countList slot = list.countList slot :=
        Function.update_of_ne (Ne.symm hslot) _ _
      rw [hother, hcount, Nat.add_zero]

/-- The entries that the loop of `pop` discards. -/
def popSkips : (entries : Nat) → AckWaitList capacity → List PackageData
  | 0, _ => []
  | entries + 1, list =>
      if list.countList (list.front.packageId % capacity) > 1 then
        list.front :: popSkips entries list.skip
      else []

def discarded (list : AckWaitList capacity) : List PackageData := popSkips list.cursor.len list

/-- The loop of `pop` returns an entry and leaves the later ones. Every entry it
discards has a later one in its slot. -/
theorem Lawful.popLoop (entries : Nat) (hlawful : list.Lawful)
    (hentries : entries ≤ list.cursor.len)
    (hpop : popLoop entries list = some (package, rest)) :
    rest.Lawful ∧ list.contents = popSkips entries list ++ package :: rest.contents ∧
      ∀ entry ∈ popSkips entries list, ∃ later ∈ package :: rest.contents,
        later.packageId % capacity = entry.packageId % capacity := by
  induction entries generalizing list with
  | zero => cases hpop
  | succ entries ih =>
      have hlen : 0 < list.cursor.len := by omega
      unfold AckWaitList.popLoop at hpop
      unfold popSkips
      split at hpop
      next hmore =>
        have hrest : entries ≤ list.skip.cursor.len := by
          simp only [AckWaitList.skip, Cursor.pop]
          omega
        obtain ⟨hlawfulRest, hcontents, hlater⟩ := ih (hlawful.skip hlen) hrest hpop
        rw [if_pos hmore]
        refine ⟨hlawfulRest, ?_, ?_⟩
        · rw [contents_eq_cons hlawful hlen, hcontents]
          rfl
        · intro entry hmem
          rcases List.mem_cons.mp hmem with rfl | hskipped
          · -- The counter says that another entry of this slot follows.
            have hcount := countP_skip hlawful hlen (list.front.packageId % capacity)
            rw [if_pos rfl] at hcount
            have hpos : 0 < list.skip.contents.countP
                (inSlot capacity (list.front.packageId % capacity)) := by omega
            obtain ⟨later, hfollows, hslot⟩ := List.countP_pos_iff.mp hpos
            have hslot : later.packageId % capacity = list.front.packageId % capacity := by
              simpa [inSlot] using hslot
            rw [hcontents, List.mem_append] at hfollows
            rcases hfollows with hskipped | hstays
            · obtain ⟨last, hlast, hsame⟩ := hlater later hskipped
              exact ⟨last, hlast, hsame.trans hslot⟩
            · exact ⟨later, hstays, hslot⟩
          · exact hlater entry hskipped
      next hlast =>
        simp only [Option.some.injEq, Prod.mk.injEq] at hpop
        obtain ⟨rfl, rfl⟩ := hpop
        rw [if_neg hlast]
        refine ⟨hlawful.take hlen hlast, contents_eq_cons hlawful hlen, ?_⟩
        intro entry hmem
        cases hmem

theorem Lawful.pop (hlawful : list.Lawful) (hpop : list.pop = some (package, rest)) :
    rest.Lawful ∧ list.contents = list.discarded ++ package :: rest.contents ∧
      ∀ entry ∈ list.discarded, ∃ later ∈ package :: rest.contents,
        later.packageId % capacity = entry.packageId % capacity :=
  hlawful.popLoop _ (le_refl _) hpop

/-- The loop of `pop` ends within the list: the last entry has no later one. -/
theorem Lawful.popLoop_isSome (entries : Nat) (hlawful : list.Lawful)
    (hentries : list.cursor.len = entries) (hlen : 0 < entries) :
    (AckWaitList.popLoop entries list).isSome := by
  induction entries generalizing list with
  | zero => omega
  | succ entries ih =>
      unfold AckWaitList.popLoop
      split
      next hmore =>
        have hrest : list.skip.cursor.len = entries := by
          simp only [AckWaitList.skip, Cursor.pop]
          omega
        refine ih (hlawful.skip (by omega)) hrest ?_
        rw [hlawful.counts] at hmore
        have hcount : list.contents.length = entries + 1 := by
          rw [contents, Cursor.length_contents, hentries]
        have := List.countP_le_length (p := inSlot capacity (list.front.packageId % capacity))
          (l := list.contents)
        omega
      next => rfl

theorem Lawful.pop_isSome (hlawful : list.Lawful) (hlen : list.cursor.len ≠ 0) :
    list.pop.isSome :=
  hlawful.popLoop_isSome _ rfl (Nat.pos_of_ne_zero hlen)

/-- `pop` of a single entry. -/
theorem Lawful.pop_of_contents (hlawful : list.Lawful) (hcontents : list.contents = [package]) :
    list.cursor.len ≠ 0 ∧ ∃ rest, list.pop = some (package, rest) ∧ rest.Lawful ∧
      rest.contents = [] := by
  have hlen : list.cursor.len = 1 := by
    have hlength := congrArg List.length hcontents
    rwa [contents, Cursor.length_contents] at hlength
  have hpos : 0 < list.cursor.len := hlen ▸ Nat.one_pos
  obtain ⟨hfront, hskip⟩ := List.cons.inj (hcontents.symm.trans (contents_eq_cons hlawful hpos))
  have hlast : ¬list.countList (list.front.packageId % capacity) > 1 := by
    rw [hlawful.counts, hcontents]
    exact Nat.not_lt.mpr List.countP_le_length
  refine ⟨by omega, list.take, ?_, hlawful.take hpos hlast, hskip.symm⟩
  unfold AckWaitList.pop
  rw [hlen, AckWaitList.popLoop, if_neg hlast, ← hfront]

end AckWaitList

end Sharpvpn
