import Sharpvpn.Foundation.Framing
import Sharpvpn.Rudp.Package

/-!
# The socket's data structures

Arrays are functions from slots; a structure's capacity is a parameter of its
type. Packages are identified by their ids: a pointer to a package is modelled by
the package itself.
-/

namespace Sharpvpn

open Foundation

/-- A set of ids, one per slot. Its constructor leaves the memory as it is. -/
structure IdSet (size : Nat) where
  arr : Nat → Nat

namespace IdSet

variable {size : Nat}

def insert (set : IdSet size) (id : Nat) : IdSet size :=
  ⟨Function.update set.arr (id % size) id⟩

/-- The id if it is in the set, 0 otherwise. -/
def find (set : IdSet size) (index : Nat) : Nat :=
  if set.arr (index % size) ≠ index then 0 else set.arr (index % size)

theorem find_ne_zero {set : IdSet size} {index : Nat} :
    set.find index ≠ 0 ↔ index ≠ 0 ∧ SlotTable.Holds size set.arr index := by
  unfold find SlotTable.Holds
  split
  next hne => simp [hne]
  next heq =>
    rw [not_not] at heq
    simp [heq]

@[simp] theorem find_zero (set : IdSet size) : set.find 0 = 0 := by
  by_contra hne
  exact (find_ne_zero.mp hne).1 rfl

/-- Inserting an id takes its slot from whatever id was there. -/
theorem find_insert {set : IdSet size} {id index : Nat} (hid : id ≠ 0) :
    (set.insert id).find index ≠ 0 ↔
      index = id ∨ (index % size ≠ id % size ∧ set.find index ≠ 0) := by
  simp only [find_ne_zero, insert, SlotTable.holds_update]
  constructor
  · rintro ⟨hne, heq | ⟨hslot, hheld⟩⟩
    · exact .inl heq
    · exact .inr ⟨hslot, hne, hheld⟩
  · rintro (rfl | ⟨hslot, hne, hheld⟩)
    · exact ⟨hid, .inl rfl⟩
    · exact ⟨hne, .inr ⟨hslot, hheld⟩⟩

end IdSet

/-- Packages by id, one per slot. An erased slot keeps its stale pointer. -/
structure PackageMap (capacity : Nat) where
  arrId : Nat → Nat := fun _ => 0
  dataPointerList : Nat → Option PackageData := fun _ => none

namespace PackageMap

variable {capacity : Nat}

def find (map : PackageMap capacity) (index : Nat) : Option PackageData :=
  if map.arrId (index % capacity) = index then map.dataPointerList (index % capacity) else none

/-- Whatever package occupied the slot is deleted. -/
def set (map : PackageMap capacity) (index : Nat) (data : PackageData) : PackageMap capacity where
  arrId := Function.update map.arrId (index % capacity) index
  dataPointerList := Function.update map.dataPointerList (index % capacity) (some data)

def erase (map : PackageMap capacity) (index : Nat) : PackageMap capacity :=
  if map.arrId (index % capacity) = index then
    { map with arrId := Function.update map.arrId (index % capacity) 0 }
  else map

@[simp] theorem find_empty (index : Nat) : ({} : PackageMap capacity).find index = none :=
  ite_self none

/-- A package that is found holds its slot. -/
theorem arrId_of_find {map : PackageMap capacity} {index : Nat}
    (hfind : (map.find index).isSome) : map.arrId (index % capacity) = index := by
  unfold find at hfind
  split at hfind
  next heq => exact heq
  next => cases hfind

theorem find_set_self (map : PackageMap capacity) (index : Nat) (data : PackageData) :
    (map.set index data).find index = some data := by
  simp [find, set]

/-- Setting a package evicts the other packages of its slot and no others. -/
theorem find_set_of_ne {map : PackageMap capacity} {index other : Nat} {data : PackageData}
    (hne : other ≠ index) : (map.set index data).find other =
      if other % capacity = index % capacity then none else map.find other := by
  by_cases hslot : other % capacity = index % capacity
  · simp [find, set, hslot, hne.symm]
  · simp [find, set, hslot]

theorem find_of_find_set {map : PackageMap capacity} {index other : Nat}
    {data found : PackageData} (hfind : (map.set index data).find other = some found) :
    (other = index ∧ found = data) ∨ (other ≠ index ∧ map.find other = some found) := by
  by_cases hother : other = index
  · subst hother
    rw [find_set_self] at hfind
    exact .inl ⟨rfl, (Option.some.inj hfind).symm⟩
  · rw [find_set_of_ne hother] at hfind
    split at hfind
    next => cases hfind
    next => exact .inr ⟨hother, hfind⟩

/-- Erasing removes its own id only. An erased slot looks like id 0. -/
theorem find_erase {map : PackageMap capacity} {index other : Nat} (hother : other ≠ 0) :
    (map.erase index).find other = if other = index then none else map.find other := by
  unfold erase
  by_cases hheld : map.arrId (index % capacity) = index
  · rw [if_pos hheld]
    by_cases hslot : other % capacity = index % capacity
    · by_cases heq : other = index
      · simp [find, heq, heq ▸ hother.symm]
      · simp [find, hslot, heq, hother.symm, hheld, Ne.symm heq]
    · have hne : other ≠ index := fun heq => hslot (by rw [heq])
      simp [find, hslot, hne]
  · rw [if_neg hheld]
    split
    next heq => rw [heq, find, if_neg hheld]
    next => rfl

theorem find_of_find_erase {map : PackageMap capacity} {index other : Nat} {found : PackageData}
    (hother : other ≠ 0) (hfind : (map.erase index).find other = some found) :
    other ≠ index ∧ map.find other = some found := by
  rw [find_erase hother] at hfind
  split at hfind
  next => cases hfind
  next hne => exact ⟨hne, hfind⟩

end PackageMap

/-- Packages waiting to be sent: a queue of fresh ids, a queue of ids to resend,
and the packages by id with reference counts. -/
structure PackageQueueMap (capacity : Nat) where
  queue : Nat → Nat := fun _ => 0
  queueCursor : Cursor := {}
  resendQueue : Nat → Nat := fun _ => 0
  resendCursor : Cursor := {}
  arr : Nat → Nat := fun _ => 0
  ref : Nat → Int := fun _ => 0
  dataList : Nat → Option PackageData := fun _ => none

namespace PackageQueueMap

variable {capacity : Nat}

/-- `push(PackageData *, uint64_t)` -/
def push (map : PackageQueueMap capacity) (data : PackageData) (id : Nat) :
    PackageQueueMap capacity :=
  { map with
    queue := Function.update map.queue map.queueCursor.stop id
    queueCursor := map.queueCursor.push (2 * capacity)
    dataList := Function.update map.dataList (id % capacity) (some data)
    arr := Function.update map.arr (id % capacity) id
    ref := Function.update map.ref (id % capacity) 1 }

/-- The package `push` deletes: the one in the slot. -/
def pushFrees (map : PackageQueueMap capacity) (id : Nat) : Option PackageData :=
  if map.arr (id % capacity) ≠ 0 then map.dataList (id % capacity) else none

def erase (map : PackageQueueMap capacity) (id : Nat) : PackageQueueMap capacity :=
  if map.arr (id % capacity) ≠ id then map
  else
    let released := Function.update map.ref (id % capacity) (map.ref (id % capacity) - 1)
    if released (id % capacity) > 0 then { map with ref := released }
    else { map with ref := released, arr := Function.update map.arr (id % capacity) 0 }

/-- The package `erase` deletes: that of the id, with its last reference. -/
def eraseFrees (map : PackageQueueMap capacity) (id : Nat) : Option PackageData :=
  if map.arr (id % capacity) ≠ id ∨ map.ref (id % capacity) - 1 > 0 then none
  else map.dataList (id % capacity)

/-- `push(uint64_t)`, a request to resend. -/
def pushResend (map : PackageQueueMap capacity) (id : Nat) : PackageQueueMap capacity :=
  { map with
    resendQueue := Function.update map.resendQueue map.resendCursor.stop id
    resendCursor := map.resendCursor.push capacity
    -- counted for whatever package is in the slot
    ref := Function.update map.ref (id % capacity) (map.ref (id % capacity) + 1) }

/-- The id `pop` takes: resend requests go first. -/
def popId (map : PackageQueueMap capacity) : Nat :=
  if map.resendCursor.len > 0 then map.resendQueue map.resendCursor.start
  else map.queue map.queueCursor.start

/-- The map after `pop`. -/
def popRest (map : PackageQueueMap capacity) : PackageQueueMap capacity :=
  if map.resendCursor.len > 0 then
    { map with resendCursor := map.resendCursor.pop capacity }
  else { map with queueCursor := map.queueCursor.pop (2 * capacity) }

def size (map : PackageQueueMap capacity) : Nat := map.resendCursor.len + map.queueCursor.len

/-- The package popped, if its id still owns the slot, and the map after it. -/
def pop (map : PackageQueueMap capacity) : Option PackageData × PackageQueueMap capacity :=
  if map.queueCursor.len ≤ 0 ∧ map.resendCursor.len ≤ 0 then (none, map)
  -- the id is consumed also when its slot has gone to another one
  else if map.popId ≠ map.arr (map.popId % capacity) then (none, map.popRest)
  else (map.dataList (map.popId % capacity), map.popRest)

@[simp] theorem popRest_dataList (map : PackageQueueMap capacity) :
    map.popRest.dataList = map.dataList := by
  unfold popRest
  split <;> rfl

@[simp] theorem erase_dataList (map : PackageQueueMap capacity) (id : Nat) :
    (map.erase id).dataList = map.dataList := by
  simp only [erase]
  split
  · rfl
  · split <;> rfl

end PackageQueueMap

/-- Packages sent and waiting for an acknowledgement, with the number of entries
in the list for each slot. -/
structure AckWaitList (capacity : Nat) where
  queue : Nat → PackageData := fun _ => ⟨0, []⟩
  countList : Nat → Nat := fun _ => 0
  cursor : Cursor := {}

namespace AckWaitList

variable {capacity : Nat}

def push (list : AckWaitList capacity) (data : PackageData) : AckWaitList capacity where
  queue := Function.update list.queue list.cursor.stop data
  countList := Function.update list.countList (data.packageId % capacity)
    (list.countList (data.packageId % capacity) + 1)
  cursor := list.cursor.push capacity

/-- The first entry and the list without it. -/
def front (list : AckWaitList capacity) : PackageData := list.queue list.cursor.start

/-- One iteration of the loop in `pop`: an entry with a later one for its slot is
discarded. -/
def skip (list : AckWaitList capacity) : AckWaitList capacity :=
  { list with
    countList := Function.update list.countList (list.front.packageId % capacity)
      (list.countList (list.front.packageId % capacity) - 1)
    cursor := list.cursor.pop capacity }

/-- The end of `pop`: the entry is returned and its counter cleared. -/
def take (list : AckWaitList capacity) : AckWaitList capacity :=
  { list with
    countList := Function.update list.countList (list.front.packageId % capacity) 0
    cursor := list.cursor.pop capacity }

/-- The loop in `pop`, over the entries in the list. `none`: it runs past the last
entry, onto cells whose packages may be gone. -/
def popLoop : (entries : Nat) → AckWaitList capacity →
    Option (PackageData × AckWaitList capacity)
  | 0, _ => none
  | entries + 1, list =>
      if list.countList (list.front.packageId % capacity) > 1 then popLoop entries list.skip
      else some (list.front, list.take)

/-- `pop` of a list that is not empty. -/
def pop (list : AckWaitList capacity) : Option (PackageData × AckWaitList capacity) :=
  popLoop list.cursor.len list

end AckWaitList

/-- The reader of a package's segments. Its buffer keeps old bytes behind the
plaintext of the current package. -/
structure SegmentParser where
  buf : Bytes
  len : Nat := 0
  start : Nat := 0

namespace SegmentParser

/-- A package that does not decrypt, or is empty, leaves the parser as it is. -/
def load (crypto : SharpCrypto) (parser : SegmentParser) (payload : Bytes) : SegmentParser :=
  match crypto.decrypt payload with
  | none => parser
  | some plain =>
      if plain.length = 0 then parser
      else ⟨plain ++ parser.buf.drop plain.length, plain.length, 0⟩

/-- The next segment, empty where the source returns 0. -/
def nextSegment (parser : SegmentParser) : Bytes × SegmentParser :=
  if parser.len = 0 then ([], parser)
  else
    match Framing.next (parser.buf.drop parser.start) with
    | none => ([], parser)
    | some (segment, _) => (segment, { parser with start := parser.start + (segment.length + 2) })

/-- The segments the parser has not returned yet. -/
def pending (parser : SegmentParser) : List Bytes :=
  if parser.len = 0 then [] else Framing.decode (parser.buf.drop parser.start)

end SegmentParser

/-- Drop the empty segments, which stand for the result 0. -/
def positive (segments : List Bytes) : List Bytes :=
  segments.filter fun segment => !segment.isEmpty

@[simp] theorem positive_append (first second : List Bytes) :
    positive (first ++ second) = positive first ++ positive second :=
  List.filter_append ..

theorem positive_eq_self {segments : List Bytes} (hne : [] ∉ segments) :
    positive segments = segments := by
  refine List.filter_eq_self.mpr fun segment hmem => ?_
  cases segment with
  | nil => exact absurd hmem hne
  | cons byte rest => rfl

/-- A plaintext as the segment thread builds it. -/
def WellFramed (plain : Bytes) : Prop :=
  ∃ segments, plain = Framing.encode segments ∧ ∀ segment ∈ segments, segment.length < 65536

/-- The segments a payload yields once it is loaded. -/
def segmentsIn (crypto : SharpCrypto) (payload : Bytes) : List Bytes :=
  match crypto.decrypt payload with
  | none => []
  | some plain => Framing.decode plain

theorem segmentsIn_encode {crypto : SharpCrypto} {payload : Bytes} {segments : List Bytes}
    (hdecrypt : crypto.decrypt payload = some (Framing.encode segments))
    (hlength : ∀ segment ∈ segments, segment.length < 65536) :
    segmentsIn crypto payload = segments.takeWhile fun segment => !segment.isEmpty := by
  simp only [segmentsIn, hdecrypt]
  simpa using Framing.decode_encode segments hlength []

namespace SegmentParser

/-- Returning a segment takes it off the pending ones; 0 is returned at their end. -/
theorem pending_nextSegment (parser : SegmentParser) :
    parser.pending = positive [parser.nextSegment.1] ++ parser.nextSegment.2.pending := by
  unfold nextSegment
  split
  next hlen => simp [positive, pending, hlen]
  next hlen =>
    cases hnext : Framing.next (parser.buf.drop parser.start) with
    | none =>
        simp [positive, pending, hlen, Framing.decode_of_none hnext]
    | some result =>
        obtain ⟨segment, rest⟩ := result
        have hne := Framing.ne_nil_of_next hnext
        have hrest := Framing.rest_of_next hnext
        rw [List.drop_drop] at hrest
        simp [positive, pending, hlen, Framing.decode_of_some hnext, hne, hrest]

theorem pending_eq_nil {parser : SegmentParser} (hnone : parser.nextSegment.1 = []) :
    parser.pending = [] := by
  unfold nextSegment at hnone
  unfold pending
  split at hnone
  next hlen => rw [if_pos hlen]
  next hlen =>
    rw [if_neg hlen]
    split at hnone
    next hnext => exact Framing.decode_of_none hnext
    next hnext => exact absurd hnone (Framing.ne_nil_of_next hnext)

/-- Loading replaces what is pending by the package's segments, unless it does not
decrypt. -/
theorem pending_load {crypto : SharpCrypto} {payload : Bytes} (parser : SegmentParser)
    (hframed : ∀ plain, crypto.decrypt payload = some plain → WellFramed plain) :
    (parser.load crypto payload).pending =
      if (crypto.decrypt payload).isSome then segmentsIn crypto payload else parser.pending := by
  unfold load segmentsIn
  cases hdecrypt : crypto.decrypt payload with
  | none => rfl
  | some plain =>
      obtain ⟨segments, rfl, hlength⟩ := hframed plain hdecrypt
      have hlen : (Framing.encode segments).length ≠ 0 := by
        simp [Framing.encode, Framing.word]
      have hdecode := Framing.decode_encode segments hlength
      simp only [if_neg hlen, pending, List.drop_zero, Option.isSome_some, if_true]
      rw [hdecode, ← hdecode [], List.append_nil]

end SegmentParser

end Sharpvpn
