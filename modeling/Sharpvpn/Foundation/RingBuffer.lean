import Mathlib.Data.List.Rotate
import Sharpvpn.Foundation.SlotTable

/-!
# Ring cursors over a shared array

A cursor describes the occupied part of a circular array: where it starts, where
the next entry goes, and how many entries there are. The array is kept apart from
the cursor because a cursor may be copied: two cursors can then describe adjacent
parts of one array, the older one being consumed while the newer one grows.
Pushing onto a cursor does not check for room.
-/

namespace Foundation

universe u

structure Cursor where
  start : Nat := 0
  stop : Nat := 0
  len : Nat := 0
  deriving DecidableEq, Repr

namespace Cursor

variable {α : Type u} (capacity : Nat)

/-- The cursor after an entry has been written at `stop`. -/
def push (cursor : Cursor) : Cursor :=
  { cursor with stop := (cursor.stop + 1) % capacity, len := cursor.len + 1 }

/-- The cursor after its first entry has been read. -/
def pop (cursor : Cursor) : Cursor :=
  { cursor with start := (cursor.start + 1) % capacity, len := cursor.len - 1 }

/-- Forget the entries; the next one goes where it would have gone. -/
def rebase (cursor : Cursor) : Cursor :=
  { cursor with start := cursor.stop, len := 0 }

/-- The entries from the oldest to the newest. -/
def contents (array : Nat → α) (cursor : Cursor) : List α :=
  (List.range cursor.len).map fun i => array ((cursor.start + i) % capacity)

/-- The cursor addresses cells of the array, and each entry has its own cell. -/
structure Valid (cursor : Cursor) : Prop where
  start_lt : cursor.start < capacity
  stop_eq : cursor.stop = (cursor.start + cursor.len) % capacity
  len_le : cursor.len ≤ capacity

variable {capacity} {array : Nat → α} {cursor : Cursor}

@[simp] theorem length_contents : (cursor.contents capacity array).length = cursor.len := by
  simp [contents]

theorem contents_eq_nil (hlen : cursor.len = 0) : cursor.contents capacity array = [] := by
  simp [contents, hlen]

/-- The first entry is the cell at `start`; popping leaves the others. -/
theorem contents_eq_cons (hstart : cursor.start < capacity) (hlen : 0 < cursor.len) :
    cursor.contents capacity array =
      array cursor.start :: (cursor.pop capacity).contents capacity array := by
  obtain ⟨count, hcount⟩ : ∃ count, cursor.len = count + 1 := ⟨cursor.len - 1, by omega⟩
  unfold contents pop
  rw [hcount, List.range_succ_eq_map, List.map_cons, List.map_map]
  congr 1
  · rw [Nat.add_zero, Nat.mod_eq_of_lt hstart]
  · simp only [Nat.add_sub_cancel]
    apply List.map_congr_left
    intro i _
    simp only [Function.comp_apply, Nat.mod_add_mod]
    congr 2
    omega

/-- The cell the next entry goes to is not occupied while there is room. -/
theorem cell_ne_stop (hvalid : cursor.Valid capacity) (hroom : cursor.len < capacity) {i : Nat}
    (hi : i < cursor.len) : (cursor.start + i) % capacity ≠ cursor.stop := by
  intro heq
  rw [hvalid.stop_eq] at heq
  have := eq_of_mod_eq heq (by omega) (by omega)
  omega

theorem contents_update (hvalid : cursor.Valid capacity) (hroom : cursor.len < capacity)
    (value : α) :
    cursor.contents capacity (Function.update array cursor.stop value) =
      cursor.contents capacity array := by
  apply List.map_congr_left
  intro i hi
  rw [Function.update_of_ne]
  exact cell_ne_stop hvalid hroom (List.mem_range.mp hi)

/-- Pushing appends, while there is room. -/
theorem contents_push (hvalid : cursor.Valid capacity) (hroom : cursor.len < capacity)
    (value : α) :
    (cursor.push capacity).contents capacity (Function.update array cursor.stop value) =
      cursor.contents capacity array ++ [value] := by
  have hold : (cursor.push capacity).contents capacity
      (Function.update array cursor.stop value) =
      cursor.contents capacity (Function.update array cursor.stop value) ++
        [Function.update array cursor.stop value
          ((cursor.start + cursor.len) % capacity)] := by
    simp [contents, push, List.range_succ]
  rw [hold, contents_update hvalid hroom, ← hvalid.stop_eq, Function.update_self]

theorem getElem_contents {i : Nat} (hi : i < (cursor.contents capacity array).length) :
    (cursor.contents capacity array)[i] = array ((cursor.start + i) % capacity) := by
  simp [contents]

/-- Writing to the cell of an entry replaces that entry. -/
theorem contents_write (hlen : cursor.len ≤ capacity) {i : Nat} (hi : i < cursor.len)
    (value : α) :
    cursor.contents capacity (Function.update array ((cursor.start + i) % capacity) value) =
      (cursor.contents capacity array).set i value := by
  apply List.ext_getElem
  · rw [List.length_set, length_contents, length_contents]
  · intro j hj hset
    rw [length_contents] at hj
    rw [getElem_contents, List.getElem_set, getElem_contents]
    split
    next heq => rw [heq, Function.update_self]
    next hne =>
      rw [Function.update_of_ne]
      intro heq
      rcases Nat.le_total i j with hle | hle
      · exact hne (by have := eq_of_mod_eq heq.symm (by omega) (by omega); omega)
      · exact hne (by have := eq_of_mod_eq heq (by omega) (by omega); omega)

/-- The entries of a full array are its cells, from another one on. -/
theorem contents_full (hlen : cursor.len = capacity) :
    cursor.contents capacity array = ((List.range capacity).map array).rotate cursor.start := by
  apply List.ext_getElem
  · rw [length_contents, List.length_rotate, List.length_map, List.length_range, hlen]
  · intro i hi hrotate
    rw [getElem_contents, List.getElem_rotate, List.getElem_map, List.getElem_range,
      List.length_map, List.length_range, Nat.add_comm]

theorem Valid.push (hvalid : cursor.Valid capacity) (hroom : cursor.len < capacity) :
    (cursor.push capacity).Valid capacity where
  start_lt := hvalid.start_lt
  stop_eq := by
    simp only [Cursor.push, hvalid.stop_eq, Nat.mod_add_mod, Nat.add_assoc]
  len_le := hroom

theorem Valid.pop (hvalid : cursor.Valid capacity) (hlen : 0 < cursor.len) :
    (cursor.pop capacity).Valid capacity where
  start_lt := Nat.mod_lt _ (Nat.lt_of_le_of_lt (Nat.zero_le _) hvalid.start_lt)
  stop_eq := by
    simp only [Cursor.pop, hvalid.stop_eq, Nat.mod_add_mod]
    congr 1
    omega
  len_le := by
    have := hvalid.len_le
    simp only [Cursor.pop]
    omega

theorem Valid.rebase (hvalid : cursor.Valid capacity) : cursor.rebase.Valid capacity := by
  have hstop : cursor.stop < capacity := by
    rw [hvalid.stop_eq]
    exact Nat.mod_lt _ (Nat.lt_of_le_of_lt (Nat.zero_le _) hvalid.start_lt)
  exact ⟨hstop, (Nat.mod_eq_of_lt hstop).symm, Nat.zero_le _⟩

/-- The part of the array two adjacent cursors occupy together. -/
def join (older newer : Cursor) : Cursor :=
  ⟨older.start, newer.stop, older.len + newer.len⟩

theorem contents_join {older newer : Cursor}
    (hadjacent : newer.start = (older.start + older.len) % capacity) :
    (older.join newer).contents capacity array =
      older.contents capacity array ++ newer.contents capacity array := by
  simp [contents, join, List.range_add, hadjacent, Nat.add_assoc, Function.comp_def]

end Cursor

end Foundation
