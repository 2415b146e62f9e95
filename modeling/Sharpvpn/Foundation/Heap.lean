import Mathlib.Data.List.Perm.Basic
import Mathlib.Data.List.Nodup
import Mathlib.Tactic.Common

/-!
# Blocks that are allocated and freed

An address is given once, so that a pointer to a block that has been freed is never mistaken
for one to a block allocated later. What a program may free or read is what it owns: an owned
list names every block in use once.
-/

namespace Foundation

universe u

structure Heap (α : Type u) where
  /-- The blocks in use, by their addresses. -/
  live : List (Nat × α) := []
  next : Nat := 0
  nodup : (live.map Prod.fst).Nodup := by simp
  fresh : ∀ block ∈ live, block.1 < next := by simp

namespace Heap

variable {α : Type u} (heap : Heap α)

def malloc (value : α) : Heap α where
  live := (heap.next, value) :: heap.live
  next := heap.next + 1
  nodup := by
    rw [List.map_cons, List.nodup_cons]
    refine ⟨fun hmem => ?_, heap.nodup⟩
    obtain ⟨block, hblock, hnext⟩ := List.mem_map.mp hmem
    exact absurd (heap.fresh block hblock) (by omega)
  fresh := by
    intro block hblock
    rcases List.mem_cons.mp hblock with rfl | hold
    · exact Nat.lt_succ_self _
    · exact Nat.lt_succ_of_lt (heap.fresh block hold)

/-- The value of a block, if it is in use. -/
def read (ptr : Nat) : Option α := (heap.live.find? (·.1 = ptr)).map Prod.snd

/-- The heap without a block. -/
def release (ptr : Nat) : Heap α where
  live := heap.live.filter (·.1 ≠ ptr)
  next := heap.next
  nodup := heap.nodup.sublist (List.filter_sublist.map _)
  fresh block hblock := heap.fresh block (List.mem_of_mem_filter hblock)

/-- Free a block that is in use; a null pointer is let pass. -/
def free : Option Nat → Option (Heap α)
  | none => some heap
  | some ptr => if (heap.read ptr).isSome then some (heap.release ptr) else none

/-- A block in the place of another, or of none; it is taken to move to a new address. -/
def realloc (ptr : Option Nat) (value : α) : Option (Heap α) :=
  (heap.free ptr).map fun heap => heap.malloc value

variable {heap} {ptr : Nat} {value : α} {owned rest : List (Nat × α)}

theorem read_of_mem (hmem : (ptr, value) ∈ heap.live) : heap.read ptr = some value := by
  unfold read
  cases hfind : heap.live.find? (·.1 = ptr) with
  | none => simpa using List.find?_eq_none.mp hfind _ hmem
  | some block =>
      have hptr : block.1 = ptr := by simpa using List.find?_some hfind
      have hsame := List.inj_on_of_nodup_map heap.nodup (List.mem_of_find?_eq_some hfind) hmem hptr
      rw [Option.map_some, hsame]

/-- The owner of a block may free it, and keeps the others. -/
theorem free_of_perm (howned : heap.live.Perm ((ptr, value) :: rest)) :
    heap.free (some ptr) = some (heap.release ptr) ∧ (heap.release ptr).live.Perm rest := by
  constructor
  · have hread := read_of_mem (howned.mem_iff.mpr List.mem_cons_self)
    unfold free
    dsimp only
    rw [hread, Option.isSome_some, if_pos rfl]
  · have hnodup := (howned.map Prod.fst).nodup_iff.mp heap.nodup
    rw [List.map_cons, List.nodup_cons] at hnodup
    have hkept : rest.filter (·.1 ≠ ptr) = rest := by
      rw [List.filter_eq_self]
      intro block hblock
      rw [decide_eq_true_eq]
      rintro rfl
      exact hnodup.1 (List.mem_map.mpr ⟨block, hblock, rfl⟩)
    have hfiltered := howned.filter (·.1 ≠ ptr)
    rw [List.filter_cons_of_neg (by simp), hkept] at hfiltered
    exact hfiltered

theorem malloc_perm (howned : heap.live.Perm owned) :
    (heap.malloc value).live.Perm ((heap.next, value) :: owned) :=
  howned.cons _

/-- The only block gives way to the new one. -/
theorem realloc_only {ptr : Option Nat} (hlive : heap.live = (ptr.map (·, value)).toList)
    (new : α) :
    ∃ moved, heap.realloc ptr new = some moved ∧ moved.live = [(heap.next, new)] := by
  unfold realloc
  cases ptr with
  | none => exact ⟨heap.malloc new, rfl, congrArg ((heap.next, new) :: ·) hlive⟩
  | some ptr =>
      obtain ⟨hfree, hrest⟩ := free_of_perm (List.Perm.of_eq hlive)
      rw [hfree]
      exact ⟨_, rfl, congrArg ((heap.next, new) :: ·) hrest.eq_nil⟩

end Heap

end Foundation
