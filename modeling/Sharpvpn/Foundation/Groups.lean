import Mathlib.Data.List.Basic
import Mathlib.Tactic.Common

/-!
# Selecting from a sequence cut into groups

A sequence is cut into groups, numbered from an offset. Items name groups by their
keys and yield what is in them, or part of it. Items with increasing keys yield a
subsequence of the whole; items with consecutive keys yield a prefix of it.
-/

namespace Foundation

universe u v

variable {α : Type u} {β : Type v}

/-- The item names a group and yields something in a relation to it. -/
def Names (key : α → Nat) (pick : α → List β) (relation : List β → List β → Prop)
    (groups : List (List β)) (offset : Nat) (item : α) : Prop :=
  ∃ count group, key item = offset + count ∧ groups[count]? = some group ∧
    relation (pick item) group

variable {key : α → Nat} {pick : α → List β} {relation : List β → List β → Prop}

/-- An item whose key is not the offset names a group after the first. -/
theorem Names.tail {group : List β} {groups : List (List β)} {offset : Nat} {item : α}
    (hnames : Names key pick relation (group :: groups) offset item) (hlt : offset < key item) :
    Names key pick relation groups (offset + 1) item := by
  obtain ⟨count, found, hkey, hfound, hrelation⟩ := hnames
  cases count with
  | zero => omega
  | succ count => exact ⟨count, found, by omega, by simpa using hfound, hrelation⟩

theorem Names.head {group : List β} {groups : List (List β)} {offset : Nat} {item : α}
    (hnames : Names key pick relation (group :: groups) offset item) (hkey : key item = offset) :
    relation (pick item) group := by
  obtain ⟨count, found, hcount, hfound, hrelation⟩ := hnames
  obtain rfl : count = 0 := by omega
  obtain rfl : group = found := by simpa using hfound
  exact hrelation

theorem Names.le {groups : List (List β)} {offset : Nat} {item : α}
    (hnames : Names key pick relation groups offset item) : offset ≤ key item := by
  obtain ⟨count, _, hkey, _⟩ := hnames
  omega

theorem not_names_nil {offset : Nat} {item : α} : ¬Names key pick relation [] offset item := by
  rintro ⟨count, group, _, hgroup, _⟩
  simp at hgroup

theorem flatMap_sublist_flatten (groups : List (List β)) (offset : Nat) (items : List α)
    (hincreasing : items.Pairwise (key · < key ·))
    (hnames : ∀ item ∈ items, Names key pick List.Sublist groups offset item) :
    (items.flatMap pick).Sublist groups.flatten := by
  induction groups generalizing offset items with
  | nil =>
      cases items with
      | nil => exact List.Sublist.refl _
      | cons item items => exact absurd (hnames item List.mem_cons_self) not_names_nil
  | cons group groups ih =>
      cases items with
      | nil => exact List.nil_sublist _
      | cons item items =>
          obtain ⟨hbefore, hrest⟩ := List.pairwise_cons.mp hincreasing
          have hhead := hnames item List.mem_cons_self
          rw [List.flatten_cons]
          rcases Nat.lt_or_eq_of_le hhead.le with hlt | heq
          · apply List.sublist_append_of_sublist_right
            apply ih (offset + 1) _ hincreasing
            intro other hmem
            refine (hnames other hmem).tail ?_
            rcases List.mem_cons.mp hmem with rfl | hother
            · exact hlt
            · exact Nat.lt_trans hlt (hbefore other hother)
          · rw [List.flatMap_cons]
            apply (hhead.head heq.symm).append
            apply ih (offset + 1) _ hrest
            intro other hmem
            have hlt := hbefore other hmem
            exact (hnames other (List.mem_cons_of_mem _ hmem)).tail (heq ▸ hlt)

theorem flatMap_prefix_flatten (groups : List (List β)) (offset : Nat) (items : List α)
    (hconsecutive : items.map key = List.range' offset items.length)
    (hnames : ∀ item ∈ items, Names key pick Eq groups offset item) :
    (items.flatMap pick).IsPrefix groups.flatten := by
  induction items generalizing groups offset with
  | nil => exact List.nil_prefix
  | cons item items ih =>
      rw [List.map_cons, List.length_cons, List.range'_succ] at hconsecutive
      obtain ⟨hkey, hrest⟩ := List.cons.inj hconsecutive
      cases groups with
      | nil => exact absurd (hnames item List.mem_cons_self) not_names_nil
      | cons group groups =>
          rw [List.flatMap_cons, List.flatten_cons, (hnames item List.mem_cons_self).head hkey]
          apply List.prefix_append_right_inj _ |>.mpr
          apply ih groups (offset + 1) hrest
          intro other hmem
          refine (hnames other (List.mem_cons_of_mem _ hmem)).tail ?_
          have hrange : key other ∈ List.range' (offset + 1) items.length := by
            rw [← hrest]
            exact List.mem_map_of_mem hmem
          have := (List.mem_range'_1.mp hrange).1
          omega

end Foundation
