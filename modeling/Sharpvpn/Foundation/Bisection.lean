import Mathlib.Data.List.Basic
import Mathlib.Tactic.Common

/-!
# Bisection

A binary search between two indices that stops when they meet or are neighbours. It answers
with the left one, and has never looked at the entry on the right.
-/

namespace Foundation

universe u

def bisect (above : Nat → Bool) (l r : Nat) : Nat :=
  if l = r then l
  else
    let m := (l + r) / 2
    if above m then if r ≠ m then bisect above l m else l
    else if l ≠ m then bisect above m r else l
  termination_by l - r + (r - l)

/-- Where the search between two indices has stopped. -/
structure Bisected (above : Nat → Bool) (l r index : Nat) : Prop where
  left_le : l ≤ index
  le_right : index ≤ r
  lt_right : l < r → index < r
  below : index = l ∨ above index = false
  above : ∀ i, index < i → i < r → above i = true

theorem bisect_spec {above : Nat → Bool} {l r : Nat} (hle : l ≤ r)
    (hmono : ∀ i j, i ≤ j → j < r → above i = true → above j = true) :
    Bisected above l r (bisect above l r) := by
  fun_induction bisect above l r with
  | case1 l =>
      exact ⟨Nat.le_refl l, Nat.le_refl l, fun hlt => hlt, .inl rfl, fun i hl hr => by omega⟩
  | case2 l r hne m habove hm ih =>
      have hlt : m < r := by omega
      have hfound := ih (by omega) fun i j hij hj => hmono i j hij (by omega)
      have hright := hfound.le_right
      refine ⟨hfound.left_le, by omega, fun _ => by omega, hfound.below, fun i hi hr => ?_⟩
      rcases Nat.lt_or_ge i m with him | hmi
      · exact hfound.above i hi him
      · exact hmono m i hmi hr habove
  | case3 l r hne m habove hm => omega
  | case4 l r hne m habove hm ih =>
      have hfound := ih (by omega) hmono
      have hleft := hfound.left_le
      refine ⟨by omega, hfound.le_right, fun _ => hfound.lt_right (by omega), ?_, hfound.above⟩
      rcases hfound.below with heq | hbelow
      · rw [heq]
        exact .inr (by simpa using habove)
      · exact .inr hbelow
  | case5 l r hne m habove hm =>
      exact ⟨Nat.le_refl l, hle, fun hlt => hlt, .inl rfl, fun i hi hr => by omega⟩

section Entries

variable {α : Type u} {above : α → Bool} {entries : List α}

/-- The last entry but the greatest that is not above, or else the first entry. -/
def lastBelow (above : α → Bool) (entries : List α) : Option α :=
  (entries.dropLast.filter fun entry => !above entry).getLast?.or entries.head?

theorem mem_of_lastBelow {entry : α} (hentry : lastBelow above entries = some entry) :
    entry ∈ entries := by
  rcases Option.or_eq_some_iff.mp hentry with hlast | ⟨-, hhead⟩
  · exact List.dropLast_subset _ (List.mem_of_mem_filter (List.mem_of_getLast? hlast))
  · exact List.mem_of_mem_head? hhead

/-- Whether the entry at an index is above. -/
def aboveAt (above : α → Bool) (entries : List α) (i : Nat) : Bool := entries[i]?.any above

/-- In a sorted list the search finds that entry. -/
theorem getElem?_bisect (hsorted : entries.Pairwise fun a b => above a → above b) :
    entries[bisect (aboveAt above entries) 0 (entries.length - 1)]? = lastBelow above entries := by
  have hmono : ∀ i j, i ≤ j → j < entries.length - 1 → aboveAt above entries i = true →
      aboveAt above entries j = true := by
    intro i j hij hj habove
    have hi : i < entries.length := by omega
    have hj : j < entries.length := by omega
    rw [aboveAt, List.getElem?_eq_getElem hi] at habove
    rw [aboveAt, List.getElem?_eq_getElem hj]
    rcases Nat.eq_or_lt_of_le hij with rfl | hlt
    · exact habove
    · exact List.pairwise_iff_getElem.mp hsorted i j hi hj hlt habove
  have hfound := bisect_spec (Nat.zero_le _) hmono
  generalize bisect (aboveAt above entries) 0 (entries.length - 1) = index at hfound ⊢
  unfold lastBelow
  cases hdrop : entries.getLast? with
  | none =>
      rw [List.getLast?_eq_none_iff] at hdrop
      subst hdrop
      rfl
  | some last =>
      obtain ⟨rest, rfl⟩ := List.getLast?_eq_some_iff.mp hdrop
      rw [List.dropLast_concat]
      simp only [List.length_append, List.length_singleton, Nat.add_sub_cancel] at hfound
      rcases Nat.eq_zero_or_pos rest.length with hnil | hpos
      · obtain rfl := List.length_eq_zero_iff.mp hnil
        obtain rfl : index = 0 := by have := hfound.le_right; simpa using this
        rfl
      · have hindex := hfound.lt_right hpos
        obtain ⟨before, entry, after, rfl, rfl⟩ :
            ∃ before entry after, rest = before ++ entry :: after ∧ before.length = index :=
          ⟨rest.take index, rest[index], rest.drop (index + 1), by simp, by simp; omega⟩
        have hentry : aboveAt above (before ++ entry :: after ++ [last]) before.length =
            above entry := by
          simp [aboveAt]
        have hafter : after.filter (fun entry => !above entry) = [] := by
          refine List.filter_eq_nil_iff.mpr fun other hother => ?_
          obtain ⟨i, hi, rfl⟩ := List.mem_iff_getElem.mp hother
          have habove := hfound.above (before.length + (i + 1)) (by omega)
            (by simp only [List.length_append, List.length_cons]; omega)
          have hother : aboveAt above (before ++ entry :: after ++ [last])
              (before.length + (i + 1)) = above after[i] := by
            unfold aboveAt
            rw [List.append_assoc, List.getElem?_append_right (by omega), Nat.add_sub_cancel_left,
              List.cons_append, List.getElem?_cons_succ, List.getElem?_append_left hi,
              List.getElem?_eq_getElem hi, Option.any_some]
          rw [hother] at habove
          simp [habove]
        rw [List.filter_append, List.filter_cons, hafter]
        cases habove : above entry with
        | false => simp
        | true =>
            have hzero : before = [] := by
              rcases hfound.below with hzero | hbelow
              · exact List.length_eq_zero_iff.mp hzero
              · rw [hentry, habove] at hbelow
                cases hbelow
            simp [hzero]

end Entries

end Foundation
