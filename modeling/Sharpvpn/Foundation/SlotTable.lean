import Mathlib.Data.Finset.Card
import Mathlib.Data.Nat.ModEq
import Mathlib.Logic.Function.Basic
import Mathlib.Tactic.Common

/-!
# Direct-mapped tables

A direct-mapped table of a given capacity keeps the entry of key `k` in slot
`k % capacity` together with the key itself, so that a lookup can tell whether
the slot holds this key or another one. Keys that are present are determined by
their slots. Scanning upwards from a key over present keys therefore ends within
`capacity` steps, also when the successor wraps around at a modulus.
-/

namespace Foundation

/-- Congruent numbers less than a modulus apart are equal. -/
theorem eq_of_mod_eq {capacity i j : Nat} (hmod : i % capacity = j % capacity)
    (hle : i ≤ j) (hlt : j < i + capacity) : i = j := by
  have hdvd : capacity ∣ j - i := (Nat.modEq_iff_dvd' hle).mp hmod
  have hzero : j - i = 0 := Nat.eq_zero_of_dvd_of_lt hdvd (by omega)
  omega

/-- Consecutive numbers, no more than the modulus, differ modulo it. -/
theorem nodup_cycle {capacity count : Nat} (start : Nat) (hcount : count ≤ capacity) :
    ((List.range count).map fun i => (start + i) % capacity).Nodup := by
  apply List.Nodup.map_on _ List.nodup_range
  intro i hi j hj heq
  rw [List.mem_range] at hi hj
  rcases Nat.le_total i j with hle | hle
  · have hsame := eq_of_mod_eq heq (by omega) (by omega)
    omega
  · have hsame := eq_of_mod_eq heq.symm (by omega) (by omega)
    omega

namespace SlotTable

variable {capacity : Nat}

/-- The table of keys holds `key`. -/
def Holds (capacity : Nat) (keys : Nat → Nat) (key : Nat) : Prop :=
  keys (key % capacity) = key

instance (capacity : Nat) (keys : Nat → Nat) (key : Nat) : Decidable (Holds capacity keys key) :=
  inferInstanceAs (Decidable (_ = _))

theorem Holds.eq_of_slot {keys : Nat → Nat} {i j : Nat} (hi : Holds capacity keys i)
    (hj : Holds capacity keys j) (hslot : i % capacity = j % capacity) : i = j := by
  unfold Holds at hi hj
  rw [← hi, hslot, hj]

/-- Storing a key makes it present and leaves the keys of other slots alone. -/
theorem holds_update {keys : Nat → Nat} {key other : Nat} :
    Holds capacity (Function.update keys (key % capacity) key) other ↔
      other = key ∨ (other % capacity ≠ key % capacity ∧ Holds capacity keys other) := by
  unfold Holds
  by_cases hslot : other % capacity = key % capacity
  · rw [hslot, Function.update_self]
    constructor
    · exact fun heq => Or.inl heq.symm
    · rintro (heq | ⟨hne, _⟩)
      · exact heq.symm
      · exact absurd rfl hne
  · rw [Function.update_of_ne hslot]
    constructor
    · exact fun hheld => Or.inr ⟨hslot, hheld⟩
    · rintro (heq | ⟨_, hheld⟩)
      · exact absurd (by rw [heq]) hslot
      · exact hheld

/-- Scan upwards from `key` while the successor is present, at most `fuel` times. -/
def scan (present : Nat → Bool) (succ : Nat → Nat) : Nat → Nat → Nat
  | 0, key => key
  | fuel + 1, key => if present (succ key) then scan present succ fuel (succ key) else key

/-- What holds at the start of a scan and is kept by every step onto a present
key holds at its end. -/
theorem scan_invariant {present : Nat → Bool} {succ : Nat → Nat} (invariant : Nat → Prop)
    (hstep : ∀ key, invariant key → present (succ key) = true → invariant (succ key))
    (fuel key : Nat) (hkey : invariant key) : invariant (scan present succ fuel key) := by
  induction fuel generalizing key with
  | zero => exact hkey
  | succ fuel ih =>
      unfold scan
      split
      next hpresent => exact ih _ (hstep key hkey hpresent)
      next => exact hkey

theorem scan_of_not_present {present : Nat → Bool} {succ : Nat → Nat} {key : Nat}
    (habsent : present (succ key) = false) (fuel : Nat) :
    scan present succ fuel key = key := by
  cases fuel with
  | zero => rfl
  | succ fuel => simp [scan, habsent]

/-- A scan that meets an absent key within its fuel stops before an absent key. -/
theorem scan_maximal {present : Nat → Bool} {succ : Nat → Nat} (fuel key : Nat)
    (habsent : ∃ count ≤ fuel, present (succ^[count + 1] key) = false) :
    present (succ (scan present succ fuel key)) = false := by
  induction fuel generalizing key with
  | zero =>
      obtain ⟨count, hcount, habsent⟩ := habsent
      obtain rfl : count = 0 := by omega
      exact habsent
  | succ fuel ih =>
      unfold scan
      split
      next hpresent =>
        obtain ⟨count, hcount, habsent⟩ := habsent
        cases count with
        | zero =>
            rw [Function.iterate_one, hpresent] at habsent
            cases habsent
        | succ count => exact ih (succ key) ⟨count, by omega, habsent⟩
      next hpresent => simpa using hpresent

/-- Among `capacity + 1` different keys one is absent. -/
theorem exists_absent {present : Nat → Bool} (hcapacity : 0 < capacity)
    (hslots : ∀ i j, present i = true → present j = true →
      i % capacity = j % capacity → i = j)
    (keys : Nat → Nat)
    (hkeys : ∀ i ≤ capacity, ∀ j ≤ capacity, keys i = keys j → i = j) :
    ∃ count ≤ capacity, present (keys count) = false := by
  by_contra hnone
  push Not at hnone
  have hmaps : Set.MapsTo (fun i => keys i % capacity)
      (Finset.range (capacity + 1) : Set Nat) (Finset.range capacity : Set Nat) := by
    intro i _
    simpa using Nat.mod_lt (keys i) hcapacity
  obtain ⟨i, hi, j, hj, hne, hslot⟩ :=
    Finset.exists_ne_map_eq_of_card_lt_of_maps_to (by simp) hmaps
  rw [Finset.mem_range, Nat.lt_succ_iff] at hi hj
  have hpresent : ∀ count ≤ capacity, present (keys count) = true := fun count hcount => by
    simpa using hnone count hcount
  exact hne (hkeys i hi j hj (hslots _ _ (hpresent i hi) (hpresent j hj) hslot))

/-- A scan over as many keys as there are slots ends before an absent key. -/
theorem scan_capacity {present : Nat → Bool} {succ : Nat → Nat} (hcapacity : 0 < capacity)
    (hslots : ∀ i j, present i = true → present j = true →
      i % capacity = j % capacity → i = j) (key : Nat)
    (hkeys : ∀ i ≤ capacity, ∀ j ≤ capacity, succ^[i + 1] key = succ^[j + 1] key → i = j) :
    present (succ (scan present succ capacity key)) = false :=
  scan_maximal capacity key (exists_absent hcapacity hslots _ hkeys)

end SlotTable

end Foundation
