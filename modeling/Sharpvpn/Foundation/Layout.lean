import Mathlib.Data.List.Basic
import Mathlib.Tactic.Common

/-!
# Items laid out in memory

A program that moves over memory answers the position of an item with the position behind it,
or refuses it. A layout says how each item stands in memory. The skipper of a layout is sound
if it moves over items only, and complete if it refuses none, as far as it keeps to a bound.
-/

namespace Foundation.Layout

universe u v w

/-- `units` stand in memory from `pos` on. -/
def StandsAt {α : Type u} (mem : Nat → α) (pos : Nat) (units : List α) : Prop :=
  ∀ i (hi : i < units.length), mem (pos + i) = units[i]

/-- Move over `count` items. -/
def skipMany (skip : Nat → Option Nat) : Nat → Nat → Option Nat
  | 0, pos => some pos
  | count + 1, pos => (skip pos).bind (skipMany skip count)

section Memory

variable {α : Type u} {mem : Nat → α} {pos : Nat}

@[simp] theorem standsAt_nil : StandsAt mem pos [] := fun _ hi => absurd hi (Nat.not_lt_zero _)

@[simp] theorem standsAt_cons {unit : α} {units : List α} :
    StandsAt mem pos (unit :: units) ↔ mem pos = unit ∧ StandsAt mem (pos + 1) units := by
  constructor
  · intro hstands
    refine ⟨hstands 0 (Nat.zero_lt_succ _), fun i hi => ?_⟩
    rw [Nat.add_right_comm, Nat.add_assoc]
    exact hstands (i + 1) (Nat.succ_lt_succ hi)
  · rintro ⟨hfirst, hrest⟩ i hi
    cases i with
    | zero => exact hfirst
    | succ i =>
        rw [← Nat.add_assoc, Nat.add_right_comm]
        exact hrest i (Nat.lt_of_succ_lt_succ hi)

theorem standsAt_append {first second : List α} :
    StandsAt mem pos (first ++ second) ↔
      StandsAt mem pos first ∧ StandsAt mem (pos + first.length) second := by
  induction first generalizing pos with
  | nil => simp
  | cons unit rest ih =>
      rw [List.cons_append, standsAt_cons, standsAt_cons, ih, and_assoc, List.length_cons,
        Nat.add_right_comm, Nat.add_assoc]

/-- Whatever stands in memory can be named. -/
theorem exists_standsAt (mem : Nat → α) (pos count : Nat) :
    ∃ units : List α, units.length = count ∧ StandsAt mem pos units :=
  ⟨(List.range count).map fun i => mem (pos + i), by simp, fun i hi => by simp⟩

theorem StandsAt.unique {first second : List α} (hfirst : StandsAt mem pos first)
    (hsecond : StandsAt mem pos second) (hlength : first.length = second.length) :
    first = second :=
  List.ext_getElem hlength fun i hi hi' => (hfirst i hi).symm.trans (hsecond i hi')

end Memory

section Skippers

variable {α : Type u} {ι : Type v} {κ : Type w} {mem : Nat → α} {bound : Nat}

/-- Where the skipper leaves some room before the bound, it has moved over an item. -/
def Sound (mem : Nat → α) (room bound : Nat) (skip : Nat → Option Nat) (layout : ι → List α) :
    Prop :=
  ∀ pos next, skip pos = some next → next + room ≤ bound →
    ∃ item, StandsAt mem pos (layout item) ∧ next = pos + (layout item).length

/-- The skipper moves over every item that ends within the bound. -/
def Complete (mem : Nat → α) (bound : Nat) (skip : Nat → Option Nat) (layout : ι → List α) :
    Prop :=
  ∀ pos item, StandsAt mem pos (layout item) → pos + (layout item).length ≤ bound →
    skip pos = some (pos + (layout item).length)

variable {skip after : Nat → Option Nat} {layout : ι → List α} {behind : κ → List α}

/-- The items of a pair stand one behind the other. -/
def pairLayout (layout : ι → List α) (behind : κ → List α) (items : ι × κ) : List α :=
  layout items.1 ++ behind items.2

/-- The first skipper may need as much room as every second item takes. -/
theorem Sound.pair {room : Nat} (hsound : Sound mem room bound skip layout)
    (hafter : Sound mem 0 bound after behind) (hroom : ∀ item, room ≤ (behind item).length) :
    Sound mem 0 bound (fun pos => (skip pos).bind after) (pairLayout layout behind) := by
  intro pos next hnext hle
  obtain ⟨mid, hmid, hnext⟩ := Option.bind_eq_some_iff.mp hnext
  obtain ⟨second, hsecond, rfl⟩ := hafter mid next hnext hle
  have htakes := hroom second
  obtain ⟨first, hfirst, rfl⟩ := hsound pos mid hmid (by omega)
  refine ⟨(first, second), standsAt_append.mpr ⟨hfirst, hsecond⟩, ?_⟩
  unfold pairLayout
  rw [List.length_append, Nat.add_assoc]

theorem Complete.pair (hcomplete : Complete mem bound skip layout)
    (hafter : Complete mem bound after behind) :
    Complete mem bound (fun pos => (skip pos).bind after) (pairLayout layout behind) := by
  rintro pos ⟨first, second⟩ hstands hle
  obtain ⟨hfirst, hsecond⟩ := standsAt_append.mp hstands
  unfold pairLayout at hle ⊢
  dsimp only at hfirst hsecond hle ⊢
  rw [List.length_append] at hle ⊢
  rw [hcomplete pos first hfirst (by omega), Option.bind_some,
    hafter _ second hsecond (by omega), Nat.add_assoc]

/-- So many items, one behind the other. -/
theorem Sound.many (hsound : Sound mem 0 bound skip layout) {count pos next : Nat}
    (hnext : skipMany skip count pos = some next) (hle : next ≤ bound) :
    ∃ items : List ι, items.length = count ∧ StandsAt mem pos (items.flatMap layout) ∧
      next = pos + (items.flatMap layout).length := by
  induction count generalizing pos with
  | zero =>
      obtain rfl := Option.some.inj hnext
      exact ⟨[], rfl, standsAt_nil, rfl⟩
  | succ count ih =>
      obtain ⟨mid, hmid, hrest⟩ := Option.bind_eq_some_iff.mp hnext
      obtain ⟨items, hlength, hstands, rfl⟩ := ih hrest
      obtain ⟨item, hitem, rfl⟩ := hsound pos mid hmid (by omega)
      refine ⟨item :: items, congrArg (· + 1) hlength, ?_, ?_⟩
      · rw [List.flatMap_cons]
        exact standsAt_append.mpr ⟨hitem, hstands⟩
      · rw [List.flatMap_cons, List.length_append, Nat.add_assoc]

theorem Complete.many (hcomplete : Complete mem bound skip layout) {items : List ι} {pos : Nat}
    (hstands : StandsAt mem pos (items.flatMap layout))
    (hle : pos + (items.flatMap layout).length ≤ bound) :
    skipMany skip items.length pos = some (pos + (items.flatMap layout).length) := by
  induction items generalizing pos with
  | nil => rfl
  | cons item rest ih =>
      rw [List.flatMap_cons] at hstands hle ⊢
      rw [List.length_append] at hle ⊢
      obtain ⟨hitem, hrest⟩ := standsAt_append.mp hstands
      rw [List.length_cons, skipMany, hcomplete pos item hitem (by omega), Option.bind_some,
        ih hrest (by omega), Nat.add_assoc]

end Skippers

end Foundation.Layout
