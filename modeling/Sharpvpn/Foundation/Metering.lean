import Mathlib.Algebra.BigOperators.Group.List.Basic
import Mathlib.Data.List.Chain
import Mathlib.Tactic.Common
import Mathlib.Tactic.Ring

/-!
# Metered groups

Items are charged one after another. The item that takes the charge past a limit fills a
group, and the next one begins without it.
-/

namespace Foundation

universe u

variable {α : Type u}

structure FullGroup (α : Type u) where
  body : List α
  last : α

def charged (charge : α → Nat) (items : List α) : Nat := (items.map charge).sum

/-- The groups that the items fill, on top of those held already. -/
def fullGroups (charge : α → Nat) (limit : Nat) : (held : List α) → List α → List (FullGroup α)
  | _, [] => []
  | held, item :: rest =>
      if charged charge held + charge item > limit then
        ⟨held, item⟩ :: fullGroups charge limit [] rest
      else fullGroups charge limit (held ++ [item]) rest

@[simp] theorem charged_append (charge : α → Nat) (first second : List α) :
    charged charge (first ++ second) = charged charge first + charged charge second := by
  simp [charged]

@[simp] theorem charged_singleton (charge : α → Nat) (item : α) :
    charged charge [item] = charge item := by
  simp [charged]

/-- Without its last item a group is within the limit. -/
theorem charged_body_le {charge : α → Nat} {limit : Nat} {held items : List α}
    (hheld : charged charge held ≤ limit) :
    ∀ group ∈ fullGroups charge limit held items, charged charge group.body ≤ limit := by
  induction items generalizing held with
  | nil => rintro _ ⟨⟩
  | cons item rest ih =>
      unfold fullGroups
      split
      next =>
        intro group hgroup
        rcases List.mem_cons.mp hgroup with rfl | hrest
        · exact hheld
        · exact ih (Nat.zero_le _) group hrest
      next hroom =>
        apply ih
        rw [charged_append, charged_singleton]
        omega

/-- Spans that follow one another, each as long as a period or longer. -/
theorem duration_of_chain {start stop : α → Int} {period : Int} {spans : List α} {first final : α}
    (hchain : spans.IsChain fun earlier later => stop earlier = start later)
    (hspans : ∀ span ∈ spans, start span + period ≤ stop span)
    (hfirst : first ∈ spans.head?) (hfinal : final ∈ spans.getLast?) :
    start first + spans.length * period ≤ stop final := by
  induction spans generalizing first with
  | nil => cases hfirst
  | cons span rest ih =>
      obtain rfl := Option.some.inj hfirst
      have hspan := hspans span List.mem_cons_self
      cases rest with
      | nil =>
          obtain rfl := Option.some.inj hfinal
          simpa using hspan
      | cons next rest =>
          obtain ⟨hnext, hchain⟩ := List.isChain_cons_cons.mp hchain
          have hlater := ih hchain
            (fun other hother => hspans other (List.mem_cons_of_mem _ hother)) rfl hfinal
          rw [List.length_cons] at hlater ⊢
          push_cast at hlater ⊢
          rw [hnext] at hspan
          calc
            start span + ((rest.length : Int) + 1 + 1) * period =
                start span + period + ((rest.length : Int) + 1) * period := by ring
            _ ≤ start next + ((rest.length : Int) + 1) * period := Int.add_le_add_right hspan _
            _ ≤ stop final := hlater

end Foundation
