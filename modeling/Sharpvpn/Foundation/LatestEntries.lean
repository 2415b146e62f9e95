import Mathlib.Data.List.Dedup
import Mathlib.Tactic.Common

/-!
# The latest entry for each key

A queue of entries of which only the latest for each key counts. Taking an entry passes over
those that have a later one for their key, so a queue that is drained yields every key it
holds once.
-/

namespace Foundation

universe u v

variable {α : Type u} {κ : Type v}

/-- The queue is a prefix that is passed over, an entry, and the entries behind it. Each entry
passed over has a later one for its key; the entry itself has none. -/
structure TakenLatest (key : α → κ) (entries passed : List α) (entry : α) (rest : List α) :
    Prop where
  split : entries = passed ++ entry :: rest
  last : key entry ∉ rest.map key
  superseded : ∀ before other after, passed = before ++ other :: after →
    key other ∈ (after ++ entry :: rest).map key

variable {key : α → κ} {entries passed rest : List α} {entry head : α}

theorem TakenLatest.cons (htaken : TakenLatest key entries passed entry rest)
    (hlater : key head ∈ entries.map key) :
    TakenLatest key (head :: entries) (head :: passed) entry rest where
  split := by
    rw [htaken.split]
    rfl
  last := htaken.last
  superseded := by
    intro before other after hpassed
    cases before with
    | nil =>
        obtain ⟨rfl, rfl⟩ := List.cons.inj hpassed
        rwa [← htaken.split]
    | cons first before =>
        obtain ⟨-, hpassed⟩ := List.cons.inj hpassed
        exact htaken.superseded before other after hpassed

theorem TakenLatest.suffix (htaken : TakenLatest key entries passed entry rest) :
    rest <:+ entries := by
  rw [htaken.split]
  exact (List.suffix_cons entry rest).trans (List.suffix_append passed _)

theorem TakenLatest.length_lt (htaken : TakenLatest key entries passed entry rest) :
    rest.length < entries.length := by
  rw [htaken.split, List.length_append, List.length_cons]
  omega

variable [DecidableEq κ]

/-- The first entry without a later one for its key, and the entries behind it. -/
def takeLatest (key : α → κ) : List α → Option (α × List α)
  | [] => none
  | entry :: rest =>
      if key entry ∈ rest.map key then takeLatest key rest else some (entry, rest)

theorem takenLatest_of_take (htake : takeLatest key entries = some (entry, rest)) :
    ∃ passed, TakenLatest key entries passed entry rest := by
  induction entries with
  | nil => cases htake
  | cons head entries ih =>
      unfold takeLatest at htake
      split at htake
      next hlater =>
        obtain ⟨passed, htaken⟩ := ih htake
        exact ⟨head :: passed, htaken.cons hlater⟩
      next hlast =>
        obtain ⟨rfl, rfl⟩ := Prod.mk.inj (Option.some.inj htake)
        refine ⟨[], rfl, hlast, ?_⟩
        intro before other after hpassed
        simp at hpassed

/-- The last entry of a queue has no later one. -/
theorem exists_takeLatest (key : α → κ) (hne : entries ≠ []) :
    ∃ entry rest, takeLatest key entries = some (entry, rest) := by
  induction entries with
  | nil => exact absurd rfl hne
  | cons head entries ih =>
      unfold takeLatest
      split
      next hlater =>
        apply ih
        rintro rfl
        simp at hlater
      next => exact ⟨head, entries, rfl⟩

/-- Passing over entries loses no key. -/
theorem dedup_of_take (htake : takeLatest key entries = some (entry, rest)) :
    (entries.map key).dedup = key entry :: (rest.map key).dedup := by
  induction entries with
  | nil => cases htake
  | cons head entries ih =>
      unfold takeLatest at htake
      rw [List.map_cons]
      split at htake
      next hlater => rw [List.dedup_cons_of_mem hlater, ih htake]
      next hlast =>
        obtain ⟨rfl, rfl⟩ := Prod.mk.inj (Option.some.inj htake)
        exact List.dedup_cons_of_notMem hlast

end Foundation
