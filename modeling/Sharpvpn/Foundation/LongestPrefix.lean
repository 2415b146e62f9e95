import Mathlib.Data.Set.Finite.Lemmas
import Mathlib.Tactic.Common

/-!
# Longest-prefix match

A table of routes, seen through the addresses a route covers and the length of its prefix.
A statement about all the longest routes that cover an address holds whichever of them is
taken.
-/

namespace Foundation

universe u

variable {ρ : Type u}

/-- A route that covers the address, and no route that covers it is longer. -/
structure LongestMatch (covers : ρ → Prop) (length : ρ → Nat) (table : List ρ) (route : ρ) :
    Prop where
  mem : route ∈ table
  covered : covers route
  longest : ∀ other ∈ table, covers other → length other ≤ length route

variable {covers : ρ → Prop} {length : ρ → Nat} {table : List ρ}

theorem exists_longestMatch (hcovered : ∃ route ∈ table, covers route) :
    ∃ route, LongestMatch covers length table route := by
  have hfinite : {route | route ∈ table ∧ covers route}.Finite :=
    (List.finite_toSet table).subset fun route hroute => hroute.1
  obtain ⟨route, ⟨hmem, hroute⟩, hlongest⟩ := Set.exists_max_image _ length hfinite hcovered
  exact ⟨route, hmem, hroute, fun other hother hcovers => hlongest other ⟨hother, hcovers⟩⟩

/-- Where the unwanted routes that cover an address all have one length, and there is one,
the longest routes are all wanted just if some route is longer. -/
theorem longestMatch_wanted_iff {wanted : ρ → Prop} {bound : Nat}
    (hunwanted : ∀ route ∈ table, covers route → ¬wanted route → length route = bound)
    (hsome : ∃ route ∈ table, covers route ∧ ¬wanted route) :
    (∀ route, LongestMatch covers length table route → wanted route) ↔
      ∃ route ∈ table, covers route ∧ bound < length route := by
  constructor
  · intro hwanted
    obtain ⟨route, hmem, hcovers, hnot⟩ := hsome
    have hlength := hunwanted route hmem hcovers hnot
    by_contra hshort
    apply hnot
    apply hwanted
    refine ⟨hmem, hcovers, fun other hother hcovers' => ?_⟩
    by_contra hlonger
    exact hshort ⟨other, hother, hcovers', by omega⟩
  · rintro ⟨longer, hmem, hcovers, hlonger⟩ route hroute
    by_contra hnot
    have hlength := hunwanted route hroute.mem hroute.covered hnot
    have hle := hroute.longest longer hmem hcovers
    omega

end Foundation
