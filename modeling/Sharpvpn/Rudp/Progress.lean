import Sharpvpn.Rudp.PackLoop

/-!
# Progress of the packing loop

A turn of the outer loop starts with an empty package. It takes nothing off the list when
the first segment does not fit into one, and the next turn is the same.
-/

namespace Sharpvpn

open Foundation

/-- What `turns` turns of the outer loop leave of a list. `none`: a package has outgrown its
buffer. -/
def packLeft (mtu : Int) : (turns : Nat) → List Bytes → Option (List Bytes)
  | 0, segments => some segments
  | turns + 1, segments => (packInner mtu segments []).bind fun inner => packLeft mtu turns inner.2

/-- The sizes of the packages, by the lengths of the segments alone: a package is `written`
bytes long, and takes the next segment with its length word as long as there is room. -/
def packageSizes (room : Int) : (written : Nat) → (lengths : List Nat) → List Nat
  | written, [] => [written]
  | written, length :: lengths =>
      if (written + 2 + length + 2 : Int) < room then
        packageSizes room (written + 2 + length) lengths
      else written :: packageSizes room (2 + length) lengths

/-- The packages fit into `buf`, each with its end mark. -/
def SizesFit (mtu : Int) (written : Nat) (segments : List Bytes) : Prop :=
  ∀ size ∈ packageSizes (maxSegment mtu) written (segments.map List.length),
    (size + 2 : Int) ≤ maxMtu

instance (mtu : Int) (written : Nat) (segments : List Bytes) :
    Decidable (SizesFit mtu written segments) :=
  inferInstanceAs (Decidable (∀ size ∈ _, _))

variable {mtu : Int} {segment body written : Bytes} {segments rest : List Bytes}

section Sizes

/-- The first package only grows. -/
theorem exists_le_packageSizes (room : Int) (size : Nat) (lengths : List Nat) :
    ∃ first ∈ packageSizes room size lengths, size ≤ first := by
  induction lengths generalizing size with
  | nil => exact ⟨size, List.mem_singleton_self size, le_refl size⟩
  | cons length lengths ih =>
      unfold packageSizes
      split
      next =>
        obtain ⟨first, hmem, hle⟩ := ih (size + 2 + length)
        exact ⟨first, hmem, by omega⟩
      next => exact ⟨size, List.mem_cons_self, le_refl size⟩

theorem fitsPackage_iff : fitsPackage mtu segment body = true ↔
    (body.length + 2 + segment.length + 2 : Int) < maxSegment mtu := by
  simp only [fitsPackage, decide_eq_true_eq]
  omega

theorem length_append_frame (body segment : Bytes) :
    (body ++ Framing.frame segment).length = body.length + 2 + segment.length := by
  simp only [List.length_append, Framing.frame, Framing.word, List.length_cons, List.length_nil]
  omega

theorem sizesFit_fits (hfits : fitsPackage mtu segment body = true) :
    SizesFit mtu body.length (segment :: segments) ↔
      SizesFit mtu (body ++ Framing.frame segment).length segments := by
  rw [length_append_frame]
  unfold SizesFit
  rw [List.map_cons, packageSizes, if_pos (fitsPackage_iff.mp hfits)]

/-- A package is closed, and the next one starts with a segment that fits into it. -/
theorem sizesFit_close (hfits : ¬fitsPackage mtu segment body = true)
    (hempty : fitsPackage mtu segment [] = true) (hbody : (body.length + 2 : Int) ≤ maxMtu) :
    SizesFit mtu body.length (segment :: segments) ↔ SizesFit mtu 0 (segment :: segments) := by
  have hstart := fitsPackage_iff.mp hempty
  have hstart : (((0 : Nat) : Int) + 2 + segment.length + 2 : Int) < maxSegment mtu := hstart
  unfold SizesFit
  rw [List.map_cons, packageSizes, if_neg (mt fitsPackage_iff.mpr hfits), packageSizes,
    if_pos hstart, List.forall_mem_cons, Nat.zero_add]
  exact and_iff_right hbody

/-- The inner loop stays within the buffer, and so do the loops after it, exactly when the
sizes do. -/
theorem sizesFit_iff_packInner (hbody : (body.length + 2 : Int) ≤ maxMtu)
    (hsegments : ∀ segment ∈ segments, fitsPackage mtu segment [] = true) :
    SizesFit mtu body.length segments ↔ ∃ inner, packInner mtu segments body = some inner ∧
      (inner.2 ≠ [] → SizesFit mtu 0 inner.2) := by
  induction segments generalizing body with
  | nil => simp [SizesFit, packageSizes, packInner, hbody]
  | cons segment rest ih =>
      obtain ⟨hempty, hrest⟩ := List.forall_mem_cons.mp hsegments
      unfold packInner
      split
      next hfits =>
        rw [sizesFit_fits hfits]
        split
        next hbuffer => exact ih hbuffer hrest
        next hbuffer =>
          refine iff_of_false (fun hsizes => hbuffer ?_) (by simp)
          obtain ⟨first, hmem, hle⟩ := exists_le_packageSizes (maxSegment mtu)
            (body ++ Framing.frame segment).length (rest.map List.length)
          have hfirst := hsizes first hmem
          omega
      next hfits =>
        rw [sizesFit_close hfits hempty hbody]
        simp

theorem sizesFit_iff (hsegments : ∀ segment ∈ segments, fitsPackage mtu segment [] = true) :
    SizesFit mtu 0 segments ↔ ∃ inner, packInner mtu segments [] = some inner ∧
      (inner.2 ≠ [] → SizesFit mtu 0 inner.2) :=
  @sizesFit_iff_packInner mtu [] segments (by decide) hsegments

theorem sizesFit_nil : SizesFit mtu 0 [] := by
  intro size hsize
  obtain rfl := List.mem_singleton.mp hsize
  decide

/-- Up to an mtu of 1689 the fit test alone keeps the packages within the buffer. -/
theorem sizesFit_of_mtu (hmtu : maxSegment mtu ≤ maxMtu + 1)
    (hsegments : ∀ segment ∈ segments, fitsPackage mtu segment [] = true) :
    SizesFit mtu 0 segments := by
  have hsizes : ∀ (lengths : List Nat) (size : Nat), (size + 2 : Int) ≤ maxMtu →
      (∀ length ∈ lengths, (length : Int) < maxSegment mtu - 4) →
      ∀ found ∈ packageSizes (maxSegment mtu) size lengths, (found + 2 : Int) ≤ maxMtu := by
    intro lengths
    induction lengths with
    | nil =>
        intro size hsize _ found hfound
        rwa [List.mem_singleton.mp hfound]
    | cons length lengths ih =>
        intro size hsize hlengths found hfound
        obtain ⟨hlength, hlengths⟩ := List.forall_mem_cons.mp hlengths
        unfold packageSizes at hfound
        split at hfound
        next hfits => exact ih _ (by push_cast; omega) hlengths found hfound
        next =>
          rcases List.mem_cons.mp hfound with rfl | hlater
          · exact hsize
          · exact ih _ (by push_cast; omega) hlengths found hlater
  refine hsizes _ 0 (by decide) fun length hlength => ?_
  obtain ⟨segment, hsegment, rfl⟩ := List.mem_map.mp hlength
  exact fitsPackage_nil.mp (hsegments segment hsegment)

end Sizes

/-- A segment that the inner loop takes off fits into an empty package. -/
theorem mem_packInner (hinner : packInner mtu segments body = some (written, rest))
    (hmem : segment ∈ segments) : fitsPackage mtu segment [] = true ∨ segment ∈ rest := by
  induction segments generalizing body with
  | nil => cases hmem
  | cons first segments ih =>
      unfold packInner at hinner
      split at hinner
      next hfits =>
        split at hinner
        next =>
          rcases List.mem_cons.mp hmem with rfl | hlater
          · exact .inl (fitsPackage.empty hfits)
          · exact ih hinner hlater
        next => cases hinner
      next =>
        cases hinner
        exact .inr hmem

theorem packInner_suffix (hinner : packInner mtu segments body = some (written, rest)) :
    rest <:+ segments := by
  obtain ⟨taken, hsegments, -⟩ := packInner_spec hinner
  exact ⟨taken, hsegments.symm⟩

theorem packInner_stuck (hfits : ¬fitsPackage mtu segment [] = true) :
    packInner mtu (segment :: segments) [] = some ([], segment :: segments) :=
  if_neg hfits

/-- A turn makes progress as soon as the first segment fits. -/
theorem length_packInner_lt (hfits : fitsPackage mtu segment [] = true)
    (hinner : packInner mtu (segment :: segments) [] = some (written, rest)) :
    rest.length < (segment :: segments).length := by
  obtain ⟨taken, hsegments, -⟩ := packInner_takes hfits hinner
  rw [hsegments, List.length_cons, List.length_append]
  omega

/-- A loop that ends has taken every segment off, in packages within their buffer. -/
theorem fits_of_packOuter {turns : Nat} (hloop : (packOuter mtu turns segments).isSome = true) :
    (∀ segment ∈ segments, fitsPackage mtu segment [] = true) ∧ SizesFit mtu 0 segments := by
  induction turns generalizing segments with
  | zero =>
      cases segments with
      | nil => exact ⟨by simp, sizesFit_nil⟩
      | cons first rest => cases hloop
  | succ turns ih =>
      cases segments with
      | nil => exact ⟨by simp, sizesFit_nil⟩
      | cons first rest =>
          obtain ⟨plains, hplains⟩ := Option.isSome_iff_exists.mp hloop
          obtain ⟨⟨written, left⟩, hinner, hnext⟩ := Option.bind_eq_some_iff.mp hplains
          have hleft : (packOuter mtu turns left).isSome = true := by
            dsimp only at hnext
            split at hnext
            next =>
              obtain ⟨others, hothers, -⟩ := Option.map_eq_some_iff.mp hnext
              rw [hothers]
              rfl
            next =>
              rw [hnext]
              rfl
          obtain ⟨hfits, hsizes⟩ := ih hleft
          have hall : ∀ segment ∈ first :: rest, fitsPackage mtu segment [] = true := by
            intro segment hmem
            rcases mem_packInner hinner hmem with htaken | hlater
            · exact htaken
            · exact hfits segment hlater
          exact ⟨hall, (sizesFit_iff hall).mpr
            ⟨_, hinner, fun _ => hsizes⟩⟩

theorem packLeft_succ (turns : Nat) : packLeft mtu (turns + 1) segments =
    (packLeft mtu turns segments).bind fun left => (packInner mtu left []).map Prod.snd := by
  induction turns generalizing segments with
  | zero => cases hinner : packInner mtu segments [] <;> simp [packLeft, hinner]
  | succ turns ih =>
      rw [packLeft]
      cases hinner : packInner mtu segments [] with
      | none => simp [packLeft, hinner]
      | some inner =>
          rw [Option.bind_some, ih, packLeft, hinner, Option.bind_some]

/-- The condition of the loop is kept by its turns. -/
theorem fits_packLeft {turns : Nat} {left : List Bytes}
    (hfits : ∀ segment ∈ segments, fitsPackage mtu segment [] = true)
    (hsizes : SizesFit mtu 0 segments) (hleft : packLeft mtu turns segments = some left) :
    (∀ segment ∈ left, fitsPackage mtu segment [] = true) ∧
      (left ≠ [] → SizesFit mtu 0 left) := by
  induction turns generalizing left with
  | zero =>
      cases hleft
      exact ⟨hfits, fun _ => hsizes⟩
  | succ turns ih =>
      rw [packLeft_succ] at hleft
      obtain ⟨before, hbefore, hturn⟩ := Option.bind_eq_some_iff.mp hleft
      obtain ⟨⟨written, rest⟩, hinner, rfl⟩ := Option.map_eq_some_iff.mp hturn
      obtain ⟨hbeforeFits, hbeforeSizes⟩ := ih hbefore
      refine ⟨fun segment hmem => hbeforeFits segment ((packInner_suffix hinner).subset hmem),
        fun hne => ?_⟩
      have hne' : before ≠ [] := by
        rintro rfl
        cases hinner
        exact hne rfl
      obtain ⟨inner, hfound, hnext⟩ :=
        (sizesFit_iff hbeforeFits).mp (hbeforeSizes hne')
      rw [hinner] at hfound
      cases hfound
      exact hnext hne

/-- The loop ends. -/
theorem packOuter_isSome (turns : Nat) (hturns : segments.length ≤ turns)
    (hfits : ∀ segment ∈ segments, fitsPackage mtu segment [] = true)
    (hsizes : SizesFit mtu 0 segments) : (packOuter mtu turns segments).isSome = true := by
  induction turns generalizing segments with
  | zero =>
      obtain rfl : segments = [] := List.eq_nil_of_length_eq_zero (by omega)
      rfl
  | succ turns ih =>
      cases segments with
      | nil => rfl
      | cons first rest =>
          obtain ⟨⟨written, left⟩, hinner, hnext⟩ :=
            (sizesFit_iff hfits).mp hsizes
          have hshorter := length_packInner_lt (hfits first List.mem_cons_self) hinner
          have hleftFits : ∀ segment ∈ left, fitsPackage mtu segment [] = true :=
            fun segment hmem => hfits segment ((packInner_suffix hinner).subset hmem)
          have hloop : (packOuter mtu turns left).isSome = true := by
            rcases eq_or_ne left [] with rfl | hne
            · cases turns <;> rfl
            · exact ih (by omega) hleftFits (hnext hne)
          rw [packOuter, hinner, Option.bind_some]
          dsimp only
          split
          next => rwa [Option.isSome_map]
          next => exact hloop

/-- Every turn of the outer loop takes a segment off its list, and the loop ends, exactly when
every segment is four bytes shorter than the bound of the fit test and no package outgrows the
buffer. -/
theorem packing_progress_iff (mtu : Int) (segments : List Bytes) :
    ((∀ turn left, packLeft mtu turn segments = some left → left ≠ [] →
          ∃ next, packLeft mtu (turn + 1) segments = some next ∧ next.length < left.length) ∧
        ∃ turns, (packOuter mtu turns segments).isSome = true) ↔
      (∀ segment ∈ segments, (segment.length : Int) < maxSegment mtu - 4) ∧
        ∀ size ∈ packageSizes (maxSegment mtu) 0 (segments.map List.length),
          (size + 2 : Int) ≤ maxMtu := by
  constructor
  · rintro ⟨-, turns, hloop⟩
    obtain ⟨hfits, hsizes⟩ := fits_of_packOuter hloop
    exact ⟨fun segment hmem => fitsPackage_nil.mp (hfits segment hmem), hsizes⟩
  · rintro ⟨hlengths, hsizes⟩
    have hfits : ∀ segment ∈ segments, fitsPackage mtu segment [] = true :=
      fun segment hmem => fitsPackage_nil.mpr (hlengths segment hmem)
    refine ⟨?_, segments.length, packOuter_isSome _ (le_refl _) hfits hsizes⟩
    intro turn left hleft hne
    obtain ⟨hleftFits, hleftSizes⟩ := fits_packLeft hfits hsizes hleft
    obtain ⟨first, rest, rfl⟩ := List.exists_cons_of_ne_nil hne
    -- The segment in front is one of the segments, and it fits.
    obtain ⟨⟨written, next⟩, hinner, -⟩ :=
      (sizesFit_iff hleftFits).mp (hleftSizes hne)
    refine ⟨next, ?_, length_packInner_lt (hleftFits first List.mem_cons_self) hinner⟩
    rw [packLeft_succ, hleft, Option.bind_some, hinner]
    rfl

/-- A token of 1404 bytes under the default mtu: the loop turns on the spot. -/
theorem packing_spins :
    (∀ turn, packLeft 1496 turn [List.replicate 1404 0] = some [List.replicate 1404 0]) ∧
      ∀ turns, packOuter 1496 turns [List.replicate 1404 0] = none := by
  have hfits : ¬fitsPackage 1496 (List.replicate 1404 0) [] = true := by
    rw [fitsPackage_nil, List.length_replicate]
    decide
  constructor
  · intro turn
    induction turn with
    | zero => rfl
    | succ turn ih => rwa [packLeft, packInner_stuck hfits, Option.bind_some]
  · intro turns
    induction turns with
    | zero => rfl
    | succ turns ih =>
        rw [packOuter, packInner_stuck hfits, Option.bind_some]
        exact ih

end Sharpvpn
