import Mathlib.Data.List.Basic
import Mathlib.Data.List.Flatten

/-!
# Taking a list off in batches

A batch takes entries off the front of a list and has room for some of those it keeps.
Batches with filters of their own take the list apart: each has a segment of it, and
the segments are all of the list.
-/

namespace Foundation

universe u v

variable {α : Type u} {β : Type v}

/-- Take entries off the front until none is left or `room` of them have been kept. -/
def takeBatch (keep : α → Bool) : (room : Nat) → List α → List α × List α
  | 0, entries => ([], entries)
  | _ + 1, [] => ([], [])
  | room + 1, entry :: entries =>
      if keep entry then
        let taken := takeBatch keep room entries
        (entry :: taken.1, taken.2)
      else takeBatch keep (room + 1) entries

@[simp] theorem takeBatch_zero (keep : α → Bool) (entries : List α) :
    takeBatch keep 0 entries = ([], entries) := by
  cases entries <;> rfl

/-- What a batch takes off the list is a segment of it, kept in order. -/
theorem takeBatch_segment (keep : α → Bool) (room : Nat) (entries : List α) :
    ∃ segment, segment ++ (takeBatch keep room entries).2 = entries ∧
      (takeBatch keep room entries).1 = segment.filter keep := by
  induction entries generalizing room with
  | nil => cases room <;> exact ⟨[], rfl, rfl⟩
  | cons entry entries ih =>
      cases room with
      | zero => exact ⟨[], rfl, rfl⟩
      | succ room =>
          unfold takeBatch
          split
          next hkeep =>
            obtain ⟨segment, hsegment, hkept⟩ := ih room
            refine ⟨entry :: segment, ?_, ?_⟩
            · rw [List.cons_append, hsegment]
            · rw [List.filter_cons_of_pos hkeep, ← hkept]
          next hskip =>
            obtain ⟨segment, hsegment, hkept⟩ := ih (room + 1)
            refine ⟨entry :: segment, ?_, ?_⟩
            · rw [List.cons_append, hsegment]
            · rw [List.filter_cons_of_neg hskip, hkept]

theorem length_takeBatch_le (keep : α → Bool) (room : Nat) (entries : List α) :
    (takeBatch keep room entries).1.length ≤ room := by
  induction entries generalizing room with
  | nil => cases room <;> exact Nat.zero_le _
  | cons entry entries ih =>
      cases room with
      | zero => exact Nat.zero_le _
      | succ room =>
          unfold takeBatch
          split
          next => exact Nat.succ_le_succ (ih room)
          next => exact ih (room + 1)

theorem takeBatch_rest_length_le (keep : α → Bool) (room : Nat) (entries : List α) :
    (takeBatch keep room entries).2.length ≤ entries.length := by
  obtain ⟨segment, hsegment, -⟩ := takeBatch_segment keep room entries
  have := congrArg List.length hsegment
  rw [List.length_append] at this
  omega

/-- A batch with room takes something off, if only to drop it. -/
theorem takeBatch_rest_length_lt (keep : α → Bool) {room : Nat} {entries : List α}
    (hroom : 0 < room) (hentries : entries ≠ []) :
    (takeBatch keep room entries).2.length < entries.length := by
  obtain ⟨room, rfl⟩ := Nat.exists_eq_succ_of_ne_zero (Nat.ne_of_gt hroom)
  obtain ⟨entry, entries, rfl⟩ := List.exists_cons_of_ne_nil hentries
  unfold takeBatch
  split
  next => exact Nat.lt_succ_of_le (takeBatch_rest_length_le keep room entries)
  next => exact Nat.lt_succ_of_le (takeBatch_rest_length_le keep (room + 1) entries)

/-- The entries fall into consecutive segments, one for each batch, and a batch consists of
the entries of its segment that it keeps. -/
def Batched (keep : β → α → Bool) (content : β → List α) (entries : List α)
    (batches : List β) : Prop :=
  ∃ segments : List (List α), segments.flatten = entries ∧
    List.Forall₂ (fun segment batch => content batch = segment.filter (keep batch))
      segments batches

namespace Batched

variable {keep : β → α → Bool} {content : β → List α} {entries : List α} {batches : List β}

theorem nil : Batched keep content [] [] := ⟨[], rfl, .nil⟩

theorem cons {segment : List α} {batch : β} (hbatch : content batch = segment.filter (keep batch))
    (hrest : Batched keep content entries batches) :
    Batched keep content (segment ++ entries) (batch :: batches) := by
  obtain ⟨segments, rfl, hbatches⟩ := hrest
  exact ⟨segment :: segments, rfl, .cons hbatch hbatches⟩

/-- In order, and nothing twice. -/
theorem sublist (hbatched : Batched keep content entries batches) :
    (batches.flatMap content).Sublist entries := by
  obtain ⟨segments, rfl, hbatches⟩ := hbatched
  induction hbatches with
  | nil => exact List.Sublist.refl []
  | cons hbatch _ ih =>
      rw [List.flatMap_cons, List.flatten_cons, hbatch]
      exact List.filter_sublist.append ih

/-- Whatever is in no batch has been turned down by one of them. -/
theorem covers (hbatched : Batched keep content entries batches) {entry : α}
    (hentry : entry ∈ entries) :
    ∃ batch ∈ batches, entry ∈ content batch ∨ keep batch entry = false := by
  obtain ⟨segments, rfl, hbatches⟩ := hbatched
  induction hbatches with
  | nil => cases hentry
  | @cons segment batch segments batches hbatch _ ih =>
      rw [List.flatten_cons, List.mem_append] at hentry
      rcases hentry with hsegment | hrest
      · refine ⟨batch, List.mem_cons_self, ?_⟩
        cases hkeep : keep batch entry with
        | true => exact .inl (hbatch ▸ List.mem_filter.mpr ⟨hsegment, hkeep⟩)
        | false => exact .inr rfl
      · obtain ⟨batch, hbatch, hcovers⟩ := ih hrest
        exact ⟨batch, List.mem_cons_of_mem _ hbatch, hcovers⟩

end Batched

end Foundation
