import Sharpvpn.Rudp.QueueHistory

/-!
# The queue map as two queues over counted references

The rings of a `PackageQueueMap` hold the requests to resend and the fresh ids while neither
is overrun, and what is known of the slots decides what `pop` returns and `erase` deletes.
-/

namespace Sharpvpn

open Foundation

namespace PackageQueueMap

variable {capacity id : Nat} {map : PackageQueueMap capacity} {op : QueueOp}
  {history : List QueueOp}

/-- The rings hold the two queues. -/
structure Queues (map : PackageQueueMap capacity) (queues : IdQueues) : Prop where
  lawful : map.Lawful
  fresh : map.fresh = queues.fresh
  resend : map.resend = queues.resend

variable {queues : IdQueues}

theorem Queues.fresh_length (hqueues : map.Queues queues) :
    map.queueCursor.len = queues.fresh.length := by
  rw [← hqueues.fresh, PackageQueueMap.fresh, Cursor.length_contents]

theorem Queues.resend_length (hqueues : map.Queues queues) :
    map.resendCursor.len = queues.resend.length := by
  rw [← hqueues.resend, PackageQueueMap.resend, Cursor.length_contents]

/-- A resend request is popped before the fresh ids. -/
theorem Queues.pop_resend {first : Nat} {rest : List Nat} (hqueues : map.Queues queues)
    (hresend : queues.resend = first :: rest) :
    map.popId = first ∧ map.pop.2.Queues (queues.on .pop) := by
  have hlength := hqueues.resend_length
  rw [hresend, List.length_cons] at hlength
  have hsize : map.size ≠ 0 := by
    unfold size
    omega
  have hcons := resend_eq_cons hqueues.lawful (by omega)
  rw [hqueues.resend, hresend] at hcons
  obtain ⟨hfirst, hrest⟩ := List.cons.inj hcons
  have hon : queues.on .pop = { queues with resend := rest } := by
    simp only [IdQueues.on, hresend]
  have hpopRest : map.popRest = { map with resendCursor := map.resendCursor.pop capacity } :=
    if_pos (by omega)
  refine ⟨?_, ?_⟩
  · rw [hfirst]
    exact if_pos (by omega)
  · have hlawful := hqueues.lawful.popRest (Nat.pos_of_ne_zero hsize)
    rw [pop_snd, if_neg hsize, hon]
    rw [hpopRest] at hlawful ⊢
    exact ⟨hlawful, hqueues.fresh, hrest.symm⟩

theorem Queues.pop_fresh (hqueues : map.Queues queues) (hresend : queues.resend = []) :
    (∀ first ∈ queues.fresh.head?, map.popId = first) ∧ map.pop.2.Queues (queues.on .pop) := by
  have hlength := hqueues.resend_length
  rw [hresend, List.length_nil] at hlength
  have hon : queues.on .pop = { queues with fresh := queues.fresh.tail } := by
    simp only [IdQueues.on, hresend]
  rw [hon, pop_snd]
  have hfreshLength := hqueues.fresh_length
  cases hfresh : queues.fresh with
  | nil =>
      rw [hfresh, List.length_nil] at hfreshLength
      have hsize : map.size = 0 := by
        unfold size
        omega
      rw [if_pos hsize]
      exact ⟨by rintro _ ⟨⟩, hqueues.lawful, hqueues.fresh.trans hfresh, hqueues.resend⟩
  | cons first rest =>
      rw [hfresh, List.length_cons] at hfreshLength
      have hsize : map.size ≠ 0 := by
        unfold size
        omega
      have hcons := fresh_eq_cons hqueues.lawful (by omega)
      rw [hqueues.fresh, hfresh] at hcons
      obtain ⟨hfirst, hrest⟩ := List.cons.inj hcons
      have hpopRest : map.popRest =
          { map with queueCursor := map.queueCursor.pop (2 * capacity) } := if_neg (by omega)
      refine ⟨?_, ?_⟩
      · rintro other hother
        rw [List.head?_cons, Option.mem_some_iff] at hother
        rw [← hother, hfirst]
        exact if_neg (by omega)
      · have hlawful := hqueues.lawful.popRest (Nat.pos_of_ne_zero hsize)
        rw [if_neg hsize]
        rw [hpopRest] at hlawful ⊢
        exact ⟨hlawful, hrest.symm, hqueues.resend⟩

theorem Queues.pop (hqueues : map.Queues queues) : map.pop.2.Queues (queues.on .pop) := by
  cases hresend : queues.resend with
  | nil => exact (hqueues.pop_fresh hresend).2
  | cons first rest => exact (hqueues.pop_resend hresend).2

/-- The id popped is the first of the queues. -/
theorem Queues.popId_eq {first : Nat} (hqueues : map.Queues queues)
    (hfirst : queues.first = some first) : map.popId = first := by
  unfold IdQueues.first at hfirst
  split at hfirst
  next id rest hresend =>
    obtain rfl := Option.some.inj hfirst
    exact (hqueues.pop_resend hresend).1
  next hresend => exact (hqueues.pop_fresh hresend).1 first hfirst

/-- A call does to the rings what it does to the queues. -/
theorem Queues.on (hqueues : map.Queues queues) (op : QueueOp)
    (hfresh : (queues.on op).fresh.length ≤ 2 * capacity)
    (hresend : (queues.on op).resend.length ≤ capacity) : (map.on op).Queues (queues.on op) := by
  cases op with
  | push data id =>
      have hroom : map.queueCursor.len < 2 * capacity := by
        rw [hqueues.fresh_length]
        simpa [IdQueues.on, Nat.succ_le_iff] using hfresh
      refine ⟨hqueues.lawful.push hroom, ?_, hqueues.resend⟩
      exact (fresh_push hqueues.lawful hroom).trans (congrArg (· ++ [id]) hqueues.fresh)
  | pushResend id =>
      have hroom : map.resendCursor.len < capacity := by
        rw [hqueues.resend_length]
        simpa [IdQueues.on, Nat.succ_le_iff] using hresend
      refine ⟨hqueues.lawful.pushResend hroom, hqueues.fresh, ?_⟩
      exact (resend_pushResend hqueues.lawful hroom).trans
        (congrArg (· ++ [id]) hqueues.resend)
  | erase id =>
      exact ⟨hqueues.lawful.erase, fresh_erase.trans hqueues.fresh,
        resend_erase.trans hqueues.resend⟩
  | pop => exact hqueues.pop

theorem queues_after (hcapacity : 0 < capacity) (hfits : FitsQueues capacity history) :
    (after capacity history).Queues (IdQueues.after history) := by
  induction history with
  | nil => exact ⟨lawful_empty hcapacity, rfl, rfl⟩
  | cons op history ih =>
      obtain ⟨hearlier, -, hfresh, hresend⟩ := hfits
      exact (ih hearlier).on op hfresh hresend

/-- The map returns what two queues over a map with reference counts do: `pop` the data of
the first id as long as it is live, and null otherwise. An erasure deletes live data with its
last reference. -/
structure Refines (map : PackageQueueMap capacity) (history : List QueueOp) : Prop where
  resend : map.resend = (IdQueues.after history).resend
  fresh : map.fresh = (IdQueues.after history).fresh
  size : map.size =
    (IdQueues.after history).resend.length + (IdQueues.after history).fresh.length
  popEmpty : (IdQueues.after history).first = none → map.pop = (none, map)
  pop : ∀ id, (IdQueues.after history).first = some id → map.popId = id ∧
    ∀ data, map.pop.1 = some data ↔ ∃ since, Live capacity id history data since
  erase : ∀ id, id ≠ 0 → ∀ data, map.eraseFrees id = some data ↔
    ∃ since, Live capacity id history data since ∧
      resends capacity id since < erasures id since + 1

/-- The erasure of live data deletes it if no more requests precede it. -/
theorem Remembers.eraseFrees_eq {data : PackageData} (hremembers : map.Remembers history id) :
    map.eraseFrees id = some data ↔ ∃ since, Live capacity id history data since ∧
      resends capacity id since < erasures id since + 1 := by
  rcases map.erase_cases id with ⟨hother, hfrees, -⟩ | ⟨hheld, hmore, hfrees, -⟩ |
    ⟨hheld, hlast, hfrees, -⟩
  · rw [hfrees]
    refine iff_of_false (by rintro ⟨⟩) ?_
    rintro ⟨since, hlive, -⟩
    exact hother (hremembers.owner.mpr ⟨data, since, hlive⟩)
  · rw [hfrees]
    refine iff_of_false (by rintro ⟨⟩) ?_
    rintro ⟨since, hlive, hcount⟩
    have href := (hremembers.stored data since hlive).2
    omega
  · obtain ⟨found, since, hlive⟩ := hremembers.owner.mp hheld
    obtain ⟨hdata, href⟩ := hremembers.stored found since hlive
    rw [hfrees, hdata]
    constructor
    · intro hsame
      obtain rfl := Option.some.inj hsame
      exact ⟨since, hlive, by omega⟩
    · rintro ⟨other, hother, -⟩
      rw [(hlive.unique hother).1]

/-- `pop` returns the data of its id while the slot belongs to it. -/
theorem Remembers.pop_eq {data : PackageData} (hremembers : map.Remembers history id)
    (hsize : map.size ≠ 0) (hid : map.popId = id) :
    map.pop.1 = some data ↔ ∃ since, Live capacity id history data since := by
  unfold size at hsize
  unfold PackageQueueMap.pop
  rw [if_neg (by omega), hid]
  by_cases hheld : map.arr (id % capacity) = id
  · obtain ⟨found, since, hlive⟩ := hremembers.owner.mp hheld
    rw [if_neg (not_not.mpr hheld.symm), (hremembers.stored found since hlive).1]
    constructor
    · intro hsame
      obtain rfl := Option.some.inj hsame
      exact ⟨since, hlive⟩
    · rintro ⟨other, hother⟩
      rw [(hlive.unique hother).1]
  · rw [if_pos (Ne.symm hheld)]
    refine iff_of_false (by rintro ⟨⟩) ?_
    rintro ⟨since, hlive⟩
    exact hheld (hremembers.owner.mpr ⟨data, since, hlive⟩)

end PackageQueueMap

/-- No id in the queues is 0. -/
theorem ne_zero_of_fitsQueues {capacity : Nat} {history : List QueueOp}
    (hfits : FitsQueues capacity history) :
    ∀ id ∈ (IdQueues.after history).resend ++ (IdQueues.after history).fresh, id ≠ 0 := by
  induction history with
  | nil => rintro _ ⟨⟩
  | cons op history ih =>
      obtain ⟨hearlier, hproper, -, -⟩ := hfits
      have hids := ih hearlier
      simp only [List.forall_mem_append] at hids ⊢
      obtain ⟨hresend, hfresh⟩ := hids
      change (∀ id ∈ ((IdQueues.after history).on op).resend, id ≠ 0) ∧
        ∀ id ∈ ((IdQueues.after history).on op).fresh, id ≠ 0
      cases op with
      | push data id =>
          refine ⟨hresend, List.forall_mem_append.mpr ⟨hfresh, ?_⟩⟩
          rwa [List.forall_mem_singleton]
      | pushResend id =>
          refine ⟨List.forall_mem_append.mpr ⟨hresend, ?_⟩, hfresh⟩
          rwa [List.forall_mem_singleton]
      | erase id => exact ⟨hresend, hfresh⟩
      | pop =>
          simp only [IdQueues.on]
          split
          next first rest hqueue =>
            rw [hqueue] at hresend
            exact ⟨(List.forall_mem_cons.mp hresend).2, hfresh⟩
          next => exact ⟨hresend, fun id hid => hfresh id (List.mem_of_mem_tail hid)⟩

namespace IdQueues

theorem first_eq (queues : IdQueues) : queues.first = (queues.resend ++ queues.fresh).head? := by
  unfold first
  split
  next first rest hresend => rw [hresend, List.cons_append, List.head?_cons]
  next hresend => rw [hresend, List.nil_append]

end IdQueues

namespace PackageQueueMap

variable {capacity : Nat} {history : List QueueOp}

/-- In every history that keeps the queues within their rings. -/
theorem after_refines (hcapacity : 0 < capacity) (hfits : FitsQueues capacity history) :
    (after capacity history).Refines history := by
  have hqueues := queues_after hcapacity hfits
  have hsize : (after capacity history).size =
      (IdQueues.after history).resend.length + (IdQueues.after history).fresh.length := by
    rw [size, hqueues.resend_length, hqueues.fresh_length]
  refine ⟨hqueues.resend, hqueues.fresh, hsize, ?_, ?_, ?_⟩
  · intro hnone
    rw [IdQueues.first_eq, List.head?_eq_none_iff, List.append_eq_nil_iff] at hnone
    rw [hnone.1, hnone.2] at hsize
    unfold size at hsize
    unfold pop
    exact if_pos (by simp at hsize; omega)
  · intro id hfirst
    have hpopId := hqueues.popId_eq hfirst
    rw [IdQueues.first_eq] at hfirst
    have hmem := List.mem_of_head? hfirst
    have hne : (after capacity history).size ≠ 0 := by
      rw [hsize, ← List.length_append]
      exact (List.length_pos_of_mem hmem).ne'
    refine ⟨hpopId, fun data => ?_⟩
    exact (remembers_after (ne_zero_of_fitsQueues hfits id hmem) history).pop_eq hne hpopId
  · intro id hid data
    exact (remembers_after hid history).eraseFrees_eq

/-- A package is pushed, requested again and erased: its first erasure leaves it there. -/
theorem after_refines_resent :
    (after 2 [.erase 1, .pop, .pushResend 1, .push ⟨1, []⟩ 1]).Refines
      [.erase 1, .pop, .pushResend 1, .push ⟨1, []⟩ 1] :=
  after_refines (by decide) (by decide)

/-- The first erasure of an id outnumbers the requests, but its data is gone: another id has
taken the slot. -/
theorem eraseFrees_replaced :
    FitsQueues 2 [.push ⟨3, []⟩ 3, .push ⟨1, []⟩ 1] ∧
      pushedAs 1 [.push ⟨3, []⟩ 3, .push ⟨1, []⟩ 1] = some (⟨1, []⟩, [.push ⟨3, []⟩ 3]) ∧
      ¬Outnumbered 2 1 [.push ⟨3, []⟩ 3] ∧
      resends 2 1 [.push ⟨3, []⟩ 3] < erasures 1 [.push ⟨3, []⟩ 3] + 1 ∧
      (after 2 [.push ⟨3, []⟩ 3, .push ⟨1, []⟩ 1]).eraseFrees 1 = none := by
  decide

end PackageQueueMap

end Sharpvpn
