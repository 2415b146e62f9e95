import Mathlib.Data.List.ReduceOption
import Sharpvpn.Foundation.LatestEntries
import Sharpvpn.Rudp.SendPools

/-!
# The wait list as a queue of latest entries

Runs of calls on an `AckWaitList`, and the entries they leave. While the entries fit the ring
and different packages have different slots, the counters tell which entries have a later one
for their package.
-/

namespace Sharpvpn

open Foundation

inductive WaitOp
  | push (data : PackageData)
  | pop
  deriving DecidableEq, Repr

namespace WaitOp

/-- What a call returns, and the entries it leaves. -/
def on (entries : List PackageData) : WaitOp → Option PackageData × List PackageData
  | push data => (none, entries ++ [data])
  | pop =>
      match takeLatest PackageData.packageId entries with
      | none => (none, entries)
      | some (package, rest) => (some package, rest)

/-- The entries after the calls. -/
def entriesAfter (entries : List PackageData) (ops : List WaitOp) : List PackageData :=
  ops.foldl (fun entries op => (op.on entries).2) entries

/-- What the calls return. -/
def results : List PackageData → List WaitOp → List (Option PackageData)
  | _, [] => []
  | entries, op :: ops => (op.on entries).1 :: results (op.on entries).2 ops

end WaitOp

/-- There is room for the entries, and different packages among them have different slots. -/
structure FitsRing (capacity : Nat) (entries : List PackageData) : Prop where
  room : entries.length ≤ capacity
  slots : ∀ entry ∈ entries, ∀ other ∈ entries,
    entry.packageId % capacity = other.packageId % capacity → entry.packageId = other.packageId

instance (capacity : Nat) (entries : List PackageData) : Decidable (FitsRing capacity entries) :=
  decidable_of_iff (entries.length ≤ capacity ∧ ∀ entry ∈ entries, ∀ other ∈ entries,
      entry.packageId % capacity = other.packageId % capacity →
        entry.packageId = other.packageId)
    ⟨fun hfits => ⟨hfits.1, hfits.2⟩, fun hfits => ⟨hfits.room, hfits.slots⟩⟩

/-- The entries fit the ring before the calls and after each of them. -/
def FitsThroughout (capacity : Nat) : List PackageData → List WaitOp → Prop
  | entries, [] => FitsRing capacity entries
  | entries, op :: ops =>
      FitsRing capacity entries ∧ FitsThroughout capacity (op.on entries).2 ops

instance decidableFitsThroughout (capacity : Nat) : ∀ entries ops,
    Decidable (FitsThroughout capacity entries ops)
  | entries, [] => inferInstanceAs (Decidable (FitsRing capacity entries))
  | entries, op :: ops =>
      have := decidableFitsThroughout capacity (op.on entries).2 ops
      inferInstanceAs (Decidable (FitsRing capacity entries ∧
        FitsThroughout capacity (op.on entries).2 ops))

theorem FitsRing.of_suffix {capacity : Nat} {entries rest : List PackageData}
    (hfits : FitsRing capacity entries) (hsuffix : rest <:+ entries) : FitsRing capacity rest where
  room := hsuffix.length_le.trans hfits.room
  slots := fun entry hentry other hother =>
    hfits.slots entry (hsuffix.subset hentry) other (hsuffix.subset hother)

theorem FitsThroughout.start {capacity : Nat} {entries : List PackageData} {ops : List WaitOp}
    (hfits : FitsThroughout capacity entries ops) : FitsRing capacity entries := by
  cases ops with
  | nil => exact hfits
  | cons op ops => exact hfits.1

theorem FitsThroughout.after {capacity : Nat} {entries : List PackageData} {ops : List WaitOp}
    (hfits : FitsThroughout capacity entries ops) :
    FitsRing capacity (WaitOp.entriesAfter entries ops) := by
  induction ops generalizing entries with
  | nil => exact hfits
  | cons op ops ih => exact ih hfits.2

/-- Pops only shorten the queue. -/
theorem FitsRing.throughout_pops {capacity : Nat} {entries : List PackageData}
    (hfits : FitsRing capacity entries) (calls : Nat) :
    FitsThroughout capacity entries (List.replicate calls .pop) := by
  induction calls generalizing entries with
  | zero => exact hfits
  | succ calls ih =>
      refine ⟨hfits, ih (hfits.of_suffix ?_)⟩
      unfold WaitOp.on
      cases htake : takeLatest PackageData.packageId entries with
      | none => exact List.suffix_refl entries
      | some taken =>
          obtain ⟨passed, htaken⟩ := takenLatest_of_take htake
          exact htaken.suffix

/-- Enough pops empty the queue and return each package once. -/
theorem WaitOp.drain (entries : List PackageData) (calls : Nat) (hcalls : entries.length ≤ calls) :
    entriesAfter entries (List.replicate calls .pop) = [] ∧
      (results entries (List.replicate calls .pop)).reduceOption.map PackageData.packageId =
        (entries.map PackageData.packageId).dedup := by
  induction calls generalizing entries with
  | zero =>
      obtain rfl := List.length_eq_zero_iff.mp (Nat.le_zero.mp hcalls)
      exact ⟨rfl, rfl⟩
  | succ calls ih =>
      rw [List.replicate_succ]
      cases htake : takeLatest PackageData.packageId entries with
      | none =>
          have hnil : entries = [] := by
            by_contra hne
            obtain ⟨package, rest, hsome⟩ := exists_takeLatest PackageData.packageId hne
            rw [htake] at hsome
            cases hsome
          subst hnil
          exact ih [] (Nat.zero_le calls)
      | some taken =>
          obtain ⟨package, rest⟩ := taken
          obtain ⟨passed, htaken⟩ := takenLatest_of_take htake
          have hlength := htaken.length_lt
          obtain ⟨hempty, hreturned⟩ := ih rest (by omega)
          have hon : WaitOp.pop.on entries = (some package, rest) := by
            simp only [on, htake]
          refine ⟨?_, ?_⟩
          · simpa only [entriesAfter, List.foldl_cons, hon] using hempty
          · rw [dedup_of_take htake, ← hreturned]
            simp only [results, hon, List.reduceOption_cons_of_some, List.map_cons]

namespace AckWaitList

variable {capacity : Nat} {list : AckWaitList capacity} {package : PackageData}
  {entries later : List PackageData} {ops : List WaitOp}

/-- A call on the list: what it returns, and the list after it. `none`: the loop of `pop`
leaves the entries. -/
def call (list : AckWaitList capacity) :
    WaitOp → Option (Option PackageData × AckWaitList capacity)
  | .push data => some (none, list.push data)
  | .pop =>
      if list.cursor.len ≤ 0 then some (none, list)
      else
        match list.pop with
        | none => none
        | some (package, rest) => some (some package, rest)

/-- Calls one after the other. -/
def run (list : AckWaitList capacity) :
    List WaitOp → Option (List (Option PackageData) × AckWaitList capacity)
  | [] => some ([], list)
  | op :: ops =>
      match list.call op with
      | none => none
      | some (result, next) =>
          match next.run ops with
          | none => none
          | some (results, final) => some (result :: results, final)

/-- The counter of the first entry says whether its package has a later one. -/
theorem count_front (hlawful : list.Lawful) (hfits : FitsRing capacity list.contents)
    (hlen : 0 < list.cursor.len) :
    list.countList (list.front.packageId % capacity) > 1 ↔
      list.front.packageId ∈ list.skip.contents.map PackageData.packageId := by
  have hcount := countP_skip hlawful hlen (list.front.packageId % capacity)
  rw [if_pos rfl] at hcount
  have hcons := contents_eq_cons hlawful hlen
  have hpos : list.countList (list.front.packageId % capacity) > 1 ↔
      0 < list.skip.contents.countP (inSlot capacity (list.front.packageId % capacity)) := by
    omega
  rw [hpos, List.countP_pos_iff, List.mem_map]
  constructor
  · rintro ⟨entry, hentry, hslot⟩
    refine ⟨entry, hentry, hfits.slots entry ?_ list.front ?_ (by simpa [inSlot] using hslot)⟩
    · rw [hcons]
      exact List.mem_cons_of_mem _ hentry
    · rw [hcons]
      exact List.mem_cons_self
  · rintro ⟨entry, hentry, hid⟩
    exact ⟨entry, hentry, by simp [inSlot, hid]⟩

/-- The loop of `pop` takes the entry that the list of entries yields. -/
theorem popLoop_eq (count : Nat) (hlawful : list.Lawful)
    (hfits : FitsRing capacity list.contents) (hcount : list.cursor.len = count)
    (htake : takeLatest PackageData.packageId list.contents = some (package, later)) :
    ∃ rest, popLoop count list = some (package, rest) ∧ rest.Lawful ∧ rest.contents = later := by
  induction count generalizing list with
  | zero =>
      have hnil : list.contents = [] := Cursor.contents_eq_nil hcount
      rw [hnil] at htake
      cases htake
  | succ count ih =>
      have hlen : 0 < list.cursor.len := by omega
      have hcons := contents_eq_cons hlawful hlen
      rw [hcons, takeLatest] at htake
      unfold popLoop
      split
      next hmore =>
        rw [if_pos ((count_front hlawful hfits hlen).mp hmore)] at htake
        refine ih (hlawful.skip hlen) (hfits.of_suffix ?_) ?_ htake
        · rw [hcons]
          exact List.suffix_cons _ _
        · simp only [skip, Cursor.pop]
          omega
      next hlast =>
        rw [if_neg (mt (count_front hlawful hfits hlen).mpr hlast)] at htake
        obtain ⟨rfl, rfl⟩ := Prod.mk.inj (Option.some.inj htake)
        exact ⟨list.take, rfl, hlawful.take hlen hlast, rfl⟩

/-- A call does to the ring what it does to the list of entries. -/
theorem call_eq (hlawful : list.Lawful) (hfits : FitsRing capacity list.contents) (op : WaitOp)
    (hnext : FitsRing capacity (op.on list.contents).2) :
    ∃ next, list.call op = some ((op.on list.contents).1, next) ∧ next.Lawful ∧
      next.contents = (op.on list.contents).2 := by
  cases op with
  | push data =>
      have hroom : list.cursor.len < capacity := by
        have hlength := hnext.room
        simp only [WaitOp.on, List.length_append, List.length_singleton, contents,
          Cursor.length_contents] at hlength
        omega
      exact ⟨list.push data, rfl, hlawful.push hroom, contents_push hlawful hroom⟩
  | pop =>
      unfold call
      by_cases hempty : list.cursor.len ≤ 0
      · have hnil : list.contents = [] := Cursor.contents_eq_nil (by omega)
        refine ⟨list, ?_, hlawful, ?_⟩
        · simp [hempty, hnil, WaitOp.on, takeLatest]
        · simp [hnil, WaitOp.on, takeLatest]
      · have hne : list.contents ≠ [] := by
          rw [contents_eq_cons hlawful (by omega)]
          exact List.cons_ne_nil _ _
        obtain ⟨package, later, htake⟩ := exists_takeLatest PackageData.packageId hne
        obtain ⟨rest, hpop, hrest, hlater⟩ := popLoop_eq _ hlawful hfits rfl htake
        refine ⟨rest, ?_, hrest, ?_⟩
        · rw [if_neg hempty, pop, hpop]
          simp [WaitOp.on, htake]
        · rw [hlater]
          simp [WaitOp.on, htake]

/-- Calls that keep the entries within the ring do to the ring what they do to the list of
entries. -/
theorem run_eq (hlawful : list.Lawful) (hfits : FitsThroughout capacity list.contents ops) :
    ∃ final, list.run ops = some (WaitOp.results list.contents ops, final) ∧ final.Lawful ∧
      final.contents = WaitOp.entriesAfter list.contents ops := by
  induction ops generalizing list with
  | nil => exact ⟨list, rfl, hlawful, rfl⟩
  | cons op ops ih =>
      obtain ⟨hnow, hrest⟩ := hfits
      obtain ⟨next, hcall, hnext, hcontents⟩ := call_eq hlawful hnow op hrest.start
      rw [← hcontents] at hrest
      obtain ⟨final, hrun, hfinal, hafter⟩ := ih hnext hrest
      refine ⟨final, ?_, hfinal, ?_⟩
      · simp only [run, hcall, hrun, WaitOp.results, hcontents]
      · rw [hafter, hcontents]
        rfl

/-- The counter of a slot that no other package uses counts the entries of its package. -/
theorem countList_eq {id : Nat} (hlawful : list.Lawful)
    (hslot : ∀ entry ∈ list.contents, entry.packageId % capacity = id % capacity →
      entry.packageId = id) :
    list.countList (id % capacity) = (list.contents.map PackageData.packageId).count id := by
  rw [hlawful.counts, List.count_eq_countP, List.countP_map]
  apply List.countP_congr
  intro entry hentry
  simp only [inSlot, Function.comp_apply, beq_iff_eq]
  constructor
  · exact hslot entry hentry
  · intro hid
    rw [hid]

/-- The list holds the entries, counts those of each package, and yields each package's
latest entry. -/
structure KeepsLatest (list : AckWaitList capacity) (entries : List PackageData) : Prop where
  contents : list.contents = entries
  counts : ∀ id, (∀ entry ∈ entries, entry.packageId % capacity = id % capacity →
      entry.packageId = id) →
    list.countList (id % capacity) = (entries.map PackageData.packageId).count id
  -- the loop ends on an entry; those passed over have a later one for their package
  pop : entries ≠ [] → ∃ passed package rest, list.pop = some (package, rest) ∧
    TakenLatest PackageData.packageId entries passed package rest.contents
  drain : ∀ calls, entries.length ≤ calls → ∃ returned emptied,
    list.run (List.replicate calls .pop) = some (returned, emptied) ∧ emptied.contents = [] ∧
      returned.reduceOption.map PackageData.packageId =
        (entries.map PackageData.packageId).dedup

theorem Lawful.keepsLatest (hlawful : list.Lawful) (hfits : FitsRing capacity list.contents) :
    list.KeepsLatest list.contents where
  contents := rfl
  counts := fun _ hslot => countList_eq hlawful hslot
  pop := by
    intro hne
    obtain ⟨package, later, htake⟩ := exists_takeLatest PackageData.packageId hne
    obtain ⟨passed, htaken⟩ := takenLatest_of_take htake
    obtain ⟨rest, hpop, -, rfl⟩ := popLoop_eq _ hlawful hfits rfl htake
    exact ⟨passed, package, rest, hpop, htaken⟩
  drain := by
    intro calls hcalls
    obtain ⟨emptied, hrun, -, hafter⟩ := run_eq hlawful (hfits.throughout_pops calls)
    obtain ⟨hempty, hreturned⟩ := WaitOp.drain list.contents calls hcalls
    exact ⟨_, emptied, hrun, hafter.trans hempty, hreturned⟩

/-- In every run that keeps the entries within the ring, `pop` stays within the entries, and
the list yields the latest entry of each package. -/
theorem run_keepsLatest (hcapacity : 0 < capacity) (hfits : FitsThroughout capacity [] ops) :
    ∃ final, ({} : AckWaitList capacity).run ops = some (WaitOp.results [] ops, final) ∧
      final.KeepsLatest (WaitOp.entriesAfter [] ops) := by
  obtain ⟨final, hrun, hfinal, hafter⟩ := run_eq (lawful_empty hcapacity) hfits
  have hlast := hfits.after
  refine ⟨final, hrun, ?_⟩
  change final.contents = WaitOp.entriesAfter [] ops at hafter
  rw [← hafter] at hlast ⊢
  exact hfinal.keepsLatest hlast

/-- Package 1 was sent twice: its first entry is passed over. -/
theorem run_keepsLatest_resent : ∃ final,
    ({} : AckWaitList 3).run [.push ⟨1, []⟩, .push ⟨2, []⟩, .push ⟨1, []⟩, .pop] =
      some ([none, none, none, some ⟨2, []⟩], final) ∧ final.KeepsLatest [⟨1, []⟩] :=
  run_keepsLatest (by decide) (by decide)

end AckWaitList

end Sharpvpn
