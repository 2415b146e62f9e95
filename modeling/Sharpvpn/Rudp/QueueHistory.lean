import Mathlib.Data.List.Infix
import Sharpvpn.Rudp.SendPools

/-!
# The queue map and the history of its calls

What a `PackageQueueMap` returns, told from the calls that have been made on it. Histories
start with the latest call. The queues are plain lists of ids; the data of an id stays until
another id takes its slot, or its erasures outnumber the resend requests for the slot.
-/

namespace Sharpvpn

open Foundation

inductive QueueOp
  /-- `push(PackageData *, uint64_t)` -/
  | push (data : PackageData) (id : Nat)
  /-- `push(uint64_t)` -/
  | pushResend (id : Nat)
  | erase (id : Nat)
  | pop
  deriving DecidableEq, Repr

/-- The requests to resend and the fresh ids, oldest first. -/
structure IdQueues where
  resend : List Nat := []
  fresh : List Nat := []
  deriving DecidableEq, Repr

namespace IdQueues

def on (queues : IdQueues) : QueueOp → IdQueues
  | .push _ id => { queues with fresh := queues.fresh ++ [id] }
  | .pushResend id => { queues with resend := queues.resend ++ [id] }
  | .erase _ => queues
  | .pop =>
      match queues.resend with
      | _ :: rest => { queues with resend := rest }
      | [] => { queues with fresh := queues.fresh.tail }

/-- The id that is popped next. -/
def first (queues : IdQueues) : Option Nat :=
  match queues.resend with
  | id :: _ => some id
  | [] => queues.fresh.head?

/-- The queues after a history. -/
def after (history : List QueueOp) : IdQueues :=
  history.foldr (fun op queues => queues.on op) {}

end IdQueues

namespace QueueOp

/-- The id of a call, if it has one, is not 0. -/
def Proper : QueueOp → Prop
  | push _ id | pushResend id | erase id => id ≠ 0
  | pop => True

instance : ∀ op : QueueOp, Decidable op.Proper
  | push _ id => inferInstanceAs (Decidable (id ≠ 0))
  | pushResend id => inferInstanceAs (Decidable (id ≠ 0))
  | erase id => inferInstanceAs (Decidable (id ≠ 0))
  | pop => instDecidableTrue

/-- The data a call pushes under the id. -/
def pushes (id : Nat) : QueueOp → Option PackageData
  | push data other => if other = id then some data else none
  | _ => none

/-- A push into the slot of the id. -/
def takesSlot (capacity id : Nat) : QueueOp → Bool
  | push _ other => other % capacity == id % capacity
  | _ => false

/-- A resend request for the slot of the id. -/
def resendsSlot (capacity id : Nat) : QueueOp → Bool
  | pushResend other => other % capacity == id % capacity
  | _ => false

end QueueOp

/-- The data pushed last under the id, and the calls since. -/
def pushedAs (id : Nat) : List QueueOp → Option (PackageData × List QueueOp)
  | [] => none
  | op :: earlier =>
      match op.pushes id with
      | some data => some (data, [])
      | none => (pushedAs id earlier).map fun found => (found.1, op :: found.2)

/-- The number of calls `erase(id)`. -/
def erasures (id : Nat) (since : List QueueOp) : Nat := since.count (.erase id)

/-- The number of resend requests for the slot of the id. -/
def resends (capacity id : Nat) (since : List QueueOp) : Nat :=
  since.countP (QueueOp.resendsSlot capacity id)

/-- The erasures have outnumbered the resend requests at some time. -/
def Outnumbered (capacity id : Nat) (since : List QueueOp) : Prop :=
  ∃ earlier ∈ since.tails, resends capacity id earlier < erasures id earlier

instance (capacity id : Nat) (since : List QueueOp) : Decidable (Outnumbered capacity id since) :=
  inferInstanceAs (Decidable (∃ earlier ∈ since.tails, _))

/-- No other id has taken the slot, and the erasures have never outnumbered the requests. -/
structure Kept (capacity id : Nat) (since : List QueueOp) : Prop where
  held : ∀ op ∈ since, op.takesSlot capacity id = false
  counted : ¬Outnumbered capacity id since

/-- Ids are not 0, and the queues stay within their rings. -/
def FitsQueues (capacity : Nat) : List QueueOp → Prop
  | [] => True
  | op :: earlier =>
      FitsQueues capacity earlier ∧ op.Proper ∧
        (IdQueues.after (op :: earlier)).fresh.length ≤ 2 * capacity ∧
        (IdQueues.after (op :: earlier)).resend.length ≤ capacity

instance decidableFitsQueues (capacity : Nat) : ∀ history, Decidable (FitsQueues capacity history)
  | [] => instDecidableTrue
  | op :: earlier =>
      have := decidableFitsQueues capacity earlier
      inferInstanceAs (Decidable (FitsQueues capacity earlier ∧ op.Proper ∧
        (IdQueues.after (op :: earlier)).fresh.length ≤ 2 * capacity ∧
        (IdQueues.after (op :: earlier)).resend.length ≤ capacity))

namespace PackageQueueMap

variable {capacity : Nat}

/-- The map after a call. -/
def on (map : PackageQueueMap capacity) : QueueOp → PackageQueueMap capacity
  | .push data id => map.push data id
  | .pushResend id => map.pushResend id
  | .erase id => map.erase id
  | .pop => map.pop.2

/-- The map after a history. -/
def after (capacity : Nat) (history : List QueueOp) : PackageQueueMap capacity :=
  history.foldr (fun op map => map.on op) {}

end PackageQueueMap

section Counts

variable {capacity id : Nat} {op : QueueOp} {since : List QueueOp}

theorem outnumbered_cons : Outnumbered capacity id (op :: since) ↔
    resends capacity id (op :: since) < erasures id (op :: since) ∨
      Outnumbered capacity id since := by
  unfold Outnumbered
  rw [List.tails_cons, List.exists_mem_cons_iff]

theorem not_outnumbered_nil : ¬Outnumbered capacity id [] := by
  simp [Outnumbered, resends, erasures]

/-- As long as the data is kept, there are as many requests as erasures. -/
theorem Kept.erasures_le (hkept : Kept capacity id since) :
    erasures id since ≤ resends capacity id since := by
  by_contra hmore
  apply hkept.counted
  exact ⟨since, (List.mem_tails _ _).mpr (List.suffix_refl since), by omega⟩

theorem kept_nil : Kept capacity id [] := ⟨by rintro _ ⟨⟩, not_outnumbered_nil⟩

theorem kept_cons : Kept capacity id (op :: since) ↔
    Kept capacity id since ∧ op.takesSlot capacity id = false ∧
      erasures id (op :: since) ≤ resends capacity id (op :: since) := by
  constructor
  · rintro ⟨hheld, hcounted⟩
    rw [outnumbered_cons, not_or, Nat.not_lt] at hcounted
    obtain ⟨htakes, hheld⟩ := List.forall_mem_cons.mp hheld
    exact ⟨⟨hheld, hcounted.2⟩, htakes, hcounted.1⟩
  · rintro ⟨⟨hheld, hcounted⟩, htakes, hle⟩
    refine ⟨List.forall_mem_cons.mpr ⟨htakes, hheld⟩, ?_⟩
    rw [outnumbered_cons, not_or, Nat.not_lt]
    exact ⟨hle, hcounted⟩

/-- A call that neither pushes into the slot nor erases the id keeps the data. -/
theorem kept_cons_of_ne (htakes : op.takesSlot capacity id = false) (herase : op ≠ .erase id) :
    Kept capacity id (op :: since) ↔ Kept capacity id since := by
  rw [kept_cons]
  constructor
  · exact And.left
  · intro hkept
    refine ⟨hkept, htakes, ?_⟩
    have hle := hkept.erasures_le
    rw [erasures, List.count_cons_of_ne herase]
    unfold resends at hle ⊢
    rw [List.countP_cons]
    exact Nat.le_add_right_of_le hle

theorem erasures_cons_erase : erasures id (.erase id :: since) = erasures id since + 1 :=
  List.count_cons_self

theorem resends_cons_erase :
    resends capacity id (.erase id :: since) = resends capacity id since :=
  List.countP_cons_of_neg (by simp [QueueOp.resendsSlot])

/-- An erasure of the id keeps the data if more requests than erasures precede it. -/
theorem kept_cons_erase : Kept capacity id (.erase id :: since) ↔
    Kept capacity id since ∧ erasures id since < resends capacity id since := by
  rw [kept_cons, erasures_cons_erase, resends_cons_erase]
  exact and_congr_right fun _ => and_iff_right rfl

theorem pushedAs_push (data : PackageData) (history : List QueueOp) :
    pushedAs id (.push data id :: history) = some (data, []) := by
  simp [pushedAs, QueueOp.pushes]

theorem pushedAs_cons {history : List QueueOp} (hnone : op.pushes id = none) :
    pushedAs id (op :: history) =
      (pushedAs id history).map fun found => (found.1, op :: found.2) := by
  simp only [pushedAs, hnone]

end Counts

/-- The data is the one pushed last under the id, and is kept. -/
structure Live (capacity id : Nat) (history : List QueueOp) (data : PackageData)
    (since : List QueueOp) : Prop where
  pushed : pushedAs id history = some (data, since)
  kept : Kept capacity id since

section Live

variable {capacity id : Nat} {op : QueueOp} {history since : List QueueOp} {data : PackageData}

theorem live_cons (hnone : op.pushes id = none) :
    Live capacity id (op :: history) data since ↔
      ∃ before, since = op :: before ∧ pushedAs id history = some (data, before) ∧
        Kept capacity id (op :: before) := by
  constructor
  · rintro ⟨hpushed, hkept⟩
    rw [pushedAs_cons hnone, Option.map_eq_some_iff] at hpushed
    obtain ⟨⟨found, before⟩, hfound, heq⟩ := hpushed
    obtain ⟨rfl, rfl⟩ := Prod.mk.inj heq
    exact ⟨before, rfl, hfound, hkept⟩
  · rintro ⟨before, rfl, hpushed, hkept⟩
    refine ⟨?_, hkept⟩
    rw [pushedAs_cons hnone, hpushed]
    rfl

/-- No other data is live under the id. -/
theorem Live.unique {other : PackageData} {calls : List QueueOp}
    (hlive : Live capacity id history data since) (hother : Live capacity id history other calls) :
    data = other ∧ since = calls :=
  Prod.mk.inj (Option.some.inj (hlive.pushed.symm.trans hother.pushed))

theorem live_cons_erase : Live capacity id (.erase id :: history) data since ↔
    ∃ before, since = .erase id :: before ∧ Live capacity id history data before ∧
      erasures id before < resends capacity id before := by
  rw [live_cons rfl]
  constructor
  · rintro ⟨before, rfl, hpushed, hkept⟩
    obtain ⟨hkept, hmore⟩ := kept_cons_erase.mp hkept
    exact ⟨before, rfl, ⟨hpushed, hkept⟩, hmore⟩
  · rintro ⟨before, rfl, ⟨hpushed, hkept⟩, hmore⟩
    exact ⟨before, rfl, hpushed, kept_cons_erase.mpr ⟨hkept, hmore⟩⟩

/-- Calls on other ids and slots keep the data. -/
theorem live_cons_of_ne (hnone : op.pushes id = none) (htakes : op.takesSlot capacity id = false)
    (herase : op ≠ .erase id) :
    Live capacity id (op :: history) data since ↔
      ∃ before, since = op :: before ∧ Live capacity id history data before := by
  rw [live_cons hnone]
  constructor
  · rintro ⟨before, rfl, hpushed, hkept⟩
    exact ⟨before, rfl, hpushed, (kept_cons_of_ne htakes herase).mp hkept⟩
  · rintro ⟨before, rfl, hpushed, hkept⟩
    exact ⟨before, rfl, hpushed, (kept_cons_of_ne htakes herase).mpr hkept⟩

end Live

namespace PackageQueueMap

variable {capacity id : Nat} {map : PackageQueueMap capacity} {op : QueueOp}
  {history : List QueueOp}

/-- The slot of the id belongs to it just while its data is kept, and the counter is one more
than the requests exceed the erasures by. -/
structure Remembers (map : PackageQueueMap capacity) (history : List QueueOp) (id : Nat) :
    Prop where
  owner : map.arr (id % capacity) = id ↔ ∃ data since, Live capacity id history data since
  stored : ∀ data since, Live capacity id history data since →
    map.dataList (id % capacity) = some data ∧
      map.ref (id % capacity) = 1 + (resends capacity id since : Int) - erasures id since

/-- No data is live, and the slot is not the id's. -/
theorem remembers_of_lost (harr : map.arr (id % capacity) ≠ id)
    (hlost : ∀ data since, ¬Live capacity id history data since) : map.Remembers history id where
  owner := by
    refine iff_of_false harr ?_
    rintro ⟨data, since, hlive⟩
    exact hlost data since hlive
  stored := fun data since hlive => absurd hlive (hlost data since)

theorem remembers_empty (hid : id ≠ 0) : ({} : PackageQueueMap capacity).Remembers [] id := by
  refine remembers_of_lost hid.symm ?_
  rintro data since ⟨hpushed, -⟩
  cases hpushed

/-- A call that leaves the slot of the id alone. -/
theorem Remembers.frame {next : PackageQueueMap capacity} (hremembers : map.Remembers history id)
    (hnone : op.pushes id = none) (htakes : op.takesSlot capacity id = false)
    (herase : op ≠ .erase id) (harr : next.arr (id % capacity) = id ↔ map.arr (id % capacity) = id)
    (hstored : map.arr (id % capacity) = id →
      next.dataList (id % capacity) = map.dataList (id % capacity) ∧
        next.ref (id % capacity) = map.ref (id % capacity) +
          if op.resendsSlot capacity id then 1 else 0) :
    next.Remembers (op :: history) id where
  owner := by
    rw [harr, hremembers.owner]
    constructor
    · rintro ⟨data, since, hlive⟩
      exact ⟨data, op :: since, (live_cons_of_ne hnone htakes herase).mpr ⟨since, rfl, hlive⟩⟩
    · rintro ⟨data, since, hlive⟩
      obtain ⟨before, -, hbefore⟩ := (live_cons_of_ne hnone htakes herase).mp hlive
      exact ⟨data, before, hbefore⟩
  stored := by
    intro data since hlive
    obtain ⟨before, rfl, hbefore⟩ := (live_cons_of_ne hnone htakes herase).mp hlive
    obtain ⟨hdata, href⟩ := hremembers.stored data before hbefore
    obtain ⟨hsame, hcount⟩ := hstored (hremembers.owner.mpr ⟨data, before, hbefore⟩)
    refine ⟨hsame.trans hdata, ?_⟩
    have herasures : erasures id (op :: before) = erasures id before :=
      List.count_cons_of_ne herase
    have hresends : resends capacity id (op :: before) = resends capacity id before +
        if op.resendsSlot capacity id then 1 else 0 := List.countP_cons
    rw [hcount, href, herasures, hresends]
    split
    · push_cast
      omega
    · omega

theorem Remembers.push {data : PackageData} {other : Nat} (hremembers : map.Remembers history id) :
    (map.push data other).Remembers (.push data other :: history) id := by
  by_cases hsame : other = id
  · subst hsame
    have hpushed : pushedAs other (.push data other :: history) = some (data, []) :=
      pushedAs_push data history
    refine ⟨?_, ?_⟩
    · refine iff_of_true (Function.update_self ..) ⟨data, [], hpushed, kept_nil⟩
    · rintro found since ⟨hfound, -⟩
      obtain ⟨rfl, rfl⟩ := Prod.mk.inj (Option.some.inj (hpushed.symm.trans hfound))
      refine ⟨Function.update_self .., ?_⟩
      simp [PackageQueueMap.push, resends, erasures]
  · have hnone : (QueueOp.push data other).pushes id = none := if_neg hsame
    by_cases hslot : other % capacity = id % capacity
    · -- the other id has taken the slot
      have harr : (map.push data other).arr (id % capacity) = other := by
        simp [PackageQueueMap.push, ← hslot]
      refine remembers_of_lost (by rwa [harr]) fun found since hlive => ?_
      obtain ⟨before, -, -, hkept⟩ := (live_cons hnone).mp hlive
      have htakes := (kept_cons.mp hkept).2.1
      simp [QueueOp.takesSlot, hslot] at htakes
    · refine hremembers.frame hnone (by simp [QueueOp.takesSlot, hslot]) (by rintro ⟨⟩) ?_ ?_
      · simp [PackageQueueMap.push, Ne.symm hslot]
      · intro _
        simp [PackageQueueMap.push, Ne.symm hslot, QueueOp.resendsSlot]

theorem Remembers.pushResend {other : Nat} (hremembers : map.Remembers history id) :
    (map.pushResend other).Remembers (.pushResend other :: history) id := by
  refine hremembers.frame rfl rfl (by rintro ⟨⟩) Iff.rfl fun _ => ⟨rfl, ?_⟩
  by_cases hslot : other % capacity = id % capacity
  · simp [PackageQueueMap.pushResend, QueueOp.resendsSlot, hslot]
  · simp [PackageQueueMap.pushResend, QueueOp.resendsSlot, hslot, Ne.symm hslot]

theorem Remembers.erase_self (hid : id ≠ 0) (hremembers : map.Remembers history id) :
    (map.erase id).Remembers (.erase id :: history) id := by
  rcases map.erase_cases id with ⟨hother, -, harr, -⟩ | ⟨hheld, hmore, -, harr, href⟩ |
    ⟨hheld, hlast, -, harr, -⟩
  · -- the slot was another's, so the data was gone
    refine remembers_of_lost (by rwa [harr]) fun data since hlive => ?_
    obtain ⟨before, -, hbefore, -⟩ := live_cons_erase.mp hlive
    exact hother (hremembers.owner.mpr ⟨data, before, hbefore⟩)
  · obtain ⟨data, before, hbefore⟩ := hremembers.owner.mp hheld
    obtain ⟨hdata, hcount⟩ := hremembers.stored data before hbefore
    refine ⟨?_, ?_⟩
    · rw [harr]
      refine iff_of_true hheld ⟨data, _, live_cons_erase.mpr ⟨before, rfl, hbefore, ?_⟩⟩
      omega
    · intro found since hsome
      obtain ⟨before, rfl, hbefore, -⟩ := live_cons_erase.mp hsome
      obtain ⟨hdata, hcount⟩ := hremembers.stored found before hbefore
      refine ⟨by rw [erase_dataList, hdata], ?_⟩
      rw [href, Function.update_self, hcount, erasures_cons_erase, resends_cons_erase]
      push_cast
      omega
  · -- the last reference is gone
    have hcleared : (map.erase id).arr (id % capacity) = 0 := by
      rw [harr, Function.update_self]
    refine remembers_of_lost (by rw [hcleared]; exact hid.symm) fun data since hlive => ?_
    obtain ⟨before, -, hbefore, hmore⟩ := live_cons_erase.mp hlive
    have hcount := (hremembers.stored data before hbefore).2
    omega

theorem Remembers.erase {other : Nat} (hid : id ≠ 0) (hremembers : map.Remembers history id) :
    (map.erase other).Remembers (.erase other :: history) id := by
  by_cases hsame : other = id
  · subst hsame
    exact hremembers.erase_self hid
  · refine hremembers.frame rfl rfl (by simpa using hsame) ?_ ?_
    · rcases map.erase_cases other with ⟨-, -, harr, -⟩ | ⟨-, -, -, harr, -⟩ |
        ⟨hheld, -, -, harr, -⟩
      · rw [harr]
      · rw [harr]
      · rw [harr]
        by_cases hslot : other % capacity = id % capacity
        · rw [← hslot, Function.update_self, hheld]
          exact iff_of_false hid.symm hsame
        · rw [Function.update_of_ne (Ne.symm hslot)]
    · intro howner
      refine ⟨by rw [erase_dataList], ?_⟩
      -- a slot of the id is not the other id's
      have hslot : map.arr (other % capacity) = other → id % capacity ≠ other % capacity := by
        intro hheld heq
        rw [heq, hheld] at howner
        exact hsame howner
      rcases map.erase_cases other with ⟨-, -, -, href⟩ | ⟨hheld, -, -, -, href⟩ |
        ⟨hheld, -, -, -, href⟩
      · simp [href, QueueOp.resendsSlot]
      · rw [href, Function.update_of_ne (hslot hheld)]
        simp [QueueOp.resendsSlot]
      · rw [href, Function.update_of_ne (hslot hheld)]
        simp [QueueOp.resendsSlot]

theorem pop_snd (map : PackageQueueMap capacity) :
    map.pop.2 = if map.size = 0 then map else map.popRest := by
  unfold pop size
  by_cases hempty : map.resendCursor.len + map.queueCursor.len = 0
  · rw [if_pos (by omega), if_pos hempty]
  · rw [if_neg (by omega), if_neg hempty]
    split <;> rfl

theorem Remembers.pop (hremembers : map.Remembers history id) :
    map.pop.2.Remembers (.pop :: history) id := by
  rw [pop_snd]
  refine hremembers.frame rfl rfl (by rintro ⟨⟩) ?_ ?_
  · split
    · exact Iff.rfl
    · rw [popRest_arr]
  · intro _
    split
    · exact ⟨rfl, by simp [QueueOp.resendsSlot]⟩
    · simp [QueueOp.resendsSlot]

/-- Every call keeps what is known of an id. -/
theorem Remembers.on (hid : id ≠ 0) (hremembers : map.Remembers history id) (op : QueueOp) :
    (map.on op).Remembers (op :: history) id := by
  cases op with
  | push data other => exact hremembers.push
  | pushResend other => exact hremembers.pushResend
  | erase other => exact hremembers.erase hid
  | pop => exact hremembers.pop

theorem remembers_after (hid : id ≠ 0) (history : List QueueOp) :
    (after capacity history).Remembers history id := by
  induction history with
  | nil => exact remembers_empty hid
  | cons op history ih => exact ih.on hid op

end PackageQueueMap

end Sharpvpn
