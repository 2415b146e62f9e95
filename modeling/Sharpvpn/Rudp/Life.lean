import Mathlib.Tactic.Common

/-!
# The life of one package

What happens to a single package, counted: its references in the queues, in the wait
list and with the threads, the count that `send_pool` keeps of them, and how often it
was transmitted and asked for again. How often a package can be transmitted and whether
its memory is safe to read are facts about these counts.
-/

namespace Sharpvpn

@[ext]
structure Life where
  /-- The id has been assigned. -/
  born : Bool := false
  /-- The slot of the id holds its package. -/
  stored : Bool := false
  /-- The reference count, while the package is stored. -/
  ref : Int := 0
  queued : Nat := 0
  holding : Nat := 0
  sent : Nat := 0
  waiting : Nat := 0
  /-- With the ack handler, before the test of the send count. -/
  checking : Nat := 0
  /-- With the ack handler, after the test. -/
  passed : Nat := 0
  sends : Nat := 0
  pops : Nat := 0
  timeouts : Nat := 0
  fasts : Nat := 0
  /-- How often the ack handler finished the package. -/
  finished : Nat := 0
  freed : Nat := 0

namespace Life

/-- The references a thread may read the package through. -/
def inHand (life : Life) : Nat :=
  life.holding + life.sent + life.waiting + life.checking + life.passed

def total (life : Life) : Nat := life.queued + life.inHand

/-- One more reference is counted. -/
def reference (life : Life) : Life :=
  { life with ref := if life.stored then life.ref + 1 else life.ref }

/-- One reference less is counted; with the last one the package is deleted. -/
def release (life : Life) : Life :=
  if life.stored then
    if 1 < life.ref then { life with ref := life.ref - 1 }
    else { life with stored := false, ref := 0, freed := life.freed + 1 }
  else life

/-- What a step of the sender can mean for one package. `recent` protects it from being
overwritten; `leaks` allows the steps after which more references are counted than
there are. -/
inductive Step (recent leaks : Prop) (life : Life) : Life → Prop
  | stay : Step recent leaks life life
  | assign (hborn : life.born = false) : Step recent leaks life
      { life with born := true, stored := true, ref := 1, queued := life.queued + 1, sends := 0 }
  /-- A younger id takes the slot. -/
  | evict (hrecent : ¬recent) (hstored : life.stored = true) : Step recent leaks life
      { life with stored := false, ref := 0, freed := life.freed + 1 }
  | miss {queued} (hstored : life.stored = false) (hqueued : life.queued = queued + 1) :
      Step recent leaks life { life with queued }
  | pop {queued} (hstored : life.stored = true) (hqueued : life.queued = queued + 1) :
      Step recent leaks life
        { life with queued, holding := life.holding + 1, pops := life.pops + 1 }
  | send {holding} (hholding : life.holding = holding + 1) : Step recent leaks life
      { life with holding, sent := life.sent + 1, sends := life.sends + 1 }
  | wait {sent} (hsent : life.sent = sent + 1) : Step recent leaks life
      { life with sent, waiting := life.waiting + 1 }
  /-- The ack handler takes an entry of the wait list, and earlier ones are discarded. -/
  | handle {discarded taken waiting} (hwaiting : life.waiting = discarded + (taken + waiting))
      (hleaks : 0 < discarded → life.stored = true → leaks) : Step recent leaks life
      { life with waiting, checking := life.checking + taken }
  | pass {checking} (hchecking : life.checking = checking + 1) (hsends : life.sends ≤ 20) :
      Step recent leaks life { life with checking, passed := life.passed + 1 }
  | drop {checking} (hchecking : life.checking = checking + 1) : Step recent leaks life
      { life with checking, finished := life.finished + 1 }.release
  | settle {passed} (hpassed : life.passed = passed + 1) : Step recent leaks life
      { life with passed, finished := life.finished + 1 }.release
  | timeout {passed} (hpassed : life.passed = passed + 1)
      (hleaks : life.stored = true → leaks) : Step recent leaks life
      { life with passed, queued := life.queued + 1, timeouts := life.timeouts + 1 }.reference
  | fast (hborn : life.born = true) : Step recent leaks life
      { life with queued := life.queued + 1, fasts := life.fasts + 1 }.reference
  /-- Another id of the slot is asked for. -/
  | other (hleaks : life.stored = true → leaks) : Step recent leaks life life.reference

/-- The bounds behind the limit on transmissions. -/
structure Counted (life : Life) : Prop where
  unborn : life.born = false → life.stored = false ∧ life.total = 0 ∧ life.pops = 0 ∧
    life.timeouts = 0 ∧ life.fasts = 0 ∧ life.finished = 0 ∧ life.freed = 0
  placed : life.born = true → life.stored = true ∨ 0 < life.freed
  total_le : life.total ≤ 1 + life.fasts
  sends_eq : life.sends + life.holding = life.pops
  pops_le : life.pops + life.queued ≤ 1 + life.fasts + life.timeouts
  limit : life.pops + life.queued + life.passed ≤ 21 + life.fasts

/-- Every reference of a stored package is counted, and so is every timeout. -/
structure Sound (life : Life) : Prop where
  referenced : life.stored = true → (life.total + life.timeouts : Nat) ≤ life.ref
  alive : life.inHand ≠ 0 → life.stored = true
  gone : life.freed ≠ 0 → life.stored = false

/-- The references of a stored package are counted exactly. -/
def Balanced (life : Life) : Prop :=
  life.stored = true → life.ref = life.total ∧ 0 < life.total

variable {recent leaks : Prop} {life next : Life}

@[simp] theorem inHand_reference : life.reference.inHand = life.inHand := rfl

@[simp] theorem total_reference : life.reference.total = life.total := rfl

/-- A package with a reference has been assigned. -/
theorem Counted.born (hcounted : life.Counted) (htotal : 0 < life.total) : life.born = true := by
  by_contra hborn
  have := (hcounted.unborn (by simpa using hborn)).2.1
  omega

/-- For an assigned package only its place and the bounds are left to check. -/
theorem Counted.of_born (hborn : life.born = true) (hplaced : life.stored = true ∨ 0 < life.freed)
    (htotal : life.total ≤ 1 + life.fasts) (hsends : life.sends + life.holding = life.pops)
    (hpops : life.pops + life.queued ≤ 1 + life.fasts + life.timeouts)
    (hlimit : life.pops + life.queued + life.passed ≤ 21 + life.fasts) : life.Counted :=
  ⟨fun hunborn => absurd (hborn.symm.trans hunborn) (by decide), fun _ => hplaced, htotal, hsends,
    hpops, hlimit⟩

/-- The bounds do not depend on the reference count. -/
theorem Counted.release (hcounted : life.Counted) (hborn : life.born = true) :
    life.release.Counted := by
  obtain ⟨_, hplaced, hle, hsends, hpops, hlimit⟩ := hcounted
  unfold Life.release
  split
  next hstored =>
    split
    next => exact .of_born hborn (.inl hstored) hle hsends hpops hlimit
    next => exact .of_born hborn (.inr (Nat.succ_pos _)) hle hsends hpops hlimit
  next => exact .of_born hborn (hplaced hborn) hle hsends hpops hlimit

/-- Losing a reference keeps the bounds. -/
theorem Counted.lose {queued waiting checking passed finished : Nat} (hcounted : life.Counted)
    (hborn : life.born = true) (hqueued : queued ≤ life.queued) (hpassed : passed ≤ life.passed)
    (htotal : queued + waiting + checking + passed ≤
      life.queued + life.waiting + life.checking + life.passed) :
    { life with queued, waiting, checking, passed, finished }.Counted := by
  obtain ⟨_, hplaced, hle, hsends, hpops, hlimit⟩ := hcounted
  simp only [total, inHand] at hle
  refine .of_born hborn (hplaced hborn) ?_ hsends ?_ ?_ <;> simp only [total, inHand] <;> omega

theorem Counted.step (hcounted : life.Counted) (hstep : Step recent leaks life next) :
    next.Counted := by
  have hborn := hcounted.born
  have hplaced := hcounted.placed
  have hle := hcounted.total_le
  have hsendsEq := hcounted.sends_eq
  have hpops := hcounted.pops_le
  have hlimit := hcounted.limit
  simp only [total, inHand] at hborn hle
  cases hstep with
  | stay => exact hcounted
  | assign hfresh =>
      obtain ⟨_, hnone, hnopops, hnotimeouts, hnofasts, _⟩ := hcounted.unborn hfresh
      simp only [total, inHand] at hnone
      refine .of_born rfl (.inl rfl) ?_ ?_ ?_ ?_ <;> simp only [total, inHand] <;> omega
  | evict _ hstored =>
      refine .of_born ?_ (.inr (Nat.succ_pos _)) hle hsendsEq hpops hlimit
      by_contra hunborn
      rw [(hcounted.unborn (by simpa using hunborn)).1] at hstored
      cases hstored
  | miss _ hqueued => exact hcounted.lose (hborn (by omega)) (by omega) (Nat.le_refl _) (by omega)
  | @handle discarded taken waiting hwaiting =>
      by_cases hsome : 0 < life.waiting
      · exact hcounted.lose (hborn (by omega)) (Nat.le_refl _) (Nat.le_refl _) (by omega)
      · obtain ⟨rfl, rfl⟩ : taken = 0 ∧ waiting = life.waiting := by omega
        exact hcounted
  | pop _ hqueued | send hholding | wait hsent =>
      refine .of_born (hborn (by omega)) (hplaced (hborn (by omega))) ?_ ?_ ?_ ?_ <;>
        simp only [total, inHand] <;> omega
  | pass hchecking hsends =>
      -- Of at most `1 + fasts` references one is being checked, after 20 sends or fewer.
      refine .of_born (hborn (by omega)) (hplaced (hborn (by omega))) ?_ hsendsEq hpops ?_ <;>
        simp only [total, inHand] <;> omega
  | drop hchecking =>
      have hassigned := hborn (by omega)
      exact (hcounted.lose hassigned (Nat.le_refl _) (Nat.le_refl _) (by omega)).release hassigned
  | settle hpassed =>
      have hassigned := hborn (by omega)
      exact (hcounted.lose hassigned (Nat.le_refl _) (by omega) (by omega)).release hassigned
  | timeout hpassed =>
      refine .of_born (hborn (by omega)) (hplaced (hborn (by omega))) ?_ hsendsEq ?_ ?_ <;>
        simp only [reference, total, inHand] <;> omega
  | fast hassigned =>
      refine .of_born hassigned (hplaced hassigned) ?_ hsendsEq ?_ ?_ <;>
        simp only [reference, total, inHand] <;> omega
  | other => exact ⟨hcounted.unborn, hplaced, hle, hsendsEq, hpops, hlimit⟩

/-- The steps that only move references, or lose some of them. -/
theorem Sound.move (hsound : life.Sound) (hstored : next.stored = life.stored)
    (href : life.stored = true → life.ref ≤ next.ref)
    (htotal : life.stored = true → next.total + next.timeouts ≤ life.total + life.timeouts)
    (hinHand : next.inHand ≠ 0 → life.inHand ≠ 0 ∨ life.stored = true)
    (hfreed : next.freed = life.freed) : next.Sound := by
  refine ⟨?_, ?_, ?_⟩
  · intro hnext
    rw [hstored] at hnext
    have := hsound.referenced hnext
    have := href hnext
    have := htotal hnext
    omega
  · intro hhand
    rw [hstored]
    exact (hinHand hhand).elim hsound.alive id
  · rw [hfreed, hstored]
    exact hsound.gone

/-- Releasing a reference that is no longer there. -/
theorem Sound.release (hgone : life.freed ≠ 0 → life.stored = false)
    (halive : life.inHand ≠ 0 → life.stored = true)
    (href : life.stored = true → ((life.total + 1 + life.timeouts : Nat) : Int) ≤ life.ref) :
    life.release.Sound := by
  unfold Life.release
  split
  next hstored =>
    have hcount := href hstored
    split
    next =>
      refine ⟨fun _ => ?_, halive, hgone⟩
      show ((life.total + life.timeouts : Nat) : Int) ≤ life.ref - 1
      omega
    next hlast =>
      -- With the last counted reference gone there is none in a thread's hands.
      have hnone : life.inHand = 0 := by
        unfold total at hcount
        omega
      exact ⟨by rintro ⟨⟩, fun hhand => absurd hnone hhand, fun _ => rfl⟩
  next hnone => exact ⟨fun hstored => absurd hstored hnone, halive, hgone⟩

/-- Counting a reference that is already there. -/
theorem Sound.reference (hgone : life.freed ≠ 0 → life.stored = false)
    (halive : life.inHand ≠ 0 → life.stored = true)
    (href : life.stored = true → ((life.total + life.timeouts : Nat) : Int) ≤ life.ref + 1) :
    life.reference.Sound := by
  refine ⟨fun hstored => ?_, halive, hgone⟩
  have hstored : life.stored = true := hstored
  simp only [Life.reference, hstored, if_true]
  exact href hstored

theorem Sound.step (hcounted : life.Counted) (hsound : life.Sound)
    (hstep : Step recent leaks life next) (hrecent : 0 < next.total → recent) : next.Sound := by
  cases hstep with
  | stay => exact hsound
  | assign hfresh =>
      obtain ⟨hgone, hnone, _, hnotimeouts, _, _, hnofreed⟩ := hcounted.unborn hfresh
      refine ⟨fun _ => ?_, fun _ => rfl, fun hfreed => absurd hnofreed hfreed⟩
      simp only [total, inHand] at hnone ⊢
      omega
  | evict hold =>
      have hnone : life.total = 0 := by
        by_contra hsome
        exact hold (hrecent (Nat.pos_of_ne_zero hsome))
      refine ⟨by rintro ⟨⟩, fun hhand => ?_, fun _ => rfl⟩
      unfold total at hnone
      exact absurd (Nat.eq_zero_of_add_eq_zero_left hnone) hhand
  | miss hgone hqueued =>
      refine hsound.move rfl (fun _ => Int.le_refl _) (fun hstored => ?_) .inl rfl
      rw [hgone] at hstored
      cases hstored
  | pop hstored hqueued =>
      refine hsound.move rfl (fun _ => Int.le_refl _) (fun _ => ?_) (fun _ => .inr hstored) rfl
      simp only [total, inHand]
      omega
  | send hmoved | wait hmoved | pass hmoved | handle hmoved =>
      refine hsound.move rfl (fun _ => Int.le_refl _) (fun _ => ?_) (fun _ => .inl ?_) rfl <;>
        simp only [total, inHand] at * <;> omega
  | drop hmoved | settle hmoved =>
      have hhand := hsound.alive
      have hcount := hsound.referenced
      refine .release hsound.gone (fun _ => hhand ?_) (fun hstored => ?_)
      · simp only [inHand]
        omega
      · have := hcount hstored
        simp only [total, inHand] at this ⊢
        omega
  | timeout hpassed =>
      have halive := hsound.alive
      have hcount := hsound.referenced
      refine .reference hsound.gone (fun hhand => halive ?_) (fun hstored => ?_)
      · simp only [inHand] at hhand ⊢
        omega
      · have := hcount hstored
        simp only [total, inHand] at this ⊢
        omega
  | fast =>
      have hcount := hsound.referenced
      refine .reference hsound.gone hsound.alive (fun hstored => ?_)
      have := hcount hstored
      simp only [total, inHand] at this ⊢
      omega
  | other =>
      refine .reference hsound.gone hsound.alive (fun hstored => ?_)
      have := hsound.referenced hstored
      omega

/-- A package given up after more than 20 sends outlives the release: it has timed out
often enough, and no release has answered the timeouts. -/
theorem Sound.outlives (hcounted : life.Counted) (hsound : life.Sound)
    (hchecking : 0 < life.checking) (hsends : 20 < life.sends) (hfasts : life.fasts ≤ 1) :
    life.stored = true ∧ 1 < life.ref := by
  have hstored := hsound.alive (by simp only [inHand]; omega)
  have hcount := hsound.referenced hstored
  have hpops := hcounted.pops_le
  have hsendsEq := hcounted.sends_eq
  exact ⟨hstored, by omega⟩

/-- Without leaks every reference that goes is released. -/
theorem Balanced.release (hbalanced : life.stored = true → life.ref = life.total + 1) :
    life.release.Balanced := by
  intro hstored
  unfold Life.release at hstored ⊢
  split at hstored
  next hheld =>
    rw [if_pos hheld]
    split at hstored
    next hmore =>
      rw [if_pos hmore]
      have := hbalanced hheld
      show life.ref - 1 = life.total ∧ 0 < life.total
      omega
    next => cases hstored
  next hgone => exact absurd hstored hgone

/-- The reference that is asked for is there. -/
theorem Balanced.reference (hbalanced : life.stored = true → life.ref + 1 = life.total)
    (hreferenced : 0 < life.total) : life.reference.Balanced := by
  intro hstored
  have hstored : life.stored = true := hstored
  simp only [Life.reference, hstored, if_true]
  exact ⟨hbalanced hstored, hreferenced⟩

theorem Balanced.step (hcounted : life.Counted) (hbalanced : life.Balanced)
    (hstep : Step recent leaks life next) (hleaks : life.stored = true → ¬leaks) :
    next.Balanced := by
  unfold Balanced at hbalanced
  simp only [total, inHand] at hbalanced
  cases hstep with
  | stay => exact hbalanced
  | assign hfresh =>
      obtain ⟨_, hnone, _⟩ := hcounted.unborn hfresh
      simp only [total, inHand] at hnone
      intro _
      simp only [total, inHand]
      omega
  | evict => rintro ⟨⟩
  | miss hgone =>
      intro hstored
      rw [hgone] at hstored
      cases hstored
  | pop _ hmoved | send hmoved | wait hmoved | pass hmoved =>
      intro hstored
      have := hbalanced hstored
      simp only [total, inHand]
      omega
  | @handle discarded _ _ hmoved hdiscarded =>
      intro hstored
      have := hbalanced hstored
      have hnone : ¬0 < discarded := fun hpos => hleaks hstored (hdiscarded hpos hstored)
      simp only [total, inHand]
      omega
  | drop hmoved | settle hmoved =>
      refine .release fun hstored => ?_
      have := hbalanced hstored
      simp only [total, inHand]
      omega
  | timeout _ hasked => exact fun hstored => absurd (hasked hstored) (hleaks hstored)
  | fast =>
      refine .reference (fun hstored => ?_) ?_
      · have := hbalanced hstored
        simp only [total, inHand]
        omega
      · simp only [total]
        omega
  | other hasked => exact fun hstored => absurd (hasked hstored) (hleaks hstored)

end Life

end Sharpvpn
