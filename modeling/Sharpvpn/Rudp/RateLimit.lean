import Mathlib.Algebra.Order.BigOperators.Group.List
import Sharpvpn.Foundation.Metering
import Sharpvpn.Rudp.SendSide

/-!
# The rate limiter of the sender thread

The sender thread charges the packages it sends to a `Sleeper`, which pauses it whenever the
charge passes 10 KiB. During the fast start each package is sent once more than is charged.
-/

namespace Sharpvpn

open Foundation

/-- `list_package_size` -/
def listPackageSize : Nat := 1024 * 10

/-- Readings of the clock are in microseconds. -/
structure Sleeper where
  start : Int
  sendLen : Nat := 0
  sleepLen : Nat
  sleepTime : Int
  deriving DecidableEq, Repr

namespace Sleeper

/-- What `send_sleep` asks `sleep_for`, once the clock has been read. -/
def pause (sleeper : Sleeper) (now : Int) : Int :=
  let timePass := now - sleeper.start
  if timePass < sleeper.sleepTime then sleeper.sleepTime - timePass else 0

/-- The test of `send_sleep`. -/
def exceeds (sleeper : Sleeper) (len : Nat) : Bool := sleeper.sendLen + len > sleeper.sleepLen

/-- `send_sleep`; `wake` is the reading after the pause. -/
def sendSleep (sleeper : Sleeper) (len : Nat) (wake : Int) : Sleeper :=
  if sleeper.exceeds len then { sleeper with start := wake, sendLen := 0 }
  else { sleeper with sendLen := sleeper.sendLen + len }

end Sleeper

/-- A turn of the loop in which a package is popped, with the readings of the clock that
`send_sleep` makes in it. -/
structure Turn where
  length : Nat
  /-- `send_count` before the turn. -/
  sendCount : Nat
  now : Int
  wake : Int
  deriving DecidableEq, Repr

/-- `list_package_count` -/
def Turn.charge (turn : Turn) : Nat :=
  turn.length + if turn.sendCount + 1 ≥ 2 then turn.length else 0

/-- What a turn of the loop uses besides the package. -/
structure SenderLoop where
  sleeper : Sleeper
  fastStart : Bool := true
  fastStartCount : Nat := 0
  deriving DecidableEq, Repr

/-- A package with its place among those of the thread, and the bytes passed to `sendto` for
it. -/
structure Sent where
  turn : Turn
  place : Nat
  bytes : Nat
  deriving DecidableEq, Repr

/-- The turns from one reset of the `Sleeper` to the next one. -/
structure Cycle where
  body : List Sent
  last : Sent
  start : Int
  stop : Int
  deriving DecidableEq, Repr

def bytesOf (sent : List Sent) : Nat := (sent.map (·.bytes)).sum

namespace SenderLoop

/-- `sleeper.init()` -/
def init (start listPackageUs : Int) : SenderLoop :=
  { sleeper := ⟨start, 0, listPackageSize, listPackageUs⟩ }

/-- The bytes a turn passes to `sendto`. -/
def bytes (loop : SenderLoop) (turn : Turn) : Nat :=
  turn.length + (if turn.sendCount + 1 ≥ 2 then turn.length else 0) +
    if loop.fastStart then turn.length else 0

def next (loop : SenderLoop) (turn : Turn) : SenderLoop where
  sleeper := loop.sleeper.sendSleep turn.charge turn.wake
  fastStart := loop.fastStart && !(loop.fastStartCount + 1 == 10)
  fastStartCount :=
    if !loop.fastStart then loop.fastStartCount
    else if loop.fastStartCount + 1 == 10 then 0
    else loop.fastStartCount + 1

/-- The complete cycles of a run; `body` are the turns since the last reset. -/
def cycles : (place : Nat) → (body : List Sent) → SenderLoop → List Turn → List Cycle
  | _, _, _, [] => []
  | place, body, loop, turn :: turns =>
      if loop.sleeper.exceeds turn.charge then
        ⟨body, ⟨turn, place, loop.bytes turn⟩, loop.sleeper.start, turn.wake⟩ ::
          cycles (place + 1) [] (loop.next turn) turns
      else cycles (place + 1) (body ++ [⟨turn, place, loop.bytes turn⟩]) (loop.next turn) turns

/-- The clock does not go back, and a pause takes as long as was asked for or longer. -/
def HonestClock : SenderLoop → List Turn → Prop
  | _, [] => True
  | loop, turn :: turns =>
      (loop.sleeper.exceeds turn.charge = true → loop.sleeper.start ≤ turn.now ∧
        turn.now + loop.sleeper.pause turn.now ≤ turn.wake) ∧
      HonestClock (loop.next turn) turns

instance decidableHonestClock : ∀ loop turns, Decidable (HonestClock loop turns)
  | _, [] => instDecidableTrue
  | loop, turn :: turns =>
      have := decidableHonestClock (loop.next turn) turns
      inferInstanceAs (Decidable ((loop.sleeper.exceeds turn.charge = true →
        loop.sleeper.start ≤ turn.now ∧ turn.now + loop.sleeper.pause turn.now ≤ turn.wake) ∧
        HonestClock (loop.next turn) turns))

section SendSide

variable {loop : SenderLoop} {turn : Turn} {side : SendSide} {id : Nat}

/-- The bytes are those of the copies that the sender thread sends. -/
theorem bytes_eq_copies (hcount : side.sendCount id = turn.sendCount)
    (hfast : side.fastStart = loop.fastStart) :
    loop.bytes turn = side.copies id * turn.length := by
  unfold bytes SendSide.copies
  rw [hcount, hfast, Nat.add_mul, Nat.add_mul, Nat.one_mul, ite_mul, ite_mul, Nat.one_mul,
    Nat.zero_mul]

theorem next_countSend (hfast : side.fastStart = loop.fastStart)
    (hcount : side.fastStartCount = loop.fastStartCount) :
    (side.countSend id).fastStart = (loop.next turn).fastStart ∧
      (side.countSend id).fastStartCount = (loop.next turn).fastStartCount := by
  simp only [SendSide.countSend, next, hfast, hcount, and_self]

end SendSide

end SenderLoop

/-- The packages of the fast start are the first ten of the thread. -/
def earlyLength (items : List (Turn × Nat)) : Nat :=
  ((items.filter fun item => item.2 < 10).map fun item => item.1.length).sum

/-- Before the last package of a cycle its charge leaves room for the lengths of the fast
start's packages. -/
def FastStartFits (group : FullGroup (Turn × Nat)) : Prop :=
  charged (fun item => item.1.charge) group.body + earlyLength group.body ≤ listPackageSize

instance (group : FullGroup (Turn × Nat)) : Decidable (FastStartFits group) :=
  inferInstanceAs (Decidable (_ ≤ _))

/-- A package without what was sent for it. -/
def Sent.item (sent : Sent) : Turn × Nat := (sent.turn, sent.place)

def Cycle.group (cycle : Cycle) : FullGroup (Turn × Nat) :=
  ⟨cycle.body.map Sent.item, cycle.last.item⟩

/-- The copy of the fast start comes on top of the charge. -/
def Sent.Counted (sent : Sent) : Prop :=
  sent.bytes = sent.turn.charge + if sent.place < 10 then sent.turn.length else 0

theorem bytesOf_eq {sent : List Sent} (hsent : ∀ package ∈ sent, package.Counted) :
    bytesOf sent = charged (fun item => item.1.charge) (sent.map Sent.item) +
      earlyLength (sent.map Sent.item) := by
  induction sent with
  | nil => rfl
  | cons package rest ih =>
      obtain ⟨hpackage, hrest⟩ := List.forall_mem_cons.mp hsent
      have hbytes : bytesOf (package :: rest) = package.bytes + bytesOf rest := by
        simp [bytesOf]
      have hcharged : charged (fun item => item.1.charge) ((package :: rest).map Sent.item) =
          package.turn.charge +
            charged (fun item => item.1.charge) (rest.map Sent.item) := by
        simp [charged, Sent.item]
      have hearly : earlyLength ((package :: rest).map Sent.item) =
          (if package.place < 10 then package.turn.length else 0) +
            earlyLength (rest.map Sent.item) := by
        unfold earlyLength
        rw [List.map_cons, List.filter_cons]
        by_cases hplace : package.place < 10
        · simp [Sent.item, hplace]
        · simp [Sent.item, hplace]
      rw [hbytes, hcharged, hearly, hpackage, ih hrest]
      omega

namespace SenderLoop

/-- Between resets: `body` has been sent since the last one, `place` packages in all. -/
structure Running (listPackageUs : Int) (place : Nat) (body : List Sent) (loop : SenderLoop) :
    Prop where
  sleepLen : loop.sleeper.sleepLen = listPackageSize
  sleepTime : loop.sleeper.sleepTime = listPackageUs
  sendLen : loop.sleeper.sendLen = charged (fun item => item.1.charge) (body.map Sent.item)
  fast : loop.fastStart = decide (place < 10)
  count : place < 10 → loop.fastStartCount = place
  counted : ∀ package ∈ body, package.Counted

variable {listPackageUs start : Int} {place : Nat} {body : List Sent} {loop : SenderLoop}
  {turn : Turn} {turns : List Turn}

theorem running_init : Running listPackageUs 0 [] (init start listPackageUs) :=
  ⟨rfl, rfl, rfl, rfl, fun _ => rfl, by rintro _ ⟨⟩⟩

theorem Running.bytes_counted (hrunning : Running listPackageUs place body loop) :
    (Sent.mk turn place (loop.bytes turn)).Counted := by
  unfold Sent.Counted bytes Turn.charge
  rw [hrunning.fast]
  simp only [decide_eq_true_eq]

theorem Running.next_fast (hrunning : Running listPackageUs place body loop) (turn : Turn) :
    (loop.next turn).fastStart = decide (place + 1 < 10) ∧
      (place + 1 < 10 → (loop.next turn).fastStartCount = place + 1) := by
  simp only [next, hrunning.fast]
  by_cases hplace : place < 10
  · have hcount := hrunning.count hplace
    rw [hcount]
    by_cases hlast : place + 1 = 10
    · simp [hlast]
    · have hmore : place + 1 < 10 := by omega
      have hnine : place ≠ 9 := by omega
      simp [hplace, hnine, hmore]
  · have hdone : ¬place + 1 < 10 := by omega
    simp [hplace, hdone]

theorem sleeper_of_hold (hexceeds : loop.sleeper.exceeds turn.charge ≠ true) :
    (loop.next turn).sleeper =
      { loop.sleeper with sendLen := loop.sleeper.sendLen + turn.charge } :=
  if_neg hexceeds

theorem sleeper_of_reset (hexceeds : loop.sleeper.exceeds turn.charge = true) :
    (loop.next turn).sleeper = { loop.sleeper with start := turn.wake, sendLen := 0 } :=
  if_pos hexceeds

/-- A turn that does not reset the `Sleeper`. -/
theorem Running.hold (hrunning : Running listPackageUs place body loop)
    (hexceeds : loop.sleeper.exceeds turn.charge ≠ true) :
    Running listPackageUs (place + 1) (body ++ [⟨turn, place, loop.bytes turn⟩])
      (loop.next turn) := by
  have hsleeper := sleeper_of_hold hexceeds
  obtain ⟨hfast, hcount⟩ := hrunning.next_fast turn
  refine ⟨?_, ?_, ?_, hfast, hcount, ?_⟩
  · rw [hsleeper]
    exact hrunning.sleepLen
  · rw [hsleeper]
    exact hrunning.sleepTime
  · rw [hsleeper, List.map_append, charged_append, ← hrunning.sendLen]
    simp [Sent.item]
  · intro package hpackage
    rcases List.mem_append.mp hpackage with hold | hnew
    · exact hrunning.counted package hold
    · obtain rfl := List.mem_singleton.mp hnew
      exact hrunning.bytes_counted

/-- A turn that resets it. -/
theorem Running.reset (hrunning : Running listPackageUs place body loop)
    (hexceeds : loop.sleeper.exceeds turn.charge = true) :
    Running listPackageUs (place + 1) [] (loop.next turn) ∧
      (loop.next turn).sleeper.start = turn.wake := by
  have hsleeper := sleeper_of_reset hexceeds
  obtain ⟨hfast, hcount⟩ := hrunning.next_fast turn
  refine ⟨⟨?_, ?_, ?_, hfast, hcount, by rintro _ ⟨⟩⟩, ?_⟩
  · rw [hsleeper]
    exact hrunning.sleepLen
  · rw [hsleeper]
    exact hrunning.sleepTime
  · rw [hsleeper]
    rfl
  · rw [hsleeper]

/-- The cycles are the groups that the charges fill. -/
theorem Running.groups (hrunning : Running listPackageUs place body loop) (turns : List Turn) :
    (cycles place body loop turns).map Cycle.group =
      fullGroups (fun item => item.1.charge) listPackageSize (body.map Sent.item)
        (turns.zipIdx place) := by
  induction turns generalizing place body loop with
  | nil => rfl
  | cons turn turns ih =>
      have hexceeds : loop.sleeper.exceeds turn.charge = true ↔
          charged (fun item => item.1.charge) (body.map Sent.item) + turn.charge >
            listPackageSize := by
        rw [Sleeper.exceeds, decide_eq_true_eq, hrunning.sendLen, hrunning.sleepLen]
      unfold cycles
      rw [List.zipIdx_cons, fullGroups]
      split
      next hreset =>
        rw [if_pos (hexceeds.mp hreset), List.map_cons, ih (hrunning.reset hreset).1]
        rfl
      next hhold =>
        rw [if_neg (mt hexceeds.mpr hhold), ih (hrunning.hold hhold), List.map_append]
        rfl

/-- What is sent in a cycle before its last package. -/
theorem Running.bytes_body (hrunning : Running listPackageUs place body loop) :
    ∀ cycle ∈ cycles place body loop turns, bytesOf cycle.body =
      charged (fun item => item.1.charge) cycle.group.body + earlyLength cycle.group.body := by
  induction turns generalizing place body loop with
  | nil => rintro _ ⟨⟩
  | cons turn turns ih =>
      unfold cycles
      split
      next hreset =>
        rw [List.forall_mem_cons]
        exact ⟨bytesOf_eq hrunning.counted, ih (hrunning.reset hreset).1⟩
      next hhold => exact ih (hrunning.hold hhold)

/-- The pause makes up what a period lacks. -/
theorem Running.period_le (hrunning : Running listPackageUs place body loop) {now wake : Int}
    (hwake : now + loop.sleeper.pause now ≤ wake) :
    loop.sleeper.start + listPackageUs ≤ wake := by
  unfold Sleeper.pause at hwake
  rw [hrunning.sleepTime] at hwake
  dsimp only at hwake
  split at hwake
  next => omega
  next => omega

theorem Running.spaced (hrunning : Running listPackageUs place body loop)
    (hclock : HonestClock loop turns) :
    ∀ cycle ∈ cycles place body loop turns, cycle.start + listPackageUs ≤ cycle.stop := by
  induction turns generalizing place body loop with
  | nil => rintro _ ⟨⟩
  | cons turn turns ih =>
      obtain ⟨hturn, hrest⟩ := hclock
      unfold cycles
      split
      next hreset =>
        rw [List.forall_mem_cons]
        exact ⟨hrunning.period_le (hturn hreset).2, ih (hrunning.reset hreset).1 hrest⟩
      next hhold => exact ih (hrunning.hold hhold) hrest

/-- The first cycle to be completed began with the last reset. -/
theorem Running.start_of_head (hrunning : Running listPackageUs place body loop) :
    ∀ first ∈ (cycles place body loop turns).head?, first.start = loop.sleeper.start := by
  induction turns generalizing place body loop with
  | nil => rintro _ ⟨⟩
  | cons turn turns ih =>
      unfold cycles
      split
      next hreset =>
        intro first hfirst
        obtain rfl := Option.some.inj hfirst
        rfl
      next hhold =>
        intro first hfirst
        rw [ih (hrunning.hold hhold) first hfirst, sleeper_of_hold hhold]

/-- A cycle begins with the reset that ends the one before it. -/
theorem Running.chain (hrunning : Running listPackageUs place body loop) :
    (cycles place body loop turns).IsChain fun earlier later => earlier.stop = later.start := by
  induction turns generalizing place body loop with
  | nil => exact List.isChain_nil
  | cons turn turns ih =>
      unfold cycles
      split
      next hreset =>
        obtain ⟨hnext, hstart⟩ := hrunning.reset hreset
        refine List.isChain_cons.mpr ⟨fun later hlater => ?_, ih hnext⟩
        rw [hnext.start_of_head later hlater, hstart]
      next hhold => exact ih (hrunning.hold hhold)

end SenderLoop

/-- Before its last package no cycle sends more than 10 KiB, and resets are a period apart.
So are the bytes of consecutive cycles bounded, and the time they take. -/
structure RateLimited (listPackageUs : Int) (cycles : List Cycle) : Prop where
  bytes : ∀ cycle ∈ cycles, bytesOf cycle.body ≤ listPackageSize
  spaced : ∀ cycle ∈ cycles, cycle.start + listPackageUs ≤ cycle.stop
  total : ∀ group, group <:+: cycles → ∀ bound, (∀ cycle ∈ group, cycle.last.bytes ≤ bound) →
    (group.map fun cycle => bytesOf cycle.body + cycle.last.bytes).sum ≤
      group.length * (listPackageSize + bound)
  duration : ∀ group, group <:+: cycles → ∀ first ∈ group.head?, ∀ final ∈ group.getLast?,
    first.start + group.length * listPackageUs ≤ final.stop

/-- What bounds each cycle bounds several of them. -/
theorem RateLimited.of_bytes {listPackageUs : Int} {cycles : List Cycle}
    (hchain : cycles.IsChain fun earlier later => earlier.stop = later.start)
    (hspaced : ∀ cycle ∈ cycles, cycle.start + listPackageUs ≤ cycle.stop)
    (hbytes : ∀ cycle ∈ cycles, bytesOf cycle.body ≤ listPackageSize) :
    RateLimited listPackageUs cycles where
  bytes := hbytes
  spaced := hspaced
  total := by
    intro group hgroup bound hbound
    have hle : ∀ total ∈ group.map fun cycle => bytesOf cycle.body + cycle.last.bytes,
        total ≤ listPackageSize + bound := by
      intro total htotal
      obtain ⟨cycle, hcycle, rfl⟩ := List.mem_map.mp htotal
      exact Nat.add_le_add (hbytes cycle (hgroup.subset hcycle)) (hbound cycle hcycle)
    simpa using List.sum_le_card_nsmul _ _ hle
  duration := by
    intro group hgroup first hfirst final hfinal
    obtain ⟨earlier, later, rfl⟩ := hgroup
    have hconsecutive := hchain.left_of_append.right_of_append
    refine duration_of_chain hconsecutive (fun cycle hcycle => hspaced cycle ?_) hfirst hfinal
    exact List.mem_append_left _ (List.mem_append_right _ hcycle)

namespace SenderLoop

variable {listPackageUs start : Int} {turns : List Turn}

/-- The limiter holds in just the runs in which the copies of the fast start fit into what
the charge of their cycle leaves. -/
theorem rateLimited_iff (hclock : HonestClock (init start listPackageUs) turns) :
    RateLimited listPackageUs (cycles 0 [] (init start listPackageUs) turns) ↔
      ∀ group ∈ fullGroups (fun item => item.1.charge) listPackageSize [] turns.zipIdx,
        FastStartFits group := by
  have hrunning : Running listPackageUs 0 [] (init start listPackageUs) := running_init
  have hgroups := hrunning.groups turns
  rw [List.map_nil] at hgroups
  rw [← hgroups, List.forall_mem_map]
  constructor
  · intro hlimited cycle hcycle
    unfold FastStartFits
    rw [← hrunning.bytes_body cycle hcycle]
    exact hlimited.bytes cycle hcycle
  · intro hfits
    refine .of_bytes hrunning.chain (hrunning.spaced hclock) fun cycle hcycle => ?_
    rw [hrunning.bytes_body cycle hcycle]
    exact hfits cycle hcycle

/-- Two packages fill a cycle; the copy of the first one fits. -/
theorem rateLimited_iff_two :
    RateLimited 1000 (cycles 0 [] (init 0 1000) [⟨5000, 0, 0, 0⟩, ⟨6000, 0, 400, 1000⟩]) ↔
      ∀ group ∈ fullGroups (fun item => item.1.charge) listPackageSize []
        [(⟨5000, 0, 0, 0⟩, 0), (⟨6000, 0, 400, 1000⟩, 1)], FastStartFits group :=
  rateLimited_iff (by decide)

/-- Packages of 600 bytes: the first cycle sends 16200 before its last one. -/
theorem not_rateLimited_fresh :
    HonestClock (init 0 1000) (List.replicate 18 ⟨600, 0, 400, 1000⟩) ∧
      ¬RateLimited 1000 (cycles 0 [] (init 0 1000) (List.replicate 18 ⟨600, 0, 400, 1000⟩)) := by
  refine ⟨by decide, fun hlimited => ?_⟩
  have hbytes := hlimited.bytes
  revert hbytes
  decide

end SenderLoop

/-- A cycle of later packages is within the limit. -/
theorem fastStartFits_of_late {items : List (Turn × Nat)} {group : FullGroup (Turn × Nat)}
    (hgroup : group ∈ fullGroups (fun item => item.1.charge) listPackageSize [] items)
    (hlate : ∀ item ∈ group.body, 10 ≤ item.2) : FastStartFits group := by
  have hnone : (group.body.filter fun item => item.2 < 10) = [] := by
    rw [List.filter_eq_nil_iff]
    intro item hitem
    have hplace := hlate item hitem
    rw [decide_eq_true_eq]
    omega
  have hearly : earlyLength group.body = 0 := by
    rw [earlyLength, hnone, List.map_nil, List.sum_nil]
  unfold FastStartFits
  rw [hearly]
  exact charged_body_le (Nat.zero_le _) group hgroup

end Sharpvpn
