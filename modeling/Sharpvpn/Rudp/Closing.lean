import Sharpvpn.Rudp.Progress
import Sharpvpn.Rudp.Window

/-!
# The segment thread after close

`worker_running` is tested at the head of the segment thread's loop only. Whether the
thread gets there depends on the window, which nobody moves any more, and on the segments
it has still to pack.
-/

namespace Sharpvpn

open Foundation

namespace SegmentSide

/-- The segments that the thread has still to pack behind its current package. -/
def leftover (config : Config) (side : SegmentSide) : List Bytes :=
  match side.thread with
  | .awake => side.segmentList.contents ringCapacity side.segmentArr
  | .waiting list | .outer list => list.contents ringCapacity side.segmentArr
  | .inner list front body =>
      if front.any fun segment => fits config list segment body then
        (list.pop ringCapacity).contents ringCapacity side.segmentArr
      else list.contents ringCapacity side.segmentArr
  | .head | .exited => []

/-- The thread will look at the window, or is looking at it. -/
def beforeWindow (side : SegmentSide) : Bool :=
  match side.thread with
  | .awake => side.segmentList.len != 0
  | .waiting _ => true
  | .head | .outer _ | .inner .. | .exited => false

/-- Bounds the steps to the end of the function. -/
def rank (config : Config) (side : SegmentSide) : Nat :=
  match side.thread with
  | .awake => 3 * side.segmentList.len + 4
  | .waiting list => 3 * list.len + 3
  | .outer list => 3 * list.len + 2
  | .inner list front body =>
      if front.any fun segment => fits config list segment body then 3 * list.len + 1
      else 3 * list.len + 3
  | .head => 1
  | .exited => 0

/-- The packages that the thread can still make. -/
def pending (side : SegmentSide) : Nat :=
  match side.thread with
  | .awake => side.segmentList.len
  | .waiting list | .outer list => list.len
  | .inner list _ body => list.len + if body = [] then 0 else 1
  | .head | .exited => 0

/-- The cursors address the ring. -/
structure InRing (side : SegmentSide) : Prop where
  start_lt : side.segmentList.start < ringCapacity
  stop_lt : side.segmentList.stop < ringCapacity
  copied_lt : ∀ list, side.copied = some list → list.start < ringCapacity

variable {config : Config} {side : SegmentSide} {list : Cursor} {front : Option Bytes}
  {body : Bytes}

/-- Holding the front of the list, the thread has the list to pack: what goes into the current
package fits into an empty one. -/
theorem fits_leftover_inner (hthread : side.thread = .inner list (side.front list) body)
    (hstart : list.start < ringCapacity) :
    (∀ segment ∈ side.leftover config, (segment.length : Int) < maxSegment config.mtu - 4) ↔
      ∀ segment ∈ list.contents ringCapacity side.segmentArr,
        (segment.length : Int) < maxSegment config.mtu - 4 := by
  simp only [leftover, hthread]
  rcases Nat.eq_zero_or_pos list.len with hzero | hpos
  · rw [front_eq_none hzero, Option.any_none, if_neg (by simp)]
  · rw [front_eq hpos, Option.any_some]
    split
    next hfits =>
      rw [ReliableSocket.fits_eq config hpos] at hfits
      rw [Cursor.contents_eq_cons hstart hpos, List.forall_mem_cons]
      exact ⟨fun hrest => ⟨fitsPackage_nil.mp (fitsPackage.empty hfits), hrest⟩, fun hall => hall.2⟩
    next => exact Iff.rfl

/-- The thread enters the inner loop with a segment that goes into its package. -/
theorem rank_inner (hthread : side.thread = .inner list (side.front list) [])
    (hstart : list.start < ringCapacity) (hlen : 0 < list.len)
    (hfits : ∀ segment ∈ list.contents ringCapacity side.segmentArr,
      (segment.length : Int) < maxSegment config.mtu - 4) :
    side.rank config = 3 * list.len + 1 := by
  rw [Cursor.contents_eq_cons hstart hlen, List.forall_mem_cons] at hfits
  have hhead := fitsPackage_nil.mpr hfits.1
  simp only [rank, hthread, front_eq hlen, Option.any_some, ReliableSocket.fits_eq config hlen,
    hhead, if_true]

theorem rank_inner_le (hthread : side.thread = .inner list front body) :
    side.rank config ≤ 3 * list.len + 3 := by
  simp only [rank, hthread]
  split <;> omega

end SegmentSide

namespace ReliableSocket

/-- The thread is in its function for the given number of own steps at most. -/
def LeavesWithin (config : Config) (crypto : SharpCrypto) : Nat → ReliableSocket → Prop
  | 0, socket => socket.segment.thread = .exited
  | steps + 1, socket => socket.segment.thread = .exited ∨
      ∀ nonce, ∃ next events, socket.segmentStep config crypto nonce = some (next, events) ∧
        LeavesWithin config crypto steps next

/-- The window is open if the thread has still to pass it, and every segment it has still to
pack fits into an empty package. -/
structure CanLeave (config : Config) (socket : ReliableSocket) : Prop where
  window : socket.segment.beforeWindow = true →
    sub64 socket.send.sendId socket.send.sendAckId ≤ 8000
  fits : ∀ segment ∈ socket.segment.leftover config,
    (segment.length : Int) < maxSegment config.mtu - 4

instance (config : Config) (socket : ReliableSocket) : Decidable (socket.CanLeave config) :=
  decidable_of_iff ((socket.segment.beforeWindow = true →
      sub64 socket.send.sendId socket.send.sendAckId ≤ 8000) ∧
    ∀ segment ∈ socket.segment.leftover config,
      (segment.length : Int) < maxSegment config.mtu - 4)
    ⟨fun ⟨hwindow, hfits⟩ => ⟨hwindow, hfits⟩, fun ⟨hwindow, hfits⟩ => ⟨hwindow, hfits⟩⟩

/-- A closed socket whose packages still get ids. -/
structure Closed (socket : ReliableSocket) : Prop where
  stopped : socket.workerRunning = false
  ring : socket.segment.InRing
  ids : socket.send.sendId + socket.segment.pending + 2 < 2 ^ 63

variable {config : Config} {crypto : SharpCrypto} {socket next : ReliableSocket}
  {nonce : Nonce} {events : List Event} {list : Cursor}

/-- A step of the thread to another place, with the same segments to pack. -/
structure Approaches (config : Config) (socket next : ReliableSocket) : Prop where
  closed : next.Closed
  canLeave_iff : next.CanLeave config ↔ socket.CanLeave config
  rank_lt : socket.CanLeave config → next.segment.rank config < socket.segment.rank config

theorem canLeave_congr (hsend : next.send = socket.send)
    (hwindow : next.segment.beforeWindow = socket.segment.beforeWindow)
    (hleft : next.segment.leftover config = socket.segment.leftover config) :
    next.CanLeave config ↔ socket.CanLeave config := by
  constructor
  · rintro ⟨hopen, hfits⟩
    rw [hsend, hwindow] at hopen
    rw [hleft] at hfits
    exact ⟨hopen, hfits⟩
  · rintro ⟨hopen, hfits⟩
    rw [← hsend, ← hwindow] at hopen
    rw [← hleft] at hfits
    exact ⟨hopen, hfits⟩

/-- Past the window only the segments count. -/
theorem canLeave_iff_of_past (hwindow : socket.segment.beforeWindow = false) :
    socket.CanLeave config ↔ ∀ segment ∈ socket.segment.leftover config,
      (segment.length : Int) < maxSegment config.mtu - 4 := by
  constructor
  · exact fun hcan => hcan.fits
  · intro hfits
    exact ⟨fun hbefore => absurd (hwindow.symm.trans hbefore) Bool.false_ne_true, hfits⟩

theorem Closed.head (hclosed : socket.Closed) (hthread : socket.segment.thread = .head) :
    ∃ next events, socket.segmentStep config crypto nonce = some (next, events) ∧
      Approaches config socket next := by
  have hids := hclosed.ids
  refine ⟨{ socket with segment := { socket.segment with thread := .exited } }, [], ?_, ?_, ?_, ?_⟩
  · simp [segmentStep, hthread, hclosed.stopped]
  · refine ⟨hclosed.stopped, ⟨hclosed.ring.start_lt, hclosed.ring.stop_lt, by rintro _ ⟨⟩⟩, ?_⟩
    simp only [SegmentSide.pending, hthread] at hids ⊢
    exact hids
  · refine canLeave_congr rfl ?_ ?_
    · simp [SegmentSide.beforeWindow, hthread]
    · simp [SegmentSide.leftover, hthread]
  · simp [SegmentSide.rank, hthread]

theorem Closed.awake (hclosed : socket.Closed) (hthread : socket.segment.thread = .awake) :
    ∃ next events, socket.segmentStep config crypto nonce = some (next, events) ∧
      Approaches config socket next := by
  have hids := hclosed.ids
  simp only [SegmentSide.pending, hthread] at hids
  by_cases hlen : socket.segment.segmentList.len = 0
  · refine ⟨{ socket with segment := { socket.segment with thread := .head } }, [], ?_, ?_, ?_, ?_⟩
    · simp [segmentStep, hthread, hlen]
    · refine ⟨hclosed.stopped, ⟨hclosed.ring.start_lt, hclosed.ring.stop_lt, by rintro _ ⟨⟩⟩, ?_⟩
      simp only [SegmentSide.pending]
      omega
    · refine canLeave_congr rfl ?_ ?_
      · simp [SegmentSide.beforeWindow, hthread, hlen]
      · simp [SegmentSide.leftover, hthread, Cursor.contents_eq_nil hlen]
    · simp [SegmentSide.rank, hthread]
  · refine ⟨{ socket with segment := { socket.segment with
      segmentList := socket.segment.segmentList.rebase
      thread := .waiting socket.segment.segmentList } }, [], ?_, ?_, ?_, ?_⟩
    · simp [segmentStep, hthread, hlen]
    · refine ⟨hclosed.stopped, ⟨hclosed.ring.stop_lt, hclosed.ring.stop_lt, ?_⟩, hids⟩
      rintro _ ⟨⟩
      exact hclosed.ring.start_lt
    · refine canLeave_congr rfl ?_ ?_
      · simp [SegmentSide.beforeWindow, hthread, hlen]
      · simp [SegmentSide.leftover, hthread]
    · intro _
      simp only [SegmentSide.rank, hthread]
      omega

/-- With the window closed the thread stays where it is. -/
theorem Closed.waiting (hclosed : socket.Closed) (hthread : socket.segment.thread = .waiting list) :
    ∃ next events, socket.segmentStep config crypto nonce = some (next, events) ∧
      Approaches config socket next := by
  have hids := hclosed.ids
  simp only [SegmentSide.pending, hthread] at hids
  have hbefore : socket.segment.beforeWindow = true := by simp [SegmentSide.beforeWindow, hthread]
  by_cases hwindow : sub64 socket.send.sendId socket.send.sendAckId > 8000
  · refine ⟨socket, [], ?_, hclosed, Iff.rfl, ?_⟩
    · simp [segmentStep, hthread, hwindow]
    · intro hcan
      have := hcan.window hbefore
      omega
  · refine ⟨{ socket with segment := { socket.segment with thread := .outer list } }, [],
      ?_, ?_, ?_, ?_⟩
    · simp [segmentStep, hthread, hwindow]
    · refine ⟨hclosed.stopped, ⟨hclosed.ring.start_lt, hclosed.ring.stop_lt, ?_⟩, hids⟩
      rintro _ ⟨⟩
      exact hclosed.ring.copied_lt list (by simp [SegmentSide.copied, hthread])
    · rw [canLeave_iff_of_past (by simp [SegmentSide.beforeWindow])]
      have hleft : socket.segment.leftover config =
          list.contents ringCapacity socket.segment.segmentArr := by
        simp only [SegmentSide.leftover, hthread]
      constructor
      · intro hfits
        refine ⟨fun _ => Nat.le_of_not_lt hwindow, ?_⟩
        rw [hleft]
        exact hfits
      · rintro ⟨-, hfits⟩
        rw [hleft] at hfits
        exact hfits
    · intro _
      simp only [SegmentSide.rank, hthread]
      omega

theorem Closed.outer (hclosed : socket.Closed) (hthread : socket.segment.thread = .outer list) :
    ∃ next events, socket.segmentStep config crypto nonce = some (next, events) ∧
      Approaches config socket next := by
  have hids := hclosed.ids
  simp only [SegmentSide.pending, hthread] at hids
  have hstart : list.start < ringCapacity :=
    hclosed.ring.copied_lt list (by simp [SegmentSide.copied, hthread])
  have hleft : socket.segment.leftover config =
      list.contents ringCapacity socket.segment.segmentArr := by
    simp only [SegmentSide.leftover, hthread]
  have hpast : socket.segment.beforeWindow = false := by simp [SegmentSide.beforeWindow, hthread]
  rcases Nat.eq_zero_or_pos list.len with hlen | hlen
  · refine ⟨{ socket with segment := { socket.segment with thread := .head } }, [], ?_, ?_, ?_, ?_⟩
    · simp [segmentStep, hthread, hlen]
    · refine ⟨hclosed.stopped, ⟨hclosed.ring.start_lt, hclosed.ring.stop_lt, by rintro _ ⟨⟩⟩, ?_⟩
      simp only [SegmentSide.pending]
      omega
    · refine canLeave_congr rfl ?_ ?_
      · simp [SegmentSide.beforeWindow, hthread]
      · rw [hleft, Cursor.contents_eq_nil hlen]
        rfl
    · simp [SegmentSide.rank, hthread]
  · refine ⟨{ socket with segment := { socket.segment with
      thread := .inner list (socket.segment.front list) [] } }, [], ?_, ?_, ?_, ?_⟩
    · simp [segmentStep, hthread, hlen]
    · refine ⟨hclosed.stopped, ⟨hclosed.ring.start_lt, hclosed.ring.stop_lt, ?_⟩, ?_⟩
      · rintro _ ⟨⟩
        exact hstart
      · simp only [SegmentSide.pending, if_true]
        omega
    · rw [canLeave_iff_of_past hpast, hleft,
        canLeave_iff_of_past (by simp [SegmentSide.beforeWindow])]
      exact SegmentSide.fits_leftover_inner rfl hstart
    · rw [canLeave_iff_of_past hpast, hleft]
      intro hfits
      -- The front fits, so the rank counts the segment as about to be taken.
      have hnext : SegmentSide.rank config { socket.segment with
          thread := .inner list (socket.segment.front list) [] } = 3 * list.len + 1 :=
        SegmentSide.rank_inner rfl hstart hlen hfits
      have hrank : socket.segment.rank config = 3 * list.len + 2 := by
        simp only [SegmentSide.rank, hthread]
      rw [hrank]
      exact Nat.lt_of_le_of_lt hnext.le (by omega)

/-- The segment in hand goes into the package, and the next one is in hand. -/
theorem Closed.unpack {segment body : Bytes} (hclosed : socket.Closed)
    (hthread : socket.segment.thread = .inner list (some segment) body)
    (hfits : SegmentSide.fits config list segment body = true) :
    ∃ next events, socket.segmentStep config crypto nonce = some (next, events) ∧
      Approaches config socket next := by
  have hids := hclosed.ids
  simp only [SegmentSide.pending, hthread] at hids
  have hlen : 0 < list.len := by
    simp only [SegmentSide.fits, Bool.and_eq_true, decide_eq_true_eq] at hfits
    exact hfits.1
  have hpop : (list.pop ringCapacity).start < ringCapacity := Nat.mod_lt _ (by decide)
  refine ⟨{ socket with segment := socket.segment.unpack list segment body },
    [.unpacked segment], ?_, ?_, ?_, ?_⟩
  · simp [segmentStep, hthread, hfits]
  · refine ⟨hclosed.stopped, ⟨hclosed.ring.start_lt, hclosed.ring.stop_lt, ?_⟩, ?_⟩
    · rintro _ ⟨⟩
      exact hpop
    · simp only [SegmentSide.pending, SegmentSide.unpack, Cursor.pop]
      split <;> omega
  · have hleft : socket.segment.leftover config =
        (list.pop ringCapacity).contents ringCapacity socket.segment.segmentArr := by
      simp only [SegmentSide.leftover, hthread, Option.any_some, hfits, if_true]
    rw [canLeave_iff_of_past (by simp [SegmentSide.beforeWindow, SegmentSide.unpack]),
      canLeave_iff_of_past (by simp [SegmentSide.beforeWindow, hthread]), hleft]
    exact SegmentSide.fits_leftover_inner rfl hpop
  · intro _
    have hrank : socket.segment.rank config = 3 * list.len + 1 := by
      simp only [SegmentSide.rank, hthread, Option.any_some, hfits, if_true]
    have hnext : (socket.segment.unpack list segment body).rank config ≤
        3 * (list.pop ringCapacity).len + 3 := SegmentSide.rank_inner_le rfl
    have hpopLen : (list.pop ringCapacity).len + 1 = list.len := by
      simp only [Cursor.pop]
      omega
    rw [hrank]
    exact Nat.lt_of_le_of_lt hnext (by omega)

/-- The thread closes its package and is back at the outer loop. -/
theorem Closed.close {front : Option Bytes} {body : Bytes} (hclosed : socket.Closed)
    (hthread : socket.segment.thread = .inner list front body)
    (hfits : ∀ segment, front = some segment → SegmentSide.fits config list segment body = false) :
    ∃ next events, socket.segmentStep config crypto nonce = some (next, events) ∧
      Approaches config socket next := by
  have hids := hclosed.ids
  simp only [SegmentSide.pending, hthread] at hids
  have hstart : list.start < ringCapacity :=
    hclosed.ring.copied_lt list (by simp [SegmentSide.copied, hthread])
  have hany := any_fits_eq_false hfits
  have hleft : socket.segment.leftover config =
      list.contents ringCapacity socket.segment.segmentArr := by
    simp only [SegmentSide.leftover, hthread, hany]
    rfl
  have hrank : socket.segment.rank config = 3 * list.len + 3 := by
    simp only [SegmentSide.rank, hthread, hany]
    rfl
  have hpast : socket.segment.beforeWindow = false := by simp [SegmentSide.beforeWindow, hthread]
  have hstep : socket.segmentStep config crypto nonce =
      segmentStep.closePackage crypto nonce socket list body := by
    cases front with
    | none => simp only [segmentStep, hthread]
    | some segment =>
        simp only [segmentStep, hthread, hfits segment rfl]
        rfl
  -- the ids and the pool of the sender do not matter past the window
  have happroach : ∀ send : SendSide, send.sendId + list.len + 2 < 2 ^ 63 →
      Approaches config socket
        { socket with segment := { socket.segment with thread := .outer list }, send } := by
    intro send hroom
    refine ⟨⟨hclosed.stopped, ⟨hclosed.ring.start_lt, hclosed.ring.stop_lt, ?_⟩, hroom⟩, ?_, ?_⟩
    · rintro _ ⟨⟩
      exact hstart
    · rw [canLeave_iff_of_past (by simp [SegmentSide.beforeWindow]), canLeave_iff_of_past hpast,
        hleft]
      rfl
    · intro _
      rw [hrank]
      simp only [SegmentSide.rank]
      omega
  rw [hstep, segmentStep.closePackage]
  split
  next hbody =>
    have hne : body ≠ [] := List.ne_nil_of_length_pos (by omega)
    rw [if_neg hne] at hids
    rw [if_pos (by omega)]
    refine ⟨_, _, rfl, happroach _ ?_⟩
    simp only [SendSide.assign]
    omega
  next => exact ⟨_, _, rfl, happroach socket.send (by omega)⟩

theorem Closed.step (config : Config) (crypto : SharpCrypto) (nonce : Nonce)
    (hclosed : socket.Closed) (hthread : socket.segment.thread ≠ .exited) :
    ∃ next events, socket.segmentStep config crypto nonce = some (next, events) ∧
      Approaches config socket next := by
  cases hwhere : socket.segment.thread with
  | head => exact hclosed.head hwhere
  | awake => exact hclosed.awake hwhere
  | waiting list => exact hclosed.waiting hwhere
  | outer list => exact hclosed.outer hwhere
  | inner list front body =>
      cases front with
      | none => exact hclosed.close hwhere (by rintro _ ⟨⟩)
      | some segment =>
          cases hfits : SegmentSide.fits config list segment body with
          | true => exact hclosed.unpack hwhere hfits
          | false =>
              refine hclosed.close hwhere ?_
              rintro _ ⟨⟩
              exact hfits
  | exited => exact absurd hwhere hthread

/-- The rank bounds the steps of a thread that can leave. -/
theorem Closed.leaves (steps : Nat) (hclosed : socket.Closed) (hcan : socket.CanLeave config)
    (hsteps : socket.segment.rank config ≤ steps) :
    socket.LeavesWithin config crypto steps := by
  -- The rank falls with every step, and only a thread that has left has rank 0.
  induction steps generalizing socket with
  | zero =>
      have hrank : socket.segment.rank config = 0 := Nat.le_zero.mp hsteps
      by_contra hthread
      obtain ⟨next, -, -, happroach⟩ := hclosed.step config crypto .zero hthread
      have := happroach.rank_lt hcan
      omega
  | succ steps ih =>
      by_cases hthread : socket.segment.thread = .exited
      · exact .inl hthread
      · refine .inr fun nonce => ?_
        obtain ⟨next, events, hstep, happroach⟩ := hclosed.step config crypto nonce hthread
        have hless := happroach.rank_lt hcan
        exact ⟨next, events, hstep,
          ih happroach.closed (happroach.canLeave_iff.mpr hcan) (by omega)⟩

theorem canLeave_exited (hthread : socket.segment.thread = .exited) : socket.CanLeave config := by
  rw [canLeave_iff_of_past (by simp [SegmentSide.beforeWindow, hthread])]
  simp [SegmentSide.leftover, hthread]

/-- What a thread needs to leave it has needed all the way. -/
theorem Closed.canLeave {steps : Nat} (hclosed : socket.Closed)
    (hleaves : socket.LeavesWithin config crypto steps) : socket.CanLeave config := by
  induction steps generalizing socket with
  | zero => exact canLeave_exited hleaves
  | succ steps ih =>
      by_cases hthread : socket.segment.thread = .exited
      · exact canLeave_exited hthread
      · rcases hleaves with hexited | hsteps
        · exact absurd hexited hthread
        · obtain ⟨next, events, hstep, hrest⟩ := hsteps .zero
          obtain ⟨other, others, hother, happroach⟩ := hclosed.step config crypto .zero hthread
          obtain ⟨rfl, -⟩ := Prod.mk.inj (Option.some.inj (hstep.symm.trans hother))
          exact happroach.canLeave_iff.mp (ih happroach.closed hrest)

theorem Transition.inRing {action : Action} (hring : socket.segment.InRing)
    (htransition : socket.Transition config crypto action next events) :
    next.segment.InRing := by
  cases htransition with
  | pushed => exact ⟨hring.start_lt, Nat.mod_lt _ (by decide), hring.copied_lt⟩
  | segment hquiet =>
      cases hquiet with
      | idle _ hnew =>
          refine ⟨hring.start_lt, hring.stop_lt, ?_⟩
          rcases hnew with rfl | rfl | rfl <;> rintro _ ⟨⟩
      | copy =>
          refine ⟨hring.stop_lt, hring.stop_lt, ?_⟩
          rintro _ ⟨⟩
          exact hring.start_lt
      | wait => exact hring
      | ready hthread | enter hthread | skip hthread =>
          refine ⟨hring.start_lt, hring.stop_lt, ?_⟩
          rintro _ ⟨⟩
          exact hring.copied_lt _ (by simp [SegmentSide.copied, hthread])
      | finish => exact ⟨hring.start_lt, hring.stop_lt, by rintro _ ⟨⟩⟩
  | unpacked =>
      refine ⟨hring.start_lt, hring.stop_lt, ?_⟩
      rintro _ ⟨⟩
      exact Nat.mod_lt _ (by decide)
  | assigned hthread =>
      refine ⟨hring.start_lt, hring.stop_lt, ?_⟩
      rintro _ ⟨⟩
      exact hring.copied_lt _ (by simp [SegmentSide.copied, hthread])
  | refused | close | sender | ackSender | ackHandler | data | ack | connectionClose
  | recvPackage => exact hring
  | receiver hreceiving => cases hreceiving <;> exact hring

theorem pending_le_backlog (side : SegmentSide) : side.pending ≤ side.backlog + 1 := by
  unfold SegmentSide.pending SegmentSide.backlog
  cases side.thread with
  | inner list front body =>
      dsimp only
      split <;> omega
  | head | awake | waiting | outer | exited =>
      dsimp only
      omega

/-- Whatever has happened to a socket before it was closed. -/
theorem closed_of_reach {memory : Memory} {trace : List Event}
    (hreach : (socketMachine config crypto).Reach Machine.always (init memory) socket trace)
    (hstopped : socket.workerRunning = false)
    (hids : socket.send.sendId + socket.segment.backlog + 3 < 2 ^ 63) : socket.Closed := by
  refine ⟨hstopped, ?_, ?_⟩
  · refine hreach.invariant (fun socket _ => socket.segment.InRing) ?_ ?_
    · exact ⟨by simp [init], by simp [init], by rintro _ ⟨⟩⟩
    · intro _ _ _ _ _ hring hstep _
      exact (step_transition hstep).inRing hring
  · have := pending_le_backlog socket.segment
    omega

/-- Once the socket is closed, the segment thread leaves its function after finitely many of
its own steps exactly when the window does not hold it up and its segments fit. -/
theorem segmentThread_leaves_iff {memory : Memory} {trace : List Event}
    (hreach : (socketMachine config crypto).Reach Machine.always (init memory) socket trace)
    (hstopped : socket.workerRunning = false)
    (hids : socket.send.sendId + socket.segment.backlog + 3 < 2 ^ 63) :
    (∃ steps, socket.LeavesWithin config crypto steps) ↔ socket.CanLeave config := by
  have hclosed := closed_of_reach hreach hstopped hids
  constructor
  · rintro ⟨steps, hleaves⟩
    exact hclosed.canLeave hleaves
  · intro hcan
    exact ⟨_, hclosed.leaves _ hcan (le_refl _)⟩

/-- Closed with a segment on the list. -/
theorem segmentThread_leaves_one : ∃ socket trace,
    (socketMachine .standard .marking).Reach Machine.always (init .zeroed) socket trace ∧
    socket.workerRunning = false ∧ socket.segment.backlog = 1 ∧
    ∃ steps, socket.LeavesWithin .standard .marking steps := by
  obtain ⟨socket, trace, hreach, hview⟩ := Machine.reach_of_exec
    (fun (socket : ReliableSocket) (_ : List Event) =>
      (socket.workerRunning, socket.segment.backlog, socket.send.sendId,
        decide (socket.CanLeave .standard)))
    (show ((socketMachine .standard .marking).exec Machine.always (init .zeroed) []
      [.sendPackage [7], .segment .zero, .close]).map _ = some (false, 1, 1, true) by decide)
  simp only [Prod.mk.injEq, decide_eq_true_eq] at hview
  obtain ⟨hstopped, hbacklog, hsendId, hcan⟩ := hview
  refine ⟨socket, trace, hreach, hstopped, hbacklog, ?_⟩
  exact (segmentThread_leaves_iff hreach hstopped (by omega)).mpr hcan

/-- 8002 packages that the peer never acknowledges, one more segment, and close: the thread
waits for the window. -/
theorem segmentThread_waits : ∃ socket trace,
    (socketMachine .standard .marking).Reach Machine.always (init .zeroed) socket trace ∧
    socket.workerRunning = false ∧
    ¬∃ steps, socket.LeavesWithin .standard .marking steps := by
  obtain ⟨socket, trace, hreach, hidle, hsendId, hsendAckId, -⟩ :=
    reach_thousands 8002 idle_zeroed (by decide) (by decide) (by decide) (by decide) .start
  have hsendId : socket.send.sendId = 8003 := hsendId
  have hsendAckId : socket.send.sendAckId = 0 := hsendAckId
  have hpushed := hreach.extend (.sendPackage [7]) (show _ = some
    ({ socket with segment := socket.segment.pushSegment [7] }, [.pushed [7]]) by
    simp [socketMachine, step, sendPackage, hidle.running]) trivial
  have hawake := hpushed.extend (.segment .zero) (show _ = some
    ({ socket with segment := { socket.segment.pushSegment [7] with thread := .awake } }, []) by
    simp [socketMachine, step, segmentStep, SegmentSide.pushSegment, hidle.thread,
      hidle.running]) trivial
  have hclosing := hawake.extend .close (show _ = some (_, _) from rfl) trivial
  refine ⟨_, _, hclosing, rfl, ?_⟩
  rintro ⟨steps, hleaves⟩
  have hlen : (socket.segment.pushSegment [7]).segmentList.len = 1 := by
    simp [SegmentSide.pushSegment, Cursor.push, hidle.len]
  have hclosed := closed_of_reach hclosing rfl (by
    show socket.send.sendId + ((socket.segment.pushSegment [7]).segmentList.len + 0) + 3 < 2 ^ 63
    rw [hsendId, hlen]
    decide)
  have hwindow := (hclosed.canLeave hleaves).window (by
    show ((socket.segment.pushSegment [7]).segmentList.len != 0) = true
    rw [hlen]
    rfl)
  have hfull : sub64 socket.send.sendId socket.send.sendAckId ≤ 8000 := hwindow
  rw [hsendId, hsendAckId] at hfull
  exact absurd hfull (by decide)

end ReliableSocket

end Sharpvpn
