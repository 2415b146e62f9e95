import Sharpvpn.Rudp.PackLoop
import Sharpvpn.Rudp.References
import Sharpvpn.Rudp.SendCounter

/-!
# The send window

The segment thread looks at the window once for each batch, not for each package. While
every batch fits what is left of the rings when it is let through, unacknowledged
packages never share a slot.
-/

namespace Sharpvpn

open Foundation

/-- How many packages the packing loop makes of a list behind what is written of a
package. A segment that no package can hold stops it. -/
def packageCount (mtu : Int) : List Bytes → Bytes → Nat
  | [], body => if body = [] then 0 else 1
  | segment :: rest, body =>
      if fitsPackage mtu segment body then packageCount mtu rest (body ++ Framing.frame segment)
      else if body = [] then 0
      else if fitsPackage mtu segment [] then packageCount mtu rest (Framing.frame segment) + 1
      else 1

section Counting

variable {mtu : Int} {segments plains : List Bytes} {body : Bytes}

theorem packageCount_close {segment : Bytes} {rest : List Bytes} (hbody : body ≠ [])
    (hfits : ¬fitsPackage mtu segment body = true) :
    packageCount mtu (segment :: rest) body = packageCount mtu (segment :: rest) [] + 1 := by
  simp only [packageCount, if_neg hfits, if_neg hbody, if_true, List.nil_append]
  split <;> rfl

theorem packageCount_stuck {segment : Bytes} {rest : List Bytes}
    (hfits : ¬fitsPackage mtu segment [] = true) :
    packageCount mtu (segment :: rest) [] = 0 := by
  simp only [packageCount, if_neg hfits, if_true]

/-- The inner loop writes the first of the packages. -/
theorem packageCount_packInner {written : Bytes} {rest : List Bytes}
    (hinner : packInner mtu segments body = some (written, rest)) :
    packageCount mtu segments body =
      if written = [] then 0 else packageCount mtu rest [] + 1 := by
  induction segments generalizing body with
  | nil =>
      cases hinner
      simp [packageCount]
  | cons segment segments ih =>
      unfold packInner at hinner
      split at hinner
      next hfits =>
        split at hinner
        next =>
          rw [packageCount, if_pos hfits]
          exact ih hinner
        next => cases hinner
      next hfits =>
        cases hinner
        split
        next hbody =>
          rw [hbody] at hfits ⊢
          exact packageCount_stuck hfits
        next hbody => exact packageCount_close hbody hfits

/-- The packages of a list that is packed to its end. -/
theorem packageCount_packOuter {turns : Nat} (hloop : packOuter mtu turns segments = some plains) :
    packageCount mtu segments [] = plains.length := by
  induction turns generalizing segments plains with
  | zero =>
      cases segments with
      | nil =>
          obtain rfl : [] = plains := Option.some.inj hloop
          rfl
      | cons segment rest => simp [packOuter] at hloop
  | succ turns ih =>
      cases segments with
      | nil =>
          obtain rfl : [] = plains := Option.some.inj hloop
          rfl
      | cons segment rest =>
          obtain ⟨⟨written, left⟩, hinner, hloop⟩ := Option.bind_eq_some_iff.mp hloop
          have hcount := packageCount_packInner hinner
          dsimp only at hloop
          split at hloop
          next hbody =>
            obtain ⟨others, hothers, rfl⟩ := Option.map_eq_some_iff.mp hloop
            have hne : written ≠ [] := List.ne_nil_of_length_pos (by omega)
            rw [hcount, if_neg hne, ih hothers, List.length_cons]
          next hbody =>
            -- nothing was written, so the list is as it was
            obtain ⟨taken, hsegments, hwritten, -⟩ := packInner_spec hinner
            rw [List.nil_append] at hwritten
            rw [hwritten] at hbody
            obtain rfl : taken = [] :=
              Framing.body_eq_nil.mp (List.eq_nil_of_length_eq_zero (by simpa using hbody))
            rw [hsegments]
            exact ih hloop

end Counting

/-- The packages the segment thread has still to make of its batch. -/
def SegmentSide.packagesLeft (config : Config) (side : SegmentSide) : Nat :=
  match side.thread with
  | .outer list => packageCount config.mtu (list.contents ringCapacity side.segmentArr) []
  | .inner list front body =>
      if front.any fun segment => SegmentSide.fits config list segment body then
        packageCount config.mtu
          ((list.pop ringCapacity).contents ringCapacity side.segmentArr)
          (body ++ Framing.frame (front.getD []))
      else
        (if body = [] then 0 else 1) +
          packageCount config.mtu (list.contents ringCapacity side.segmentArr) []
  | .head | .awake | .waiting _ | .exited => 0

namespace SendSide

/-- No more packages are unacknowledged than the rings have slots, no two of them share
one, and the package that the next one replaces in `send_pool` is acknowledged. -/
structure WindowHolds (side : SendSide) : Prop where
  window : side.sendId ≤ side.sendAckId + ringCapacity
  distinct : ∀ first second, 1 ≤ first → first < side.sendId → 1 ≤ second →
    second < side.sendId → ¬side.Acknowledged first → ¬side.Acknowledged second →
    first % ringCapacity = second % ringCapacity → first = second
  replaced : ∀ old, side.sendPool.pushFrees side.sendId = some old →
    side.Acknowledged old.packageId

variable {side next : SendSide} {events : List Event} {action : SendAction}

theorem WindowHolds.of_window (hslots : side.Slotted)
    (hwindow : side.sendId ≤ side.sendAckId + ringCapacity) : side.WindowHolds where
  window := hwindow
  distinct := by
    intro first second _ hfirst _ hsecond hopen hopen' hslot
    have hfirst' : side.sendAckId < first := Nat.lt_of_not_le fun hle => hopen (.inl hle)
    have hsecond' : side.sendAckId < second := Nat.lt_of_not_le fun hle => hopen' (.inl hle)
    unfold ringCapacity at hwindow hslot
    omega
  replaced := by
    intro old hold
    unfold PackageQueueMap.pushFrees at hold
    split at hold
    next hslot =>
      obtain ⟨hmod, hlt, package, hdata, hid⟩ := hslots _ hslot
      rw [hold] at hdata
      obtain rfl := Option.some.inj hdata
      left
      rw [hid]
      unfold ringCapacity at hwindow hmod hlt ⊢
      omega
    next => cases hold

/-- `send_ack_id` never goes down. -/
theorem Transition.sendAckId_le (htransition : side.Transition action next events)
    (hrange : side.sendAckId < 2 ^ 64) :
    side.sendAckId ≤ next.sendAckId ∧ next.sendAckId < 2 ^ 64 := by
  cases htransition with
  | @recvUna una =>
      obtain ⟨hle, hlt, _⟩ := receiveUna_sendAckId hrange una.toNat_lt
      exact ⟨by omega, hlt⟩
  | @ackRecv una ackList =>
      obtain ⟨hle, hlt, _⟩ :=
        @receiveAck_sendAckId side _ (ackList.map UInt64.toNat) hrange una.toNat_lt
      exact ⟨by omega, hlt⟩
  | fastResend =>
      obtain ⟨pool, heq⟩ := @fastResend_frame side _
      rw [heq]
      exact ⟨le_refl _, hrange⟩
  | assign | senderMove | missed | vanished | popped | sent | queued | handlerMove | handled
  | dropped | watch | expire | settle | timedOut | settled | fastResent =>
      exact ⟨le_refl _, hrange⟩

end SendSide

namespace SegmentSide

variable {config : Config} {side : SegmentSide} {list : Cursor} {body : Bytes}

theorem packagesLeft_outer (hthread : side.thread = .outer list) :
    side.packagesLeft config =
      packageCount config.mtu (list.contents ringCapacity side.segmentArr) [] := by
  simp only [packagesLeft, hthread]

/-- Holding the front of the list, the thread has the list to pack. -/
theorem packagesLeft_inner (hthread : side.thread = .inner list (side.front list) body)
    (hstart : list.start < ringCapacity) : side.packagesLeft config =
      packageCount config.mtu (list.contents ringCapacity side.segmentArr) body := by
  simp only [packagesLeft, hthread]
  rcases Nat.eq_zero_or_pos list.len with hzero | hpos
  · rw [Cursor.contents_eq_nil hzero, front_eq_none hzero]
    simp [packageCount]
  · rw [Cursor.contents_eq_cons hstart hpos, front_eq hpos, Option.any_some, Option.getD_some,
      ReliableSocket.fits_eq config hpos]
    split
    next hfits => rw [packageCount, if_pos hfits]
    next hfits =>
      split
      next hbody =>
        subst hbody
        rw [Nat.zero_add]
      next hbody => rw [packageCount_close hbody hfits, Nat.add_comm]

/-- The thread holds a segment that does not go into its package. -/
theorem packagesLeft_close {front : Option Bytes} (hthread : side.thread = .inner list front body)
    (hfits : ∀ segment, front = some segment → SegmentSide.fits config list segment body = false) :
    side.packagesLeft config = (if body = [] then 0 else 1) +
      packageCount config.mtu (list.contents ringCapacity side.segmentArr) [] := by
  simp only [packagesLeft, hthread, ReliableSocket.any_fits_eq_false hfits]
  rfl

theorem packagesLeft_unpack {segment : Bytes}
    (hthread : side.thread = .inner list (some segment) body)
    (hfits : SegmentSide.fits config list segment body = true) :
    side.packagesLeft config = packageCount config.mtu
      ((list.pop ringCapacity).contents ringCapacity side.segmentArr)
      (body ++ Framing.frame segment) := by
  simp only [packagesLeft, hthread, Option.any_some, hfits, if_true, Option.getD_some]

end SegmentSide

namespace ReliableSocket

variable {config : Config} {crypto : SharpCrypto} {memory : Memory}
  {socket next : ReliableSocket} {action : Action} {trace events : List Event}

/-- A batch that passes the test of the window fits what is left of the rings, and still
does when a push overruns the list and changes the batch. -/
def BatchFits (config : Config) (socket : ReliableSocket) : Action → Prop
  | .segment _ =>
      match socket.segment.thread with
      | .waiting list =>
          sub64 socket.send.sendId socket.send.sendAckId ≤ 8000 →
            socket.send.sendId + packageCount config.mtu
              (list.contents ringCapacity socket.segment.segmentArr) [] ≤
              socket.send.sendAckId + ringCapacity
      | .head | .awake | .outer _ | .inner .. | .exited => True
  | .sendPackage segment =>
      socket.segment.packagesLeft config <
          (socket.segment.pushSegment segment).packagesLeft config →
        socket.send.sendId + (socket.segment.pushSegment segment).packagesLeft config ≤
          socket.send.sendAckId + ringCapacity
  | _ => True

instance (config : Config) (socket : ReliableSocket) :
    (action : Action) → Decidable (socket.BatchFits config action)
  | .segment _ => by
      delta BatchFits
      exact match socket.segment.thread with
        | .waiting _ => inferInstanceAs (Decidable (_ → _))
        | .head | .awake | .outer _ | .inner .. | .exited => instDecidableTrue
  | .sendPackage _ => inferInstanceAs (Decidable (_ → _))
  | .close | .sender | .ackSender | .ackHandler _ | .receive _ | .receiver | .recvPackage =>
      instDecidableTrue

/-- What is assigned and what the thread has still to assign fits the rings. -/
structure Windowed (config : Config) (socket : ReliableSocket) : Prop where
  range : socket.send.sendAckId < 2 ^ 64
  slots : socket.send.Slotted
  start_lt : socket.segment.segmentList.start < ringCapacity
  stop_lt : socket.segment.segmentList.stop < ringCapacity
  copied : ∀ list, socket.segment.copied = some list → list.start < ringCapacity
  window : socket.send.sendId + socket.segment.packagesLeft config ≤
    socket.send.sendAckId + ringCapacity

/-- The slots and the counter after a step, whatever the step is. -/
theorem Windowed.send (hwindowed : socket.Windowed config)
    (htransition : socket.Transition config crypto action next events) :
    next.send.Slotted ∧ socket.send.sendAckId ≤ next.send.sendAckId ∧
      next.send.sendAckId < 2 ^ 64 := by
  cases htransition.halves with
  | still hsend | recv _ _ hsend | closed _ _ hsend =>
      rw [hsend]
      exact ⟨hwindowed.slots, le_refl _, hwindowed.range⟩
  | send _ hstep =>
      have hmove := SendSide.step_transition hstep
      exact ⟨hwindowed.slots.step hmove, hmove.sendAckId_le hwindowed.range⟩

/-- The thread has closed a package, because the segment it holds does not fit. -/
theorem not_fits_of_close {nonce : Nonce} {list : Cursor} {front : Option Bytes} {body : Bytes}
    (hthread : socket.segment.thread = .inner list front body)
    (hstep : socket.segmentStep config crypto nonce = some (next, events))
    (hclose : next.segment.thread = .outer list) :
    ∀ segment, front = some segment → SegmentSide.fits config list segment body = false := by
  rintro segment rfl
  by_contra hfits
  rw [Bool.not_eq_false] at hfits
  simp only [segmentStep, hthread, hfits, if_true] at hstep
  cases hstep
  cases hclose

theorem Windowed.still (hwindowed : socket.Windowed config) (hslots : next.send.Slotted)
    (hack : socket.send.sendAckId ≤ next.send.sendAckId ∧ next.send.sendAckId < 2 ^ 64)
    (hsegment : next.segment = socket.segment) (hsendId : next.send.sendId = socket.send.sendId) :
    next.Windowed config where
  range := hack.2
  slots := hslots
  start_lt := by rw [hsegment]; exact hwindowed.start_lt
  stop_lt := by rw [hsegment]; exact hwindowed.stop_lt
  copied := by rw [hsegment]; exact hwindowed.copied
  window := by
    have := hwindowed.window
    rw [hsegment, hsendId]
    omega

/-- Steps of the segment thread that assign nothing and leave no more to assign. -/
theorem Windowed.thread {side : SegmentSide} (hwindowed : socket.Windowed config)
    (hstart : side.segmentList.start < ringCapacity)
    (hstop : side.segmentList.stop < ringCapacity)
    (hcopied : ∀ list, side.copied = some list → list.start < ringCapacity)
    (hleft : side.packagesLeft config ≤ socket.segment.packagesLeft config) :
    Windowed config { socket with segment := side } where
  range := hwindowed.range
  slots := hwindowed.slots
  start_lt := hstart
  stop_lt := hstop
  copied := hcopied
  window := by
    have := hwindowed.window
    show socket.send.sendId + side.packagesLeft config ≤ socket.send.sendAckId + ringCapacity
    omega

theorem Windowed.quiet {nonce : Nonce} {side : SegmentSide} (hwindowed : socket.Windowed config)
    (hquiet : socket.segment.Quiet side) (hfits : socket.BatchFits config (.segment nonce))
    (hclose : ∀ list front, socket.segment.thread = .inner list front [] →
      side.thread = .outer list →
      ∀ segment, front = some segment → SegmentSide.fits config list segment [] = false)
    (hready : ∀ list, socket.segment.thread = .waiting list → side.thread = .outer list →
      sub64 socket.send.sendId socket.send.sendAckId ≤ 8000) :
    Windowed config { socket with segment := side } := by
  have hstart := hwindowed.start_lt
  have hstop := hwindowed.stop_lt
  have hcopied := hwindowed.copied
  cases hquiet with
  | @idle thread hold hnew =>
      refine hwindowed.thread hstart hstop ?_ ?_
      · rcases hnew with rfl | rfl | rfl <;> rintro _ ⟨⟩
      · rcases hnew with rfl | rfl | rfl <;> exact Nat.zero_le _
  | copy hthread =>
      refine hwindowed.thread hstop hstop ?_ (Nat.zero_le _)
      rintro _ ⟨⟩
      exact hstart
  | wait => exact hwindowed
  | @ready list hthread =>
      have hlist : list.start < ringCapacity := hcopied list (by simp [SegmentSide.copied, hthread])
      refine ⟨hwindowed.range, hwindowed.slots, hstart, hstop, ?_, ?_⟩
      · rintro _ ⟨⟩
        exact hlist
      -- Here the batch is let through, and the condition bounds what it will assign.
      · have hopen := hready list hthread rfl
        simp only [BatchFits, hthread] at hfits
        exact hfits hopen
  | @enter list hthread hlen =>
      have hlist : list.start < ringCapacity := hcopied list (by simp [SegmentSide.copied, hthread])
      refine hwindowed.thread hstart hstop ?_ (le_of_eq ?_)
      · rintro _ ⟨⟩
        exact hlist
      · rw [SegmentSide.packagesLeft_outer hthread]
        exact SegmentSide.packagesLeft_inner rfl hlist
  | finish hthread hlen =>
      exact hwindowed.thread hstart hstop (by rintro _ ⟨⟩) (Nat.zero_le _)
  | @skip list front hthread =>
      refine hwindowed.thread hstart hstop ?_ (le_of_eq ?_)
      · rintro _ ⟨⟩
        exact hcopied list (by simp [SegmentSide.copied, hthread])
      · rw [SegmentSide.packagesLeft_close hthread (hclose list front hthread rfl),
          if_pos rfl, Nat.zero_add]
        rfl

theorem Windowed.segmentStep {nonce : Nonce} (hwindowed : socket.Windowed config)
    (hstep : socket.segmentStep config crypto nonce = some (next, events))
    (hfits : socket.BatchFits config (.segment nonce)) : next.Windowed config := by
  have htransition := segmentStep_transition hstep
  obtain ⟨hslots, hack⟩ := hwindowed.send htransition
  cases htransition with
  | segment hquiet =>
      refine hwindowed.quiet hquiet hfits ?_ ?_
      · intro list front hthread houter
        exact not_fits_of_close hthread hstep houter
      · intro list hthread houter
        by_contra hclosed
        simp only [ReliableSocket.segmentStep, hthread, if_pos (Nat.lt_of_not_le hclosed)] at hstep
        have hsame := congrArg (·.segment.thread) (Prod.mk.inj (Option.some.inj hstep)).1
        rw [← hsame] at houter
        simp [hthread] at houter
  | @unpacked _ list segment body hthread hroom =>
      refine hwindowed.thread hwindowed.start_lt hwindowed.stop_lt ?_ (le_of_eq ?_)
      · rintro _ ⟨⟩
        exact Nat.mod_lt _ (by decide)
      · rw [SegmentSide.packagesLeft_unpack hthread hroom]
        exact SegmentSide.packagesLeft_inner rfl (Nat.mod_lt _ (by decide))
  | @assigned _ list front body hthread hbody hid =>
      refine ⟨hack.2, hslots, hwindowed.start_lt, hwindowed.stop_lt, ?_, ?_⟩
      · rintro _ ⟨⟩
        exact hwindowed.copied list (by simp [SegmentSide.copied, hthread])
      -- One package less is left, and one id more is assigned.
      · have hwindow := hwindowed.window
        rw [SegmentSide.packagesLeft_close hthread (not_fits_of_close hthread hstep rfl),
          if_neg hbody] at hwindow
        rw [SegmentSide.packagesLeft_outer rfl]
        show socket.send.sendId + 1 + packageCount config.mtu
          (list.contents ringCapacity socket.segment.segmentArr) [] ≤
          socket.send.sendAckId + ringCapacity
        omega

theorem Windowed.step (hwindowed : socket.Windowed config)
    (hstep : socket.step config crypto action = some (next, events))
    (hfits : socket.BatchFits config action) : next.Windowed config := by
  have htransition := step_transition hstep
  obtain ⟨hslots, hack⟩ := hwindowed.send htransition
  cases htransition with
  | segment | unpacked | assigned => exact hwindowed.segmentStep hstep hfits
  | @pushed segment hrunning =>
      refine ⟨hwindowed.range, hwindowed.slots, hwindowed.start_lt, Nat.mod_lt _ (by decide),
        hwindowed.copied, ?_⟩
      have hwindow := hwindowed.window
      -- A push matters only if the thread is still to read the cell it writes.
      rcases Nat.lt_or_ge (socket.segment.packagesLeft config)
        ((socket.segment.pushSegment segment).packagesLeft config) with hmore | hless
      · exact hfits hmore
      · show socket.send.sendId + (socket.segment.pushSegment segment).packagesLeft config ≤
          socket.send.sendAckId + ringCapacity
        omega
  | refused | close | ackSender | data | ack | connectionClose | recvPackage =>
      exact hwindowed.still hslots hack rfl rfl
  | sender hsend =>
      have hframe := (SendSide.senderStep_transition hsend).assigned_frame (by rintro _ ⟨⟩)
      exact hwindowed.still hslots hack rfl hframe.1
  | ackHandler hsend =>
      have hframe := (SendSide.ackHandlerStep_transition hsend).assigned_frame (by rintro _ ⟨⟩)
      exact hwindowed.still hslots hack rfl hframe.1
  | receiver hreceiving =>
      cases hreceiving with
      | @fastResend resendId =>
          obtain ⟨pool, heq⟩ := @SendSide.fastResend_frame socket.send resendId
          exact hwindowed.still hslots hack rfl (by rw [heq])
      | head | queueAck | recvUna | ackRecv | fastResent =>
          exact hwindowed.still hslots hack rfl rfl

/-- The window holds in every run in which every batch fits when it is let through. -/
theorem window_holds
    (hreach : (socketMachine config crypto).Reach
      (fun socket _ action _ => socket.BatchFits config action) (init memory) socket trace) :
    socket.send.WindowHolds := by
  have hwindowed := hreach.invariant (fun socket _ => socket.Windowed config) ?_ ?_
  · have := hwindowed.window
    exact .of_window hwindowed.slots (by omega)
  · refine ⟨?_, fun _ hslot => absurd rfl hslot, ?_, ?_, by rintro _ ⟨⟩, ?_⟩ <;>
      simp [init, SegmentSide.packagesLeft, ringCapacity]
  · exact fun _ _ _ _ _ hwindowed hstep hfits => hwindowed.step hstep hfits

/-- Three segments are pushed while the thread sleeps, and become two packages of one batch. -/
theorem window_holds_batch : ∃ socket trace,
    (socketMachine .standard .marking).Reach
      (fun socket _ action _ => socket.BatchFits .standard action) (init .zeroed) socket trace ∧
    socket.send.sendId = 3 ∧ socket.send.WindowHolds := by
  obtain ⟨socket, trace, hreach, hsendId⟩ := Machine.reach_of_exec
    (fun (socket : ReliableSocket) (_ : List Event) => socket.send.sendId)
    (show ((socketMachine .standard .marking).exec
      (fun socket _ action _ => socket.BatchFits .standard action) (init .zeroed) []
      ([.sendPackage (List.replicate 1000 7), .sendPackage [8],
        .sendPackage (List.replicate 1000 9)] ++ List.replicate 10 (.segment .zero))).map _ =
          some 3 by decide +kernel)
  exact ⟨socket, trace, hreach, hsendId, window_holds hreach⟩

/-- Segments of which no package holds two get a package each. -/
theorem packOuter_wide {mtu : Int} {segment : Bytes} (hmtu : maxSegment mtu ≤ maxMtu + 1)
    (hfits : fitsPackage mtu segment [] = true)
    (hwide : ¬fitsPackage mtu segment (Framing.frame segment) = true) (count : Nat) :
    packOuter mtu count (List.replicate count segment) =
      some (List.replicate count (Framing.frame segment ++ Framing.word 0)) := by
  have hinner : ∀ count, packInner mtu (List.replicate (count + 1) segment) [] =
      some (Framing.frame segment, List.replicate count segment) := by
    intro count
    have hroom := packInner_isSome hmtu [segment] []
    rw [packInner, if_pos hfits, List.nil_append, packInner] at hroom
    rw [List.replicate_succ, packInner, if_pos hfits, List.nil_append]
    split at hroom
    next hbuffer =>
      rw [if_pos hbuffer]
      cases count with
      | zero => rfl
      | succ count => rw [List.replicate_succ, packInner, if_neg hwide]
    next => cases hroom
  induction count with
  | zero => rfl
  | succ count ih =>
      have hne : (Framing.frame segment).length + 2 > 2 := by
        simp [Framing.frame, Framing.word]
      have hloop := hinner count
      rw [List.replicate_succ] at hloop ⊢
      simp only [packOuter, hloop, Option.bind_some, if_pos hne, ih]
      rfl

/-- Segments of 1000 bytes, pushed while the thread sleeps, become a package each, in one
batch. -/
theorem reach_thousands {start : ReliableSocket} (count : Nat) (hidle : socket.Idle)
    (hwindow : ¬sub64 socket.send.sendId socket.send.sendAckId > 8000) (hpos : 0 < count)
    (hring : count ≤ ringCapacity) (hid : socket.send.sendId + count + 1 < 2 ^ 63)
    (hreach : (socketMachine .standard .marking).Reach Machine.always start socket trace) :
    ∃ next after, (socketMachine .standard .marking).Reach Machine.always start next after ∧
      next.Idle ∧ next.send.sendId = socket.send.sendId + count ∧
      next.send.sendAckId = socket.send.sendAckId ∧
      next.send.ackRecvPool = socket.send.ackRecvPool := by
  obtain ⟨segment, hsegment⟩ : ∃ segment : Bytes, segment = List.replicate 1000 0 := ⟨_, rfl⟩
  have hlength : segment.length = 1000 := by rw [hsegment, List.length_replicate]
  have hfits : fitsPackage Config.standard.mtu segment [] = true := by
    rw [fitsPackage, hlength]
    decide
  have hwide : ¬fitsPackage Config.standard.mtu segment (Framing.frame segment) = true := by
    have hframe : (Framing.frame segment).length = 1002 := by
      simp [Framing.frame, Framing.word, hlength]
    rw [fitsPackage, hlength, hframe]
    decide
  have hnonempty : List.replicate count segment ≠ [] :=
    List.ne_nil_of_length_pos (by rwa [List.length_replicate])
  obtain ⟨next, after, hnext, hidle, hsend⟩ := @reach_batch .standard .marking .zero _ _ trace _
    count _ hidle hwindow hnonempty (by rwa [List.length_replicate])
    (packOuter_wide (by decide) hfits hwide count) (by rwa [List.length_replicate]) hreach
  exact ⟨next, after, hnext, hidle, by simp [hsend], by simp [hsend], by simp [hsend]⟩

theorem idle_zeroed : (init .zeroed).Idle := ⟨rfl, rfl, ⟨by decide, by decide, by decide⟩, rfl⟩

/-- One wide segment becomes the first package. A hundred thousand more, pushed while the
thread sleeps, pass the test of the window together: the last package takes the slot of the
first, and neither is acknowledged. -/
theorem window_exceeded : ∃ socket trace,
    (socketMachine .standard .marking).Reach Machine.always (init .zeroed) socket trace ∧
    socket.send.sendId = ringCapacity + 2 ∧ ¬socket.send.Acknowledged 1 ∧
    ¬socket.send.Acknowledged (1 + ringCapacity) ∧ ¬socket.send.WindowHolds := by
  obtain ⟨first, trace, hfirst, hidle, hsendId, hsendAckId, hacks⟩ :=
    reach_thousands 1 idle_zeroed (by decide) (by decide) (by decide) (by decide) .start
  have hsendId : first.send.sendId = 2 := hsendId
  have hsendAckId : first.send.sendAckId = 0 := hsendAckId
  obtain ⟨socket, trace, hreach, _, hlast, hlastAck, hlastAcks⟩ :=
    reach_thousands ringCapacity hidle (by rw [hsendId, hsendAckId]; decide) (by decide)
      (le_refl _) (by rw [hsendId]; decide) hfirst
  have hopen : ∀ id, 1 ≤ id → ¬socket.send.Acknowledged id := by
    rintro id hid (hle | hfound)
    · rw [hlastAck, hsendAckId] at hle
      omega
    · rw [hlastAcks, hacks] at hfound
      exact hfound (Memory.zeroed_noStaleAck.find id)
  have hcount : socket.send.sendId = ringCapacity + 2 := by rw [hlast, hsendId, Nat.add_comm]
  refine ⟨socket, trace, hreach, hcount, hopen 1 (le_refl 1), hopen _ (Nat.le_add_right 1 _), ?_⟩
  intro hholds
  have hsame := hholds.distinct 1 (1 + ringCapacity) (le_refl 1) (by omega) (by omega) (by omega)
    (hopen 1 (le_refl 1)) (hopen _ (Nat.le_add_right 1 _)) (Nat.add_mod_right 1 _).symm
  unfold ringCapacity at hsame
  omega

end ReliableSocket

end Sharpvpn
