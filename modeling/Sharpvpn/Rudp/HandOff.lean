import Sharpvpn.Rudp.Packing

/-!
# The hand-off of segments

`send_package` and the segment thread share one array. The thread takes segments in the
order in which they were pushed until a push overruns the array: `push` does not wait
for room, where its sibling `PackageMap::push` does.
-/

namespace Sharpvpn

open Foundation

namespace SegmentSide

variable {side : SegmentSide} {segments : List Bytes}

/-- `send_package` is called with one segment after another. -/
def pushAll (side : SegmentSide) (segments : List Bytes) : SegmentSide :=
  segments.foldl pushSegment side

@[simp] theorem pushAll_thread (side : SegmentSide) (segments : List Bytes) :
    (side.pushAll segments).thread = side.thread := by
  induction segments generalizing side with
  | nil => rfl
  | cons segment rest ih => exact ih (side.pushSegment segment)

@[simp] theorem pushAll_start (side : SegmentSide) (segments : List Bytes) :
    (side.pushAll segments).segmentList.start = side.segmentList.start := by
  induction segments generalizing side with
  | nil => rfl
  | cons segment rest ih => exact ih (side.pushSegment segment)

/-- While there is room, the segments are appended. -/
theorem pushAll_contents (hvalid : side.segmentList.Valid ringCapacity)
    (hroom : side.segmentList.len + segments.length ≤ ringCapacity) :
    (side.pushAll segments).segmentList.Valid ringCapacity ∧
      (side.pushAll segments).segmentList.contents ringCapacity (side.pushAll segments).segmentArr =
        side.segmentList.contents ringCapacity side.segmentArr ++ segments := by
  induction segments generalizing side with
  | nil => exact ⟨hvalid, (List.append_nil _).symm⟩
  | cons segment rest ih =>
      rw [List.length_cons] at hroom
      have hlen : (side.pushSegment segment).segmentList.len = side.segmentList.len + 1 := rfl
      have hcontents : (side.pushSegment segment).segmentList.contents ringCapacity
          (side.pushSegment segment).segmentArr =
          side.segmentList.contents ringCapacity side.segmentArr ++ [segment] :=
        Cursor.contents_push hvalid (by omega) segment
      obtain ⟨hpushed, hall⟩ := @ih (side.pushSegment segment) (hvalid.push (by omega)) (by omega)
      refine ⟨hpushed, hall.trans ?_⟩
      rw [hcontents, List.append_assoc]
      rfl

theorem front_eq {list : Cursor} (hlen : 0 < list.len) :
    side.front list = some (side.segmentArr list.start) := by
  rw [front, if_neg (by omega)]

theorem front_eq_none {list : Cursor} (hlen : list.len = 0) : side.front list = none :=
  if_pos hlen

/-- One segment more than the array has cells lands at the front. -/
theorem front_overrun {segment : Bytes} (hvalid : side.segmentList.Valid ringCapacity)
    (hempty : side.segmentList.len = 0) (hring : segments.length = ringCapacity) :
    let overrun := (side.pushAll segments).pushSegment segment
    overrun.segmentList.len ≠ 0 ∧ overrun.front overrun.segmentList = some segment := by
  intro overrun
  obtain ⟨hfull, hcontents⟩ := pushAll_contents hvalid (by omega : _ + segments.length ≤ _)
  have hlen := congrArg List.length hcontents
  rw [Cursor.contents_eq_nil hempty, List.nil_append, Cursor.length_contents, hring] at hlen
  have hcell : (side.pushAll segments).segmentList.start =
      (side.pushAll segments).segmentList.stop := by
    rw [hfull.stop_eq, hlen, Nat.add_mod_right, Nat.mod_eq_of_lt hfull.start_lt]
  have hpos : overrun.segmentList.len ≠ 0 :=
    Nat.succ_ne_zero (side.pushAll segments).segmentList.len
  have hfirst : overrun.segmentArr overrun.segmentList.start = segment := by
    have hupdate : overrun.segmentArr = Function.update (side.pushAll segments).segmentArr
      (side.pushAll segments).segmentList.stop segment := rfl
    rw [hupdate, ← hcell]
    exact Function.update_self ..
  refine ⟨hpos, ?_⟩
  unfold front
  rw [if_neg hpos, hfirst]

end SegmentSide

@[simp] theorem pushedSegments_map (segments : List Bytes) :
    pushedSegments (segments.map .pushed) = segments := by
  rw [pushedSegments, List.filterMap_map]
  exact List.filterMap_some

@[simp] theorem unpackedSegments_map (segments : List Bytes) :
    unpackedSegments (segments.map .pushed) = [] := by
  rw [unpackedSegments, List.filterMap_map]
  exact List.filterMap_eq_nil_iff.mpr fun _ _ => rfl

namespace ReliableSocket

variable {config : Config} {crypto : SharpCrypto} {memory : Memory}
  {socket next : ReliableSocket} {action : Action} {trace events : List Event}

/-- Segments are pushed while all threads stand still. -/
theorem reach_pushAll {allowed : Machine.StepCondition ReliableSocket Action Event}
    {start : ReliableSocket} (hrunning : socket.workerRunning = true)
    (hallowed : ∀ segment side trace, allowed { socket with segment := side } trace
      (.sendPackage segment) { socket with segment := side.pushSegment segment })
    (segments : List Bytes)
    (hreach : (socketMachine config crypto).Reach allowed start socket trace) :
    (socketMachine config crypto).Reach allowed start
      { socket with segment := socket.segment.pushAll segments }
      (trace ++ segments.map Event.pushed) := by
  suffices hside : ∀ side trace, (socketMachine config crypto).Reach allowed start
      { socket with segment := side } trace → (socketMachine config crypto).Reach allowed start
      { socket with segment := side.pushAll segments } (trace ++ segments.map Event.pushed) from
    hside socket.segment trace hreach
  induction segments with
  | nil =>
      intro side trace hside
      rwa [List.map_nil, List.append_nil]
  | cons segment rest ih =>
      intro side trace hside
      have hpushed := hside.extend (.sendPackage segment)
        (show (socketMachine config crypto).step _ _ = some
          ({ socket with segment := side.pushSegment segment }, [.pushed segment]) by
          simp [socketMachine, step, sendPackage, hrunning])
        (hallowed segment side trace)
      have hrest := ih (side.pushSegment segment) _ hpushed
      rwa [List.append_assoc] at hrest

/-- The thread wakes up, copies the list and finds the window open. -/
theorem reach_outer {allowed : Machine.StepCondition ReliableSocket Action Event}
    {start : ReliableSocket} (nonce : Nonce)
    (hallowed : ∀ before after trace, allowed { socket with segment := before } trace
      (.segment nonce) { socket with segment := after })
    (hrunning : socket.workerRunning = true) (hthread : socket.segment.thread = .head)
    (hlen : socket.segment.segmentList.len ≠ 0)
    (hwindow : ¬sub64 socket.send.sendId socket.send.sendAckId > 8000)
    (hreach : (socketMachine config crypto).Reach allowed start socket trace) :
    (socketMachine config crypto).Reach allowed start
      { socket with segment := { socket.segment with
        segmentList := socket.segment.segmentList.rebase
        thread := .outer socket.segment.segmentList } } trace := by
  have hawake := hreach.extend (.segment nonce)
    (show _ = some ({ socket with segment := { socket.segment with thread := .awake } }, []) by
      simp [socketMachine, step, segmentStep, hthread, hrunning]) (hallowed socket.segment _ _)
  have hwaiting := hawake.extend (.segment nonce)
    (show _ = some ({ socket with segment := { socket.segment with
        segmentList := socket.segment.segmentList.rebase
        thread := .waiting socket.segment.segmentList } }, []) by
      simp [socketMachine, step, segmentStep, hlen]) (hallowed _ _ _)
  have houter := hwaiting.extend (.segment nonce)
    (show _ = some ({ socket with segment := { socket.segment with
        segmentList := socket.segment.segmentList.rebase
        thread := .outer socket.segment.segmentList } }, []) by
      simp [socketMachine, step, segmentStep, hwindow]) (hallowed _ _ _)
  simpa using houter

/-- A push finds room for its segment. -/
def HasRoom (socket : ReliableSocket) : Action → Prop
  | .sendPackage _ => socket.workerRunning = true → socket.segment.backlog < ringCapacity
  | _ => True

instance (socket : ReliableSocket) (action : Action) : Decidable (socket.HasRoom action) := by
  unfold HasRoom
  split <;> infer_instance

/-- Only `send_package` pushes. -/
theorem Transition.backlog_of_pushed
    (htransition : socket.Transition config crypto action next events)
    (hroom : socket.HasRoom action) {segment : Bytes} (hpushed : .pushed segment ∈ events) :
    next.segment.backlog ≤ ringCapacity := by
  have hnone : pushedSegments events = [] → False := by
    intro hnone
    have hmem : segment ∈ pushedSegments events := List.mem_filterMap.mpr ⟨_, hpushed, rfl⟩
    rw [hnone] at hmem
    cases hmem
  cases htransition with
  | pushed hrunning =>
      have := hroom hrunning
      simp only [SegmentSide.backlog, SegmentSide.pushSegment, Cursor.push] at this ⊢
      omega
  | refused | close | segment | unpacked | ack | connectionClose => simp at hpushed
  | assigned => exact (hnone (pushedSegments_ofSend (SendSide.filter_assignEvents _ _)).1).elim
  | sender hstep =>
      exact (hnone (pushedSegments_ofSend (SendSide.senderStep_transition hstep).ofSend).1).elim
  | ackHandler hstep =>
      exact (hnone (pushedSegments_ofSend (SendSide.ackHandlerStep_transition hstep).ofSend).1).elim
  | ackSender hsending => cases hsending <;> simp at hpushed
  | data _ hcaller =>
      exact (hnone (pushedSegments_ofRecv
        (@RecvSide.Transition.data crypto _ _ _ _ hcaller).ofRecv).1).elim
  | recvPackage hstep =>
      have hmove : socket.recv.step crypto (.recvPackage socket.workerRunning) = _ := hstep
      exact (hnone (pushedSegments_ofRecv (RecvSide.step_transition hmove).ofRecv).1).elim
  | receiver hreceiving =>
      cases hreceiving with
      | fastResend =>
          unfold SendSide.fastResendEvents at hpushed
          split at hpushed <;> simp at hpushed
      | head | queueAck | recvUna | ackRecv | fastResent => simp at hpushed

/-- The segments the thread takes are the first ones pushed, in order, in every run in
which each push finds room. -/
theorem unpacked_prefix
    (hreach : (socketMachine config crypto).Reach (fun socket _ action _ => socket.HasRoom action)
      (init memory) socket trace) : unpackedSegments trace <+: pushedSegments trace := by
  have hlined := hreach.invariant (fun socket trace => socket.segment.Lined trace) ?_ ?_
  · rw [hlined.pushed]
    exact List.prefix_append _ _
  · exact ⟨⟨Nat.succ_pos _, rfl, Nat.zero_le _⟩, by rintro _ ⟨⟩, by rintro _ _ _ ⟨⟩, rfl⟩
  · intro socket trace action next events hlined hstep hroom
    have htransition := step_transition hstep
    exact lined_step hlined htransition.segmentMove
      fun _ hpushed => htransition.backlog_of_pushed hroom hpushed

/-- Two segments are pushed, and a third one while the thread takes them. -/
theorem unpacked_prefix_three : ∃ socket trace,
    (socketMachine .standard .marking).Reach (fun socket _ action _ => socket.HasRoom action)
      (init .zeroed) socket trace ∧
    unpackedSegments trace = [[7], [8], [9]] ∧
      unpackedSegments trace <+: pushedSegments trace := by
  obtain ⟨socket, trace, hreach, hunpacked⟩ := Machine.reach_of_exec
    (fun (_ : ReliableSocket) (trace : List Event) => unpackedSegments trace)
    (show ((socketMachine .standard .marking).exec (fun socket _ action _ => socket.HasRoom action)
      (init .zeroed) [] ([.sendPackage [7], .sendPackage [8]] ++
        List.replicate 5 (.segment .zero) ++ .sendPackage [9] ::
          List.replicate 9 (.segment .zero))).map _ = some [[7], [8], [9]] by decide +kernel)
  exact ⟨socket, trace, hreach, hunpacked, unpacked_prefix hreach⟩

/-- One segment more than the array has cells is pushed while the thread sleeps: the
thread takes that one first. -/
theorem unpacked_last {ring : List Bytes} {segment : Bytes} (hring : ring.length = ringCapacity)
    (hfits : ∀ list : Cursor, 0 < list.len → SegmentSide.fits .standard list segment [] = true) :
    ∃ socket trace,
      (socketMachine .standard .marking).Reach Machine.always (init .zeroed) socket trace ∧
      pushedSegments trace = ring ++ [segment] ∧ unpackedSegments trace = [segment] := by
  let overrun : SegmentSide := ((init .zeroed).segment.pushAll ring).pushSegment segment
  have hthread : overrun.thread = .head := SegmentSide.pushAll_thread _ _
  obtain ⟨hpos, hfront⟩ : overrun.segmentList.len ≠ 0 ∧
      overrun.front overrun.segmentList = some segment :=
    SegmentSide.front_overrun ⟨by decide, by decide, by decide⟩ rfl hring
  have hwindow : ¬sub64 (init .zeroed).send.sendId (init .zeroed).send.sendAckId > 8000 := by
    decide
  have hfull := @reach_pushAll .standard .marking (init .zeroed) [] Machine.always (init .zeroed)
    rfl (fun _ _ _ => trivial) ring .start
  have hover := hfull.extend (.sendPackage segment)
    (show _ = some ({ init .zeroed with segment := overrun }, [.pushed segment]) from rfl) trivial
  have houter :=
    @reach_outer .standard .marking { init .zeroed with segment := overrun } _ _ _ .zero
    (fun _ _ _ => trivial)
    rfl hthread hpos hwindow hover
  have hlen : 0 < overrun.segmentList.len := Nat.pos_of_ne_zero hpos
  have hinner := houter.extend (.segment .zero)
    (show _ = some ({ init .zeroed with segment := { overrun with
        segmentList := overrun.segmentList.rebase
        thread := .inner overrun.segmentList (some segment) [] } }, []) by
      simp only [socketMachine, step, segmentStep, hlen, if_true]
      rw [← hfront]
      rfl) trivial
  have hunpacked := hinner.extend (.segment .zero)
    (show _ = some (_, [.unpacked segment]) by
      simp only [socketMachine, step, segmentStep, hfits _ hlen, if_true]
      rfl) trivial
  refine ⟨_, _, hunpacked, ?_, ?_⟩
  · simp only [pushedSegments_append, pushedSegments_map]
    simp [pushedSegments, Event.pushedSegment?]
  · simp only [unpackedSegments_append, unpackedSegments_map]
    simp [unpackedSegments, Event.unpackedSegment?]

/-- A hundred thousand equal segments and another one are pushed, and the other one comes
out first. -/
theorem unpacked_overrun : ∃ socket trace,
    (socketMachine .standard .marking).Reach Machine.always (init .zeroed) socket trace ∧
    ¬unpackedSegments trace <+: pushedSegments trace := by
  obtain ⟨socket, trace, hreach, hpushed, hunpacked⟩ := @unpacked_last
    (List.replicate ringCapacity [1]) [2] List.length_replicate fun list hlen => by
      simp only [SegmentSide.fits, hlen]
      decide
  refine ⟨socket, trace, hreach, ?_⟩
  obtain ⟨count, hcount⟩ : ∃ count, ringCapacity = count + 1 := ⟨99999, rfl⟩
  rw [hpushed, hunpacked, hcount, List.replicate_succ]
  simp

end ReliableSocket

end Sharpvpn
