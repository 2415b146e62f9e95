import Sharpvpn.Rudp.Assigned

/-!
# From segments to packages

The segment thread packs the segments pushed into packages, in order and without
loss, as long as the segment list is never overrun; the sender sends only packages
the segment thread has built.
-/

namespace Sharpvpn

open Foundation

namespace SegmentSide

variable {side next : SegmentSide} {trace events : List Event}

/-- The list the thread has copied and not finished. -/
def copied (side : SegmentSide) : Option Cursor :=
  match side.thread with
  | .waiting list | .outer list | .inner list _ _ => some list
  | .head | .awake | .exited => none

/-- The part of the array that holds segments pushed and not packed. -/
def backlogCursor (side : SegmentSide) : Cursor :=
  match side.copied with
  | some list => list.join side.segmentList
  | none => side.segmentList

theorem backlog_eq (side : SegmentSide) : side.backlog = side.backlogCursor.len := by
  unfold backlog backlogCursor copied
  cases side.thread <;> simp [Cursor.join, Nat.add_comm]

@[simp] theorem backlogCursor_stop (side : SegmentSide) :
    side.backlogCursor.stop = side.segmentList.stop := by
  unfold backlogCursor
  cases side.copied <;> rfl

/-- The segments pushed are those unpacked and those in the backlog. The copied list
ends where the list itself begins, and the thread holds the front of its copy. -/
structure Lined (side : SegmentSide) (trace : List Event) : Prop where
  valid : side.backlogCursor.Valid ringCapacity
  adjacent : ∀ list, side.copied = some list →
    side.segmentList.start = (list.start + list.len) % ringCapacity
  front_eq : ∀ list front body, side.thread = .inner list front body → front = side.front list
  pushed : pushedSegments trace =
    unpackedSegments trace ++ side.backlogCursor.contents ringCapacity side.segmentArr

theorem backlogCursor_of_copied {list : Cursor} (hcopied : side.copied = some list) :
    side.backlogCursor = list.join side.segmentList := by
  simp [backlogCursor, hcopied]

theorem backlogCursor_of_none (hcopied : side.copied = none) :
    side.backlogCursor = side.segmentList := by
  simp [backlogCursor, hcopied]

theorem Lined.pushSegment {segment : Bytes} (hlined : side.Lined trace)
    (hroom : (side.pushSegment segment).backlog ≤ ringCapacity) :
    (side.pushSegment segment).Lined (trace ++ [.pushed segment]) := by
  have hcursor : (side.pushSegment segment).backlogCursor =
      side.backlogCursor.push ringCapacity := by
    have hcopied : (side.pushSegment segment).copied = side.copied := rfl
    unfold backlogCursor
    rw [hcopied]
    cases side.copied <;> rfl
  have hlt : side.backlogCursor.len < ringCapacity := by
    rw [backlog_eq, hcursor] at hroom
    exact hroom
  refine ⟨hcursor ▸ hlined.valid.push hlt, hlined.adjacent, ?_, ?_⟩
  · intro list front body hthread
    rw [hlined.front_eq list front body hthread]
    unfold SegmentSide.front
    split
    next => rfl
    next hlen =>
      -- the front of the copied list is in the backlog, the segment goes behind it
      have hcopied : side.copied = some list := by
        have : side.thread = .inner list front body := hthread
        simp [copied, this]
      have hpos : 0 < side.backlogCursor.len := by
        rw [backlogCursor_of_copied hcopied]
        exact Nat.add_pos_left (Nat.pos_of_ne_zero hlen) _
      have hcell := Cursor.cell_ne_stop hlined.valid hlt hpos
      rw [Nat.add_zero, Nat.mod_eq_of_lt hlined.valid.start_lt, backlogCursor_stop,
        backlogCursor_of_copied hcopied] at hcell
      have hcell : list.start ≠ side.segmentList.stop := hcell
      simp only [SegmentSide.pushSegment, Function.update_of_ne hcell]
  · have hcontents := @Cursor.contents_push _ _ side.segmentArr _ hlined.valid hlt segment
    rw [backlogCursor_stop] at hcontents
    rw [hcursor, pushedSegments_append, unpackedSegments_append, hlined.pushed]
    simp only [SegmentSide.pushSegment]
    rw [hcontents]
    simp [pushedSegments, unpackedSegments, Event.pushedSegment?, Event.unpackedSegment?]

/-- The thread moves between its loops; the backlog stays as it is. -/
theorem Lined.quiet (hlined : side.Lined trace) (hquiet : side.Quiet next) :
    next.Lined (trace ++ []) := by
  rw [List.append_nil]
  have hvalid := hlined.valid
  have hpushed := hlined.pushed
  cases hquiet with
  | idle hold hnew =>
      have hcopied : side.copied = none := by
        rcases hold with hthread | hthread <;> simp [copied, hthread]
      rw [backlogCursor_of_none hcopied] at hvalid hpushed
      rcases hnew with rfl | rfl | rfl <;>
        exact ⟨hvalid, by rintro _ ⟨⟩, by rintro _ _ _ ⟨⟩, hpushed⟩
  | copy hthread =>
      have hcopied : side.copied = none := by simp [copied, hthread]
      rw [backlogCursor_of_none hcopied] at hvalid hpushed
      refine ⟨hvalid, ?_, by rintro _ _ _ ⟨⟩, hpushed⟩
      rintro list ⟨⟩
      exact hvalid.stop_eq
  | wait => exact hlined
  | @ready list hthread | @skip list _ hthread =>
      have hcopied : side.copied = some list := by simp [copied, hthread]
      rw [backlogCursor_of_copied hcopied] at hvalid hpushed
      refine ⟨hvalid, ?_, by rintro _ _ _ ⟨⟩, hpushed⟩
      rintro _ ⟨⟩
      exact hlined.adjacent list hcopied
  | @enter list hthread =>
      have hcopied : side.copied = some list := by simp [copied, hthread]
      rw [backlogCursor_of_copied hcopied] at hvalid hpushed
      refine ⟨hvalid, ?_, ?_, hpushed⟩
      · rintro _ ⟨⟩
        exact hlined.adjacent list hcopied
      · rintro _ _ _ ⟨⟩
        rfl
  | @finish list hthread hlen =>
      have hcopied : side.copied = some list := by simp [copied, hthread]
      have hadjacent := hlined.adjacent list hcopied
      rw [backlogCursor_of_copied hcopied] at hvalid hpushed
      rw [Cursor.contents_join hadjacent, Cursor.contents_eq_nil hlen, List.nil_append] at hpushed
      have hstart : list.start < ringCapacity := hvalid.start_lt
      rw [hlen, Nat.add_zero, Nat.mod_eq_of_lt hstart] at hadjacent
      refine ⟨⟨hadjacent ▸ hstart, ?_, ?_⟩, by rintro _ ⟨⟩, by rintro _ _ _ ⟨⟩, hpushed⟩
      · have hstop := hvalid.stop_eq
        simp only [Cursor.join, hlen, Nat.zero_add, ← hadjacent] at hstop
        exact hstop
      · have hle := hvalid.len_le
        simp only [Cursor.join, hlen, Nat.zero_add] at hle
        exact hle

/-- The thread takes the segment at the front of the backlog. -/
theorem Lined.unpack {list : Cursor} {segment body : Bytes} (hlined : side.Lined trace)
    (hthread : side.thread = .inner list (some segment) body) :
    (side.unpack list segment body).Lined (trace ++ [.unpacked segment]) := by
  have hcopied : side.copied = some list := by simp [copied, hthread]
  have hfront := hlined.front_eq list (some segment) body hthread
  unfold SegmentSide.front at hfront
  split at hfront
  next => cases hfront
  next hlen =>
    have hsegment := Option.some.inj hfront
    have hvalid := hlined.valid
    have hpushed := hlined.pushed
    have hadjacent := hlined.adjacent list hcopied
    rw [backlogCursor_of_copied hcopied] at hvalid hpushed
    have hpos : 0 < (list.join side.segmentList).len :=
      Nat.add_pos_left (Nat.pos_of_ne_zero hlen) _
    have hpop : (list.pop ringCapacity).join side.segmentList =
        (list.join side.segmentList).pop ringCapacity := by
      simp only [Cursor.join, Cursor.pop, Cursor.mk.injEq, true_and]
      omega
    refine ⟨?_, ?_, ?_, ?_⟩
    · show ((list.pop ringCapacity).join side.segmentList).Valid ringCapacity
      rw [hpop]
      exact hvalid.pop hpos
    · rintro _ ⟨⟩
      show side.segmentList.start = _
      rw [hadjacent]
      simp only [Cursor.pop, Nat.mod_add_mod]
      congr 1
      omega
    · rintro _ _ _ ⟨⟩
      rfl
    · have hcontents := @Cursor.contents_eq_cons _ _ side.segmentArr _ hvalid.start_lt hpos
      rw [← hpop] at hcontents
      show _ = _ ++ ((list.pop ringCapacity).join side.segmentList).contents ringCapacity
        side.segmentArr
      rw [pushedSegments_append, unpackedSegments_append, hpushed, hcontents]
      simp [pushedSegments, unpackedSegments, Event.pushedSegment?, Event.unpackedSegment?,
        hsegment, Cursor.join]

end SegmentSide

theorem pushedSegments_ofSend {events : List Event}
    (hsend : ∀ event ∈ events, event.ofSend = true) :
    pushedSegments events = [] ∧ unpackedSegments events = [] := by
  constructor <;> refine List.filterMap_eq_nil_iff.mpr fun event hmem => ?_ <;>
    have hevent := hsend event hmem <;> cases event <;> first | rfl | cases hevent

theorem pushedSegments_ofRecv {events : List Event}
    (hrecv : ∀ event ∈ events, event.ofRecv = true) :
    pushedSegments events = [] ∧ unpackedSegments events = [] ∧ assignedPackages events = [] := by
  refine ⟨?_, ?_, ?_⟩ <;> refine List.filterMap_eq_nil_iff.mpr fun event hmem => ?_ <;>
    have hevent := hrecv event hmem <;> cases event <;> first | rfl | cases hevent

/-- The package seals the group of segments its id names. -/
def SharpCrypto.Seals (crypto : SharpCrypto) (groups : List (List Bytes))
    (package : PackageData) : Prop :=
  ∃ count group, package.packageId = 1 + count ∧ groups[count]? = some group ∧
    crypto.decrypt package.payload = some (Framing.encode group)

namespace ReliableSocket

/-- What a step does to the segment list and its thread, and to the ids assigned. -/
inductive SegmentMove (config : Config) (crypto : SharpCrypto) (socket next : ReliableSocket)
    (events : List Event) : Prop
  | still (hsegment : next.segment = socket.segment)
      (hsendId : next.send.sendId = socket.send.sendId)
      (hpushed : pushedSegments events = []) (hunpacked : unpackedSegments events = [])
      (hassigned : assignedPackages events = [])
  | pushed {segment} (hsegment : next.segment = socket.segment.pushSegment segment)
      (hsendId : next.send.sendId = socket.send.sendId) (hevents : events = [.pushed segment])
  | quiet (hquiet : socket.segment.Quiet next.segment)
      (hsendId : next.send.sendId = socket.send.sendId) (hevents : events = [])
  | unpacked {list segment body}
      (hthread : socket.segment.thread = .inner list (some segment) body)
      (hfits : SegmentSide.fits config list segment body = true)
      (hsegment : next.segment = socket.segment.unpack list segment body)
      (hsendId : next.send.sendId = socket.send.sendId) (hevents : events = [.unpacked segment])
  | assigned {list front body nonce}
      (hthread : socket.segment.thread = .inner list front body) (hbody : body ≠ [])
      (hsegment : next.segment = { socket.segment with thread := .outer list })
      (hsendId : next.send.sendId = socket.send.sendId + 1)
      (hevents : events =
        socket.send.assignEvents (crypto.encrypt nonce (body ++ Framing.word 0)))

variable {config : Config} {crypto : SharpCrypto} {memory : Memory}
  {socket next : ReliableSocket} {action : Action} {trace events : List Event}

theorem still_of_send (move : SendAction) (hstep : socket.send.step move = some (next.send, events))
    (hmove : ∀ payload, move ≠ .assign payload) (hsegment : next.segment = socket.segment) :
    socket.SegmentMove config crypto next events := by
  have hsend := SendSide.step_transition hstep
  obtain ⟨hsendId, hassigned⟩ := hsend.assigned_frame hmove
  obtain ⟨hpushed, hunpacked⟩ := pushedSegments_ofSend hsend.ofSend
  exact .still hsegment hsendId hpushed hunpacked hassigned

theorem still_of_recv (move : RecvAction)
    (hstep : socket.recv.step crypto move = some (next.recv, events))
    (hsegment : next.segment = socket.segment) (hsend : next.send = socket.send) :
    socket.SegmentMove config crypto next events := by
  obtain ⟨hpushed, hunpacked, hassigned⟩ :=
    pushedSegments_ofRecv (RecvSide.step_transition hstep).ofRecv
  exact .still hsegment (by rw [hsend]) hpushed hunpacked hassigned

theorem Transition.segmentMove (htransition : socket.Transition config crypto action next events) :
    socket.SegmentMove config crypto next events := by
  cases htransition with
  | pushed => exact .pushed rfl rfl rfl
  | segment hquiet => exact .quiet hquiet rfl rfl
  | unpacked hthread hfits => exact .unpacked hthread hfits rfl rfl rfl
  | assigned hthread hbody => exact .assigned hthread hbody rfl rfl rfl
  | refused | close | ack | connectionClose => exact .still rfl rfl rfl rfl rfl
  | ackSender hsending => cases hsending <;> exact .still rfl rfl rfl rfl rfl
  | sender hstep => exact still_of_send (.sender ..) hstep (by rintro _ ⟨⟩) rfl
  | ackHandler hstep => exact still_of_send (.ackHandler ..) hstep (by rintro _ ⟨⟩) rfl
  | @data packageId una payload _ hcaller =>
      exact still_of_recv (.receive (.data packageId una payload)) (if_neg hcaller) rfl rfl
  | recvPackage hstep => exact still_of_recv (.recvPackage _) hstep rfl rfl
  | receiver hreceiving =>
      cases hreceiving with
      | head | queueAck | recvUna | ackRecv | fastResent => exact .still rfl rfl rfl rfl rfl
      | @fastResend resendId =>
          exact still_of_send (.fastResend resendId) rfl (by rintro _ ⟨⟩) rfl

/-- The packages assigned so far hold consecutive groups of the segments unpacked;
what is left are the segments in the buffer of the segment thread. -/
structure Packed (crypto : SharpCrypto) (socket : ReliableSocket) (trace : List Event)
    (groups : List (List Bytes)) (current : List Bytes) : Prop where
  assigned : ∀ package ∈ assignedPackages trace, crypto.Seals groups package
  sendId_eq : socket.send.sendId = 1 + groups.length
  ne_nil : ∀ group ∈ groups, group ≠ []
  unpacked : unpackedSegments trace = groups.flatten ++ current
  body_eq : ∀ list front body, socket.segment.thread = .inner list front body →
    body = Framing.body current
  current_eq : (∀ list front body, socket.segment.thread ≠ .inner list front body) → current = []
  length_lt : ∀ segment ∈ unpackedSegments trace, segment.length < 65536

theorem length_lt_of_fits {list : Cursor} {segment body : Bytes}
    (hfits : SegmentSide.fits config list segment body = true) : segment.length < 65536 := by
  have hmtu := config.mtu_le
  have hroom := of_decide_eq_true (Bool.and_eq_true_iff.mp hfits).2
  simp only [maxSegment, cryptoOverhead, nonceBytes, macBytes] at hroom
  simp only [maxMtu] at hmtu
  omega

/-- Steps that neither unpack nor assign, and leave the thread where it is. -/
theorem Packed.still {groups : List (List Bytes)} {current : List Bytes}
    (hpacked : socket.Packed crypto trace groups current)
    (hthread : next.segment.thread = socket.segment.thread)
    (hsendId : next.send.sendId = socket.send.sendId)
    (hunpacked : unpackedSegments events = []) (hassigned : assignedPackages events = []) :
    next.Packed crypto (trace ++ events) groups current := by
  refine ⟨?_, hsendId.trans hpacked.sendId_eq, hpacked.ne_nil, ?_, ?_, ?_, ?_⟩
  · simpa [hassigned] using hpacked.assigned
  · simpa [hunpacked] using hpacked.unpacked
  · rw [hthread]
    exact hpacked.body_eq
  · rw [hthread]
    exact hpacked.current_eq
  · simpa [hunpacked] using hpacked.length_lt

theorem Packed.quiet {groups : List (List Bytes)} {current : List Bytes}
    (hpacked : socket.Packed crypto trace groups current)
    (hquiet : socket.segment.Quiet next.segment)
    (hsendId : next.send.sendId = socket.send.sendId) :
    next.Packed crypto trace groups current := by
  suffices hthread : (∀ list front body, next.segment.thread = .inner list front body →
      body = Framing.body current) ∧
      ((∀ list front body, next.segment.thread ≠ .inner list front body) → current = []) from
    ⟨hpacked.assigned, hsendId.trans hpacked.sendId_eq, hpacked.ne_nil, hpacked.unpacked,
      hthread.1, hthread.2, hpacked.length_lt⟩
  have hbody := hpacked.body_eq
  have hcurrent := hpacked.current_eq
  generalize next.segment = moved at hquiet
  cases hquiet with
  | idle hold hnew =>
      have hempty := hcurrent (by rcases hold with hthread | hthread <;> simp [hthread])
      rcases hnew with rfl | rfl | rfl <;> exact ⟨by rintro _ _ _ ⟨⟩, fun _ => hempty⟩
  | copy hthread | ready hthread | finish hthread =>
      exact ⟨by rintro _ _ _ ⟨⟩, fun _ => hcurrent (by simp [hthread])⟩
  | wait => exact ⟨hbody, hcurrent⟩
  | enter hthread =>
      have hempty := hcurrent (by simp [hthread])
      refine ⟨?_, fun _ => hempty⟩
      rintro _ _ _ ⟨⟩
      rw [hempty]
      rfl
  | skip hthread =>
      -- nothing written means that the group is empty
      have hempty := Framing.body_eq_nil.mp (hbody _ _ _ hthread).symm
      exact ⟨by rintro _ _ _ ⟨⟩, fun _ => hempty⟩

theorem Packed.unpack {groups : List (List Bytes)} {current : List Bytes} {list : Cursor}
    {segment body : Bytes} (hpacked : socket.Packed crypto trace groups current)
    (hthread : socket.segment.thread = .inner list (some segment) body)
    (hlength : segment.length < 65536)
    (hsegment : next.segment = socket.segment.unpack list segment body)
    (hsendId : next.send.sendId = socket.send.sendId) :
    next.Packed crypto (trace ++ [.unpacked segment]) groups (current ++ [segment]) where
  assigned := by simpa [assignedPackages, Event.assignedPackage?] using hpacked.assigned
  sendId_eq := hsendId.trans hpacked.sendId_eq
  ne_nil := hpacked.ne_nil
  unpacked := by
    rw [unpackedSegments_append, hpacked.unpacked, List.append_assoc]
    rfl
  body_eq := by
    intro later front extended hlater
    rw [hsegment] at hlater
    cases hlater
    rw [hpacked.body_eq _ _ _ hthread, Framing.body_append, Framing.body_singleton]
  current_eq := by
    intro hother
    rw [hsegment] at hother
    exact absurd rfl (hother _ _ _)
  length_lt := by
    intro other hmem
    rw [unpackedSegments_append, List.mem_append] at hmem
    rcases hmem with hold | hnew
    · exact hpacked.length_lt other hold
    · rw [List.mem_singleton.mp hnew]
      exact hlength

theorem Packed.assign {groups : List (List Bytes)} {current : List Bytes} {list : Cursor}
    {front : Option Bytes} {body : Bytes} {nonce : Nonce}
    (hpacked : socket.Packed crypto trace groups current)
    (hthread : socket.segment.thread = .inner list front body) (hbody : body ≠ [])
    (hsegment : next.segment = { socket.segment with thread := .outer list })
    (hsendId : next.send.sendId = socket.send.sendId + 1) :
    next.Packed crypto (trace ++
      socket.send.assignEvents (crypto.encrypt nonce (body ++ Framing.word 0)))
      (groups ++ [current]) [] := by
  have hcurrent := hpacked.body_eq _ _ _ hthread
  have hassigned : assignedPackages
      (socket.send.assignEvents (crypto.encrypt nonce (body ++ Framing.word 0))) =
      [⟨socket.send.sendId, crypto.encrypt nonce (body ++ Framing.word 0)⟩] := by
    unfold SendSide.assignEvents
    cases socket.send.sendPool.pushFrees socket.send.sendId <;> rfl
  have hunpacked : unpackedSegments
      (socket.send.assignEvents (crypto.encrypt nonce (body ++ Framing.word 0))) = [] := by
    unfold SendSide.assignEvents
    cases socket.send.sendPool.pushFrees socket.send.sendId <;> rfl
  refine ⟨?_, ?_, ?_, ?_, ?_, fun _ => rfl, ?_⟩
  · intro package hmem
    rw [assignedPackages_append, hassigned, List.mem_append, List.mem_singleton] at hmem
    rcases hmem with hold | rfl
    · obtain ⟨count, group, hid, hgroup, hdecrypt⟩ := hpacked.assigned package hold
      refine ⟨count, group, hid, ?_, hdecrypt⟩
      rw [List.getElem?_append_left (List.getElem?_eq_some_iff.mp hgroup).1, hgroup]
    -- the new package has the next id and opens to the group just finished
    · refine ⟨groups.length, current, hpacked.sendId_eq, by simp, ?_⟩
      rw [SharpCrypto.decrypt_encrypt, hcurrent]
      rfl
  · simp [hsendId, hpacked.sendId_eq, Nat.add_assoc]
  · intro group hmem
    rw [List.mem_append, List.mem_singleton] at hmem
    rcases hmem with hold | rfl
    · exact hpacked.ne_nil group hold
    · rintro rfl
      exact hbody hcurrent
  · rw [unpackedSegments_append, hunpacked, hpacked.unpacked]
    simp
  · intro later front extended hlater
    rw [hsegment] at hlater
    cases hlater
  · rw [unpackedSegments_append, hunpacked, List.append_nil]
    exact hpacked.length_lt

theorem Packed.step {groups : List (List Bytes)} {current : List Bytes}
    (hpacked : socket.Packed crypto trace groups current)
    (hmove : socket.SegmentMove config crypto next events) :
    ∃ groups current, next.Packed crypto (trace ++ events) groups current := by
  cases hmove with
  | still hsegment hsendId _ hunpacked hassigned =>
      exact ⟨_, _, hpacked.still (by rw [hsegment]) hsendId hunpacked hassigned⟩
  | pushed hsegment hsendId hevents =>
      subst hevents
      refine ⟨_, _, hpacked.still ?_ hsendId rfl rfl⟩
      rw [hsegment]
      rfl
  | quiet hquiet hsendId hevents =>
      rw [hevents, List.append_nil]
      exact ⟨groups, current, hpacked.quiet hquiet hsendId⟩
  | unpacked hthread hfits hsegment hsendId hevents =>
      subst hevents
      exact ⟨_, _, hpacked.unpack hthread (length_lt_of_fits hfits) hsegment hsendId⟩
  | assigned hthread hbody hsegment hsendId hevents =>
      subst hevents
      exact ⟨_, _, hpacked.assign hthread hbody hsegment hsendId⟩

theorem lined_step (hlined : socket.segment.Lined trace)
    (hmove : socket.SegmentMove config crypto next events)
    (hroom : ∀ segment, .pushed segment ∈ events → next.segment.backlog ≤ ringCapacity) :
    next.segment.Lined (trace ++ events) := by
  cases hmove with
  | still hsegment _ hpushed hunpacked _ =>
      rw [hsegment]
      refine ⟨hlined.valid, hlined.adjacent, hlined.front_eq, ?_⟩
      simpa [hpushed, hunpacked] using hlined.pushed
  | pushed hsegment _ hevents =>
      subst hevents
      have hroom := hroom _ (List.mem_singleton_self _)
      rw [hsegment] at hroom ⊢
      exact hlined.pushSegment hroom
  | quiet hquiet _ hevents =>
      rw [hevents]
      exact hlined.quiet hquiet
  | unpacked hthread _ hsegment _ hevents =>
      rw [hsegment, hevents]
      exact hlined.unpack hthread
  | @assigned list front body nonce hthread _ hsegment _ hevents =>
      have hcopied : socket.segment.copied = some list := by simp [SegmentSide.copied, hthread]
      have hvalid := hlined.valid
      have hpushed := hlined.pushed
      rw [SegmentSide.backlogCursor_of_copied hcopied] at hvalid hpushed
      rw [hsegment, hevents]
      refine ⟨hvalid, ?_, by rintro _ _ _ ⟨⟩, ?_⟩
      · rintro _ ⟨⟩
        exact hlined.adjacent list hcopied
      · obtain ⟨hnone, hnone'⟩ := pushedSegments_ofSend
          (socket.send.filter_assignEvents (crypto.encrypt nonce (body ++ Framing.word 0)))
        rw [pushedSegments_append, unpackedSegments_append, hnone, hnone', List.append_nil,
          List.append_nil]
        exact hpushed

/-- The segment thread packs what was pushed, in order, in every run in which the
backlog fits the segment list. -/
theorem packs_pushed
    (hreach : (socketMachine config crypto).Reach
      (fun _ _ _ next => next.segment.backlog ≤ ringCapacity) (init memory) socket trace) :
    socket.segment.Lined trace ∧ ∃ groups current, socket.Packed crypto trace groups current := by
  refine hreach.invariant (fun socket trace => socket.segment.Lined trace ∧
    ∃ groups current, socket.Packed crypto trace groups current) ⟨?_, [], [], ?_⟩ ?_
  · exact ⟨⟨Nat.succ_pos _, rfl, Nat.zero_le _⟩, by rintro _ ⟨⟩, by rintro _ _ _ ⟨⟩, rfl⟩
  · refine ⟨by rintro _ ⟨⟩, rfl, by rintro _ ⟨⟩, rfl, by rintro _ _ _ ⟨⟩, fun _ => rfl, ?_⟩
    rintro _ ⟨⟩
  · rintro socket trace action next events ⟨hlined, groups, current, hpacked⟩ hstep hroom
    have hmove := (step_transition hstep).segmentMove
    exact ⟨lined_step hlined hmove fun _ _ => hroom, hpacked.step hmove⟩

end ReliableSocket

end Sharpvpn
