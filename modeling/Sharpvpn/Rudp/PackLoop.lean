import Mathlib.Data.List.Forall2
import Sharpvpn.Rudp.HandOff

/-!
# The packing loop

The segment thread's packing loop as a function from a list of segments to the
plaintexts of packages, and the loop that reads the segments back.
-/

namespace Sharpvpn

open Foundation

/-- The test of the inner loop; `start` stands two bytes behind the body. -/
def fitsPackage (mtu : Int) (segment body : Bytes) : Bool :=
  maxSegment mtu - 2 - (body.length + 2 : Nat) > segment.length

/-- The inner loop: the body it has written and the list it leaves. `none`: it has written
past the end of `buf`, which has `MAX_MTU` bytes. -/
def packInner (mtu : Int) : List Bytes → Bytes → Option (Bytes × List Bytes)
  | [], body => some (body, [])
  | segment :: rest, body =>
      if fitsPackage mtu segment body then
        -- the end mark goes behind every segment
        if ((body ++ Framing.frame segment).length + 2 : Int) ≤ maxMtu then
          packInner mtu rest (body ++ Framing.frame segment)
        else none
      else some (body, segment :: rest)

/-- The outer loop: the plaintexts of the packages. `none`: the list is not empty after
that many turns, or a package has outgrown its buffer. -/
def packOuter (mtu : Int) : (turns : Nat) → List Bytes → Option (List Bytes)
  | _, [] => some []
  | 0, _ :: _ => none
  | turns + 1, segment :: rest =>
      (packInner mtu (segment :: rest) []).bind fun inner =>
        if inner.1.length + 2 > 2 then
          (packOuter mtu turns inner.2).map fun plains => (inner.1 ++ Framing.word 0) :: plains
        else packOuter mtu turns inner.2

namespace SegmentParser

/-- `next_segment` is called until it returns 0. `none`: it has not after that many
calls. -/
def drain : (calls : Nat) → SegmentParser → Option (List Bytes × SegmentParser)
  | 0, _ => none
  | calls + 1, parser =>
      if parser.nextSegment.1 = [] then some ([], parser.nextSegment.2)
      else (drain calls parser.nextSegment.2).map fun result =>
        (parser.nextSegment.1 :: result.1, result.2)

end SegmentParser

/-- The packages are loaded one after another, and the segments of each are read. -/
def readPackages (crypto : SharpCrypto) (calls : Nat) :
    SegmentParser → List Bytes → Option (List Bytes)
  | _, [] => some []
  | parser, payload :: rest =>
      (SegmentParser.drain calls (parser.load crypto payload)).bind fun result =>
        (readPackages crypto calls result.2 rest).map fun segments => result.1 ++ segments

section Writing

variable {mtu : Int} {segments plains : List Bytes} {body : Bytes}

/-- The inner loop takes the first segments and leaves the others. What it has written
stays below `max_segment`, with room for the end mark. -/
theorem packInner_spec {written : Bytes} {rest : List Bytes}
    (hinner : packInner mtu segments body = some (written, rest)) :
    ∃ taken, segments = taken ++ rest ∧ written = body ++ Framing.body taken ∧
      (((body.length + 2 : Nat) : Int) < maxSegment mtu →
        ((written.length + 2 : Nat) : Int) < maxSegment mtu) := by
  induction segments generalizing body with
  | nil =>
      cases hinner
      exact ⟨[], rfl, by simp [Framing.body], id⟩
  | cons segment segments ih =>
      unfold packInner at hinner
      split at hinner
      next hfits =>
        split at hinner
        next =>
          obtain ⟨taken, hsegments, hwritten, hlength⟩ := ih hinner
          refine ⟨segment :: taken, by rw [hsegments]; rfl, ?_, fun _ => hlength ?_⟩
          · rw [hwritten]
            simp [Framing.body]
          · have hroom := of_decide_eq_true hfits
            simp only [List.length_append, Framing.frame, Framing.word, List.length_cons,
              List.length_nil]
            omega
        next => cases hinner
      next =>
        cases hinner
        exact ⟨[], rfl, by simp [Framing.body], id⟩

/-- What fits into a package fits into the buffer, unless `max_segment` is beyond it. -/
theorem packInner_isSome (hmtu : maxSegment mtu ≤ maxMtu + 1) (segments : List Bytes)
    (body : Bytes) : (packInner mtu segments body).isSome = true := by
  induction segments generalizing body with
  | nil => rfl
  | cons segment rest ih =>
      unfold packInner
      split
      next hfits =>
        have hroom := of_decide_eq_true hfits
        have hbuffer : ((body ++ Framing.frame segment).length + 2 : Int) ≤ maxMtu := by
          simp only [List.length_append, Framing.frame, Framing.word, List.length_cons,
            List.length_nil]
          push_cast
          omega
        rw [if_pos hbuffer]
        exact ih _
      next => rfl

/-- An empty package has room for its two length words. -/
theorem fitsPackage_nil {segment : Bytes} :
    fitsPackage mtu segment [] = true ↔ (segment.length : Int) < maxSegment mtu - 4 := by
  simp only [fitsPackage, List.length_nil, decide_eq_true_eq]
  omega

/-- What is written already only takes room away. -/
theorem fitsPackage.empty {segment : Bytes} (hfits : fitsPackage mtu segment body = true) :
    fitsPackage mtu segment [] = true := by
  simp only [fitsPackage, List.length_nil, decide_eq_true_eq] at hfits ⊢
  omega

/-- The inner loop starts with a segment that fits into an empty package. -/
theorem packInner_takes {segment written : Bytes} {rest left : List Bytes}
    (hfits : fitsPackage mtu segment [] = true)
    (hinner : packInner mtu (segment :: rest) [] = some (written, left)) :
    ∃ taken, rest = taken ++ left ∧ written = Framing.body (segment :: taken) ∧
      ((written.length + 2 : Nat) : Int) < maxSegment mtu := by
  rw [packInner, if_pos hfits, List.nil_append] at hinner
  split at hinner
  next =>
    obtain ⟨taken, hrest, hwritten, hlength⟩ := packInner_spec hinner
    refine ⟨taken, hrest, hwritten, hlength ?_⟩
    rw [fitsPackage_nil] at hfits
    simp only [Framing.frame, Framing.word, List.length_append, List.length_cons, List.length_nil]
    omega
  next => cases hinner

/-- A segment of the tunnel fits into an empty package. -/
theorem fitsPackage_of_tunnel {segment : Bytes}
    (hlength : (segment.length : Int) ≤ tunnelMtu mtu) : fitsPackage mtu segment [] = true := by
  rw [fitsPackage_nil]
  unfold tunnelMtu at hlength
  omega

theorem length_body_cons (segment : Bytes) (taken : List Bytes) :
    (Framing.body (segment :: taken)).length + 2 > 2 := by
  simp [Framing.body, Framing.frame, Framing.word]

/-- The loop ends after at most one turn for each segment, with packages that hold the
segments in order. -/
theorem packOuter_spec (hmtu : maxSegment mtu ≤ maxMtu + 1) (turns : Nat)
    (hturns : segments.length ≤ turns)
    (hsegments : ∀ segment ∈ segments, fitsPackage mtu segment [] = true) :
    ∃ groups : List (List Bytes),
      packOuter mtu turns segments = some (groups.map Framing.encode) ∧
      groups.flatten = segments ∧
      ∀ group ∈ groups, ((Framing.encode group).length : Int) < maxSegment mtu := by
  induction turns generalizing segments with
  | zero =>
      obtain rfl : segments = [] := List.eq_nil_of_length_eq_zero (by omega)
      exact ⟨[], rfl, rfl, by rintro _ ⟨⟩⟩
  | succ turns ih =>
      cases segments with
      | nil => exact ⟨[], rfl, rfl, by rintro _ ⟨⟩⟩
      | cons segment rest =>
          -- The inner loop takes the first segment at least, so fewer are left.
          have hhead := hsegments segment List.mem_cons_self
          obtain ⟨⟨written, left⟩, hinner⟩ :=
            Option.isSome_iff_exists.mp (packInner_isSome hmtu (segment :: rest) [])
          obtain ⟨taken, hrest, rfl, hlength⟩ := packInner_takes hhead hinner
          obtain ⟨groups, hloop, hflatten, hgroups⟩ := @ih left
            (by rw [List.length_cons, hrest, List.length_append] at hturns; omega)
            fun other hother => hsegments other (by simp [hrest, hother])
          refine ⟨(segment :: taken) :: groups, ?_, ?_, ?_⟩
          · simp only [packOuter, hinner, Option.bind_some, if_pos (length_body_cons segment taken),
              hloop]
            rfl
          · rw [List.flatten_cons, hflatten, hrest]
            rfl
          · intro group hgroup
            rcases List.mem_cons.mp hgroup with rfl | hold
            · simpa [Framing.encode, Framing.word] using hlength
            · exact hgroups group hold

end Writing

section Reading

variable {crypto : SharpCrypto} {parser : SegmentParser} {segments : List Bytes}

/-- The segments that are pending are read, and then 0. -/
theorem SegmentParser.drain_pending {calls : Nat} (hcalls : parser.pending.length < calls) :
    ∃ after, SegmentParser.drain calls parser = some (parser.pending, after) := by
  induction calls generalizing parser with
  | zero => omega
  | succ calls ih =>
      have hpending := parser.pending_nextSegment
      unfold SegmentParser.drain
      split
      next hend =>
        exact ⟨_, by rw [SegmentParser.pending_eq_nil hend]⟩
      next hmore =>
        rw [positive_eq_self (by simpa using Ne.symm hmore)] at hpending
        obtain ⟨after, hdrain⟩ := @ih parser.nextSegment.2 (by
          rw [hpending, List.length_append] at hcalls
          exact Nat.lt_of_succ_lt_succ (by simpa [Nat.add_comm] using hcalls))
        exact ⟨after, by rw [hdrain, hpending]; rfl⟩

/-- A package of nonempty segments is loaded and read. -/
theorem SegmentParser.drain_load {payload : Bytes} {calls : Nat}
    (hdecrypt : crypto.decrypt payload = some (Framing.encode segments))
    (hsegments : ∀ segment ∈ segments, segment ≠ [] ∧ segment.length < 65536)
    (hcalls : segments.length < calls) :
    ∃ after, SegmentParser.drain calls (parser.load crypto payload) = some (segments, after) := by
  have hlength := fun segment hmem => (hsegments segment hmem).2
  have hpending := @SegmentParser.pending_load crypto payload parser fun plain hplain => by
    rw [hdecrypt] at hplain
    exact ⟨segments, (Option.some.inj hplain).symm, hlength⟩
  have hall : segments.takeWhile (fun segment => !segment.isEmpty) = segments := by
    refine List.takeWhile_eq_self_iff.mpr fun segment hmem => ?_
    cases segment with
    | nil => exact absurd rfl (hsegments _ hmem).1
    | cons byte rest => rfl
  rw [hdecrypt, Option.isSome_some, if_pos rfl, segmentsIn_encode hdecrypt hlength, hall]
    at hpending
  rw [← hpending] at hcalls ⊢
  exact SegmentParser.drain_pending hcalls

/-- The packages of all groups are loaded and read one after another. -/
theorem readPackages_groups {groups : List (List Bytes)} {payloads : List Bytes} {calls : Nat}
    (hsealed : List.Forall₂ (fun payload group =>
      crypto.decrypt payload = some (Framing.encode group)) payloads groups)
    (hgroups : ∀ group ∈ groups, ∀ segment ∈ group, segment ≠ [] ∧ segment.length < 65536)
    (hcalls : ∀ group ∈ groups, group.length < calls) :
    readPackages crypto calls parser payloads = some groups.flatten := by
  induction hsealed generalizing parser with
  | nil => rfl
  | @cons payload group payloads groups hdecrypt _ ih =>
      obtain ⟨after, hdrain⟩ := @SegmentParser.drain_load crypto parser group payload calls hdecrypt
        (hgroups group List.mem_cons_self) (hcalls group List.mem_cons_self)
      have hrest := @ih after (fun other hother => hgroups other (List.mem_cons_of_mem _ hother))
        fun other hother => hcalls other (List.mem_cons_of_mem _ hother)
      simp only [readPackages, hdrain, Option.bind_some, hrest]
      rfl

end Reading

/-- Segments of the tunnel come back as they were, in order, from the packages they are
packed into, whatever the parser held before. -/
theorem segments_round_trip {mtu : Int} {segments : List Bytes} (hmtu : maxSegment mtu ≤ maxMtu)
    (hsegments : ∀ segment ∈ segments,
      1 ≤ segment.length ∧ (segment.length : Int) ≤ tunnelMtu mtu) :
    ∃ plains, packOuter mtu segments.length segments = some plains ∧
      (∀ plain ∈ plains, (plain.length : Int) < maxSegment mtu) ∧
      ∀ crypto parser payloads,
        List.Forall₂ (fun payload plain =>
          ∃ nonce, payload = SharpCrypto.encrypt crypto nonce plain) payloads plains →
        readPackages crypto (segments.length + 1) parser payloads = some segments := by
  obtain ⟨groups, hloop, hflatten, hlength⟩ := packOuter_spec (by omega) segments.length (le_refl _)
    fun segment hmem => fitsPackage_of_tunnel (hsegments segment hmem).2
  refine ⟨_, hloop, ?_, ?_⟩
  · intro plain hplain
    obtain ⟨group, hgroup, rfl⟩ := List.mem_map.mp hplain
    exact hlength group hgroup
  · intro crypto parser payloads hsealed
    rw [← hflatten]
    apply readPackages_groups
    · refine (List.forall₂_map_right_iff.mp hsealed).imp ?_
      rintro _ group ⟨nonce, rfl⟩
      exact crypto.decrypt_encrypt nonce _
    · intro group hgroup segment hsegment
      have hmem : segment ∈ segments := hflatten ▸ List.mem_flatten_of_mem hgroup hsegment
      obtain ⟨hpos, hle⟩ := hsegments segment hmem
      refine ⟨List.ne_nil_of_length_pos hpos, ?_⟩
      simp only [maxMtu, tunnelMtu] at hmtu hle
      omega
    · intro group hgroup
      have hle := (List.sublist_flatten_of_mem hgroup).length_le
      omega

/-- With the smallest packages: two segments share one, the third needs its own. -/
theorem segments_round_trip_three :
    ∃ plains, packOuter 97 3 [[1], [2], [3]] = some plains ∧
      (∀ plain ∈ plains, (plain.length : Int) < maxSegment 97) ∧
      ∀ crypto parser payloads,
        List.Forall₂ (fun payload plain =>
          ∃ nonce, payload = SharpCrypto.encrypt crypto nonce plain) payloads plains →
        readPackages crypto 4 parser payloads = some [[1], [2], [3]] :=
  @segments_round_trip 97 [[1], [2], [3]] (by decide) (by decide)

namespace SendSide

/-- Payloads are assigned one after another. -/
def assignAll (side : SendSide) (payloads : List Bytes) : SendSide := payloads.foldl assign side

@[simp] theorem assignAll_sendId (side : SendSide) (payloads : List Bytes) :
    (side.assignAll payloads).sendId = side.sendId + payloads.length := by
  induction payloads generalizing side with
  | nil => rfl
  | cons payload rest ih =>
      have hrest := ih (side.assign payload)
      rw [List.length_cons, Nat.add_comm rest.length, ← Nat.add_assoc]
      exact hrest

@[simp] theorem assignAll_sendAckId (side : SendSide) (payloads : List Bytes) :
    (side.assignAll payloads).sendAckId = side.sendAckId := by
  induction payloads generalizing side with
  | nil => rfl
  | cons payload rest ih => exact ih (side.assign payload)

@[simp] theorem assignAll_ackRecvPool (side : SendSide) (payloads : List Bytes) :
    (side.assignAll payloads).ackRecvPool = side.ackRecvPool := by
  induction payloads generalizing side with
  | nil => rfl
  | cons payload rest ih => exact ih (side.assign payload)

end SendSide

namespace ReliableSocket

/-- The socket with its segment thread elsewhere and the packages assigned so far. -/
def packing (socket : ReliableSocket) (thread : SegmentThread) (send : SendSide) :
    ReliableSocket :=
  { socket with segment := { socket.segment with thread }, send }

theorem fits_eq (config : Config) {list : Cursor} (hlen : 0 < list.len) (segment body : Bytes) :
    SegmentSide.fits config list segment body = fitsPackage config.mtu segment body := by
  simp [SegmentSide.fits, fitsPackage, hlen]

/-- Nothing is in hand, or it does not go into the package. -/
theorem any_fits_eq_false {config : Config} {list : Cursor} {front : Option Bytes} {body : Bytes}
    (hfits : ∀ segment, front = some segment → SegmentSide.fits config list segment body = false) :
    (front.any fun segment => SegmentSide.fits config list segment body) = false := by
  cases front with
  | none => rfl
  | some segment => exact hfits segment rfl

section Run

variable {config : Config} {crypto : SharpCrypto} {nonce : Nonce}
  {start socket : ReliableSocket} {list : Cursor} {send : SendSide} {trace : List Event}
  {segments : List Bytes} {body : Bytes}

theorem len_pos_of_contents {arr : Nat → Bytes} {segment : Bytes}
    (hcontents : list.contents ringCapacity arr = segment :: segments) : 0 < list.len := by
  have hlength := congrArg List.length hcontents
  rw [Cursor.length_contents, List.length_cons] at hlength
  omega

/-- The segment thread runs through the inner loop as `packInner` does. -/
theorem reach_packInner {written : Bytes} {rest : List Bytes} (hstart : list.start < ringCapacity)
    (hcontents : list.contents ringCapacity socket.segment.segmentArr = segments)
    (hpacked : packInner config.mtu segments body = some (written, rest))
    (hreach : (socketMachine config crypto).Reach Machine.always start
      (socket.packing (.inner list (socket.segment.front list) body) send) trace) :
    ∃ left after, left.start < ringCapacity ∧
      left.contents ringCapacity socket.segment.segmentArr = rest ∧
      (socketMachine config crypto).Reach Machine.always start
        (socket.packing (.inner left (socket.segment.front left) written) send) after ∧
      segmentStep config crypto nonce
          (socket.packing (.inner left (socket.segment.front left) written) send) =
        segmentStep.closePackage crypto nonce
          (socket.packing (.inner left (socket.segment.front left) written) send) left written := by
  induction segments generalizing list body trace with
  | nil =>
      have hlen : list.len = 0 := by simpa using congrArg List.length hcontents
      cases hpacked
      refine ⟨list, trace, hstart, hcontents, hreach, ?_⟩
      simp [segmentStep, packing, SegmentSide.front, hlen]
  | cons segment segments ih =>
      have hlen := len_pos_of_contents hcontents
      rw [Cursor.contents_eq_cons hstart hlen] at hcontents
      obtain ⟨hcell, hrest⟩ := List.cons.inj hcontents
      have hfront : socket.segment.front list = some segment := by
        rw [SegmentSide.front_eq hlen, hcell]
      rw [hfront] at hreach
      unfold packInner at hpacked
      split at hpacked
      next hfits =>
        split at hpacked
        next =>
          have hunpacked := hreach.extend (.segment nonce) (show _ = some
            (socket.packing (.inner (list.pop ringCapacity)
              (socket.segment.front (list.pop ringCapacity)) (body ++ Framing.frame segment)) send,
              [.unpacked segment]) by
            simp only [socketMachine, step, segmentStep, packing, fits_eq config hlen, hfits,
              if_true]
            rfl) trivial
          exact ih (Nat.mod_lt _ (by decide)) hrest hpacked hunpacked
        next => cases hpacked
      next hfits =>
        cases hpacked
        refine ⟨list, trace, hstart, ?_, hfront ▸ hreach, ?_⟩
        · rw [Cursor.contents_eq_cons hstart hlen, hcell, hrest]
        · rw [hfront]
          simp only [segmentStep, packing, fits_eq config hlen, if_neg hfits]

/-- The segment thread runs through the outer loop as `packOuter` does. -/
theorem reach_packOuter {turns : Nat} {plains : List Bytes} (hstart : list.start < ringCapacity)
    (hcontents : list.contents ringCapacity socket.segment.segmentArr = segments)
    (hloop : packOuter config.mtu turns segments = some plains)
    (hid : send.sendId + plains.length + 1 < 2 ^ 63)
    (hreach : (socketMachine config crypto).Reach Machine.always start
      (socket.packing (.outer list) send) trace) :
    ∃ done after, done.len = 0 ∧ (socketMachine config crypto).Reach Machine.always start
      (socket.packing (.outer done) (send.assignAll (plains.map (crypto.encrypt nonce))))
      after := by
  induction turns generalizing segments list send trace plains with
  | zero =>
      cases segments with
      | nil =>
          obtain rfl : [] = plains := Option.some.inj hloop
          exact ⟨list, trace, by simpa using congrArg List.length hcontents, hreach⟩
      | cons segment rest => simp [packOuter] at hloop
  | succ turns ih =>
      cases segments with
      | nil =>
          obtain rfl : [] = plains := Option.some.inj hloop
          exact ⟨list, trace, by simpa using congrArg List.length hcontents, hreach⟩
      | cons segment rest =>
          -- One step enters the inner loop, which runs to its end and closes the package.
          have hlen := len_pos_of_contents hcontents
          have hinner := hreach.extend (.segment nonce) (show _ = some
            (socket.packing (.inner list (socket.segment.front list) []) send, []) by
              simp only [socketMachine, step, segmentStep, packing, if_pos hlen]
              rfl) trivial
          obtain ⟨⟨written, remaining⟩, hpacked, hloop⟩ := Option.bind_eq_some_iff.mp hloop
          obtain ⟨left, after, hleft, hrest, hinner, hclose⟩ :=
            @reach_packInner _ _ nonce _ _ _ _ _ _ _ _ _ hstart hcontents hpacked hinner
          dsimp only at hloop
          split at hloop
          next hbody =>
            obtain ⟨others, hothers, rfl⟩ := Option.map_eq_some_iff.mp hloop
            rw [List.length_cons] at hid
            have hroom : send.sendId + 2 < 2 ^ 63 := by omega
            have houter := hinner.extend (.segment nonce) (show _ = some
              (socket.packing (.outer left) (send.assign (crypto.encrypt nonce _)), _) from
              hclose.trans ((if_pos hbody).trans (if_pos hroom))) trivial
            have hnext : (send.assign (crypto.encrypt nonce (written ++ Framing.word 0))).sendId +
                others.length + 1 < 2 ^ 63 := by
              show send.sendId + 1 + others.length + 1 < 2 ^ 63
              omega
            simpa [SendSide.assignAll] using ih hleft hrest hothers hnext houter
          next hbody =>
            have houter := hinner.extend (.segment nonce) (show _ = some
              (socket.packing (.outer left) send, []) from
              hclose.trans (if_neg hbody)) trivial
            exact ih hleft hrest hloop hid houter

/-- A socket that runs, with nothing pushed and its segment thread at rest. -/
structure Idle (socket : ReliableSocket) : Prop where
  running : socket.workerRunning = true
  thread : socket.segment.thread = .head
  valid : socket.segment.segmentList.Valid ringCapacity
  len : socket.segment.segmentList.len = 0

/-- A batch is pushed while the segment thread sleeps, and the thread packs it. -/
theorem reach_batch {turns : Nat} {plains : List Bytes} (hidle : socket.Idle)
    (hwindow : ¬sub64 socket.send.sendId socket.send.sendAckId > 8000)
    (hne : segments ≠ []) (hring : segments.length ≤ ringCapacity)
    (hloop : packOuter config.mtu turns segments = some plains)
    (hid : socket.send.sendId + plains.length + 1 < 2 ^ 63)
    (hreach : (socketMachine config crypto).Reach Machine.always start socket trace) :
    ∃ next after, (socketMachine config crypto).Reach Machine.always start next after ∧
      next.Idle ∧ next.send = socket.send.assignAll (plains.map (crypto.encrypt nonce)) := by
  have hroom : socket.segment.segmentList.len + segments.length ≤ ringCapacity := by
    rw [hidle.len, Nat.zero_add]
    exact hring
  obtain ⟨hvalid, hcontents⟩ := SegmentSide.pushAll_contents hidle.valid hroom
  rw [Cursor.contents_eq_nil hidle.len, List.nil_append] at hcontents
  have hlen : (socket.segment.pushAll segments).segmentList.len ≠ 0 := by
    intro hzero
    rw [Cursor.contents_eq_nil hzero] at hcontents
    exact hne hcontents.symm
  have hpushed := reach_pushAll hidle.running (fun _ _ _ => trivial) segments hreach
  have houter := @reach_outer config crypto
    { socket with segment := socket.segment.pushAll segments } _ _ _ nonce (fun _ _ _ => trivial)
    hidle.running ((SegmentSide.pushAll_thread _ _).trans hidle.thread) hlen hwindow hpushed
  obtain ⟨done, after, hdone, hpacked⟩ := @reach_packOuter config crypto nonce start
    { socket with segment := { socket.segment.pushAll segments with
      segmentList := (socket.segment.pushAll segments).segmentList.rebase } } _ _ _ _ _ _
    hvalid.start_lt hcontents hloop hid houter
  have hhead := hpacked.extend (.segment nonce) (show _ = some (packing _ .head _, []) from
    if_neg (by omega : ¬done.len > 0)) trivial
  exact ⟨_, _, hhead, ⟨hidle.running, rfl, hvalid.rebase, rfl⟩, rfl⟩

end Run

end ReliableSocket

end Sharpvpn
