import Mathlib.Data.List.Infix
import Sharpvpn.Foundation.Groups
import Sharpvpn.Rudp.Agreement
import Sharpvpn.Rudp.Assigned
import Sharpvpn.Rudp.Completeness
import Sharpvpn.Rudp.Packing

/-!
# Transfer from one end to the other

The segments one end returns are segments given to the other end, in order. When
nothing is dropped and the receiver keeps within a ring of the sender, none is
missing.
-/

namespace Sharpvpn

open Foundation

namespace SharpCrypto

variable {crypto : SharpCrypto} {groups : List (List Bytes)} {package : PackageData}

theorem Seals.wellFramed (hseals : crypto.Seals groups package)
    (hlength : ∀ segment ∈ groups.flatten, segment.length < 65536) :
    ∀ plain, crypto.decrypt package.payload = some plain → WellFramed plain := by
  obtain ⟨count, group, _, hgroup, hdecrypt⟩ := hseals
  intro plain hplain
  rw [hdecrypt] at hplain
  cases hplain
  refine ⟨group, rfl, fun segment hmem => hlength segment ?_⟩
  exact List.mem_flatten.mpr ⟨group, List.mem_of_getElem? hgroup, hmem⟩

/-- A sealed package names its group, and yields what precedes an empty segment. -/
theorem Seals.names (hseals : crypto.Seals groups package)
    (hlength : ∀ segment ∈ groups.flatten, segment.length < 65536) :
    Names PackageData.packageId (fun package => segmentsIn crypto package.payload)
      (fun yielded group => yielded = group.takeWhile fun segment => !segment.isEmpty)
      groups 1 package := by
  obtain ⟨count, group, hid, hgroup, hdecrypt⟩ := hseals
  refine ⟨count, group, hid, hgroup, segmentsIn_encode hdecrypt fun segment hmem =>
    hlength segment ?_⟩
  exact List.mem_flatten.mpr ⟨group, List.mem_of_getElem? hgroup, hmem⟩

end SharpCrypto

namespace connection

variable {config : Side → Config} {crypto : SharpCrypto} {memory : Side → Memory}
  {allowed : Machine.StepCondition (Duplex.State ReliableSocket Datagram) (Side × Action)
    (Side × Event)}
  {state : Duplex.State ReliableSocket Datagram} {trace : List (Side × Event)}

/-- The packages that have arrived at one end seal groups of segments, which make up
a prefix of the segments given to the other end. -/
structure Sealed (crypto : SharpCrypto) (trace : List (Side × Event))
    (groups : List (List Bytes)) : Prop where
  arrived : ∀ package ∈ arrivedPackages (Duplex.at_ .b trace), crypto.Seals groups package
  packageId_lt : ∀ package ∈ arrivedPackages (Duplex.at_ .b trace),
    package.packageId < 1 + groups.length
  range : groups.length + 2 < 2 ^ 64
  pushed : groups.flatten.IsPrefix (pushedSegments (Duplex.at_ .a trace))
  ne_nil : ∀ group ∈ groups, group ≠ []
  length_lt : ∀ segment ∈ groups.flatten, segment.length < 65536

theorem Sealed.deliverable {groups : List (List Bytes)} (hsealed : Sealed crypto trace groups)
    {package : PackageData} (harrived : package ∈ arrivedPackages (Duplex.at_ .b trace)) :
    crypto.Deliverable package := by
  have hlt := hsealed.packageId_lt package harrived
  have hrange := hsealed.range
  exact ⟨by omega, (hsealed.arrived package harrived).wellFramed hsealed.length_lt⟩

theorem exists_sealed
    (hfits : ∀ state trace action next, allowed state trace action next →
      (next.ends .a).segment.backlog ≤ ringCapacity)
    (hreach : (connection config crypto).machine.Reach allowed (start memory) state trace) :
    ∃ groups, Sealed crypto trace groups ∧
      (state.ends .a).send.sendId = 1 + groups.length := by
  have hsender : (socketMachine (config .a) crypto).Reach
      (fun _ _ _ next => next.segment.backlog ≤ ringCapacity)
      (ReliableSocket.init (memory .a)) (state.ends .a) (Duplex.at_ .a trace) :=
    Duplex.reach_side .a (fun _ _ _ _ _ _ _ hallowed => hfits _ _ _ _ hallowed) hreach
  obtain ⟨hlined, groups, current, hpacked⟩ := ReliableSocket.packs_pushed hsender
  have hsendId := hpacked.sendId_eq
  have hrange := ReliableSocket.sendId_lt hsender
  have hassigned : ∀ package ∈ arrivedPackages (Duplex.at_ .b trace),
      package ∈ assignedPackages (Duplex.at_ .a trace) := by
    intro package hmem
    obtain ⟨packageId, una, payload, harrived, rfl⟩ := arrived_of_mem_arrivedPackages hmem
    obtain ⟨package, hassigned, rfl, rfl⟩ :=
      ReliableSocket.sent_assigned hsender (arrived_sent hreach harrived)
    obtain ⟨count, group, hid, hgroup, _⟩ := hpacked.assigned package hassigned
    have hcount := (List.getElem?_eq_some_iff.mp hgroup).1
    rwa [UInt64.toNat_ofNat', Nat.mod_eq_of_lt (by omega)]
  refine ⟨groups, ⟨?_, ?_, by omega, ?_, hpacked.ne_nil, ?_⟩, hsendId⟩
  · exact fun package hmem => hpacked.assigned package (hassigned package hmem)
  · intro package hmem
    obtain ⟨count, group, hid, hgroup, _⟩ := hpacked.assigned package (hassigned package hmem)
    have hcount := (List.getElem?_eq_some_iff.mp hgroup).1
    omega
  · rw [hlined.pushed, hpacked.unpacked, List.append_assoc]
    exact List.prefix_append _ _
  · intro segment hmem
    refine hpacked.length_lt segment ?_
    rw [hpacked.unpacked]
    exact List.mem_append_left _ hmem

/-- What is returned, empty results apart, are segments that were given to the other
end, in order, whatever is lost, dropped or overrun. -/
theorem returned_sublist
    (hreach : (connection config crypto).machine.Reach
      (fun _ _ _ next => (next.ends .a).segment.backlog ≤ ringCapacity)
      (start memory) state trace) :
    (positive (returnedSegments (Duplex.at_ .b trace))).Sublist
      (pushedSegments (Duplex.at_ .a trace)) := by
  obtain ⟨groups, hsealed, _⟩ := exists_sealed (fun _ _ _ _ hfits => hfits) hreach
  have horder : (state.ends .b).recv.InOrder crypto (Duplex.at_ .b trace) :=
    ReliableSocket.delivers_inOrder (reach_end .b hreach) fun _ harrived _ =>
      hsealed.deliverable harrived
  have hnames : ∀ package ∈ takenPackages (Duplex.at_ .b trace),
      Names PackageData.packageId (fun package => segmentsIn crypto package.payload)
        List.Sublist groups 1 package := by
    intro package htaken
    obtain ⟨count, group, hid, hgroup, hyields⟩ :=
      (hsealed.arrived package (horder.arrived package htaken)).names hsealed.length_lt
    exact ⟨count, group, hid, hgroup, hyields ▸ List.takeWhile_sublist _⟩
  calc
    (positive (returnedSegments (Duplex.at_ .b trace))).Sublist
        (((state.ends .b).recv.loadedPackages (Duplex.at_ .b trace)).flatMap fun package =>
          segmentsIn crypto package.payload) := by
      rw [← horder.returned]
      exact List.sublist_append_left _ _
    List.Sublist _ ((takenPackages (Duplex.at_ .b trace)).flatMap fun package =>
        segmentsIn crypto package.payload) :=
      ((RecvSide.loadedPackages_prefix _ _).flatMap _).sublist
    List.Sublist _ groups.flatten :=
      flatMap_sublist_flatten groups 1 _ horder.increasing hnames
    List.Sublist _ (pushedSegments (Duplex.at_ .a trace)) := hsealed.pushed.sublist

/-- Two packages are sent. The second one arrives first, and once more at the end. -/
theorem returned_sublist_reordered : ∃ state trace,
    (connection (fun _ => .standard) .marking).machine.Reach
      (fun _ _ _ next => (next.ends .a).segment.backlog ≤ ringCapacity)
      (start fun _ => .zeroed) state trace ∧
    returnedSegments (Duplex.at_ .b trace) = [[7], [8]] ∧
      (positive (returnedSegments (Duplex.at_ .b trace))).Sublist
        (pushedSegments (Duplex.at_ .a trace)) := by
  obtain ⟨state, trace, hreach, hreturned⟩ := Machine.reach_of_exec
    (fun (_ : Duplex.State ReliableSocket Datagram) (trace : List (Side × Event)) =>
      returnedSegments (Duplex.at_ .b trace))
    (show ((connection (fun _ => .standard) .marking).machine.exec
      (fun _ _ _ next => (next.ends .a).segment.backlog ≤ ringCapacity)
      (start fun _ => .zeroed) []
      ([(.a, .sendPackage [7])] ++ List.replicate 9 (.a, .segment .zero) ++
        [(.a, .sendPackage [8])] ++ List.replicate 9 (.a, .segment .zero) ++
        List.replicate 7 (.a, .sender) ++
        [(.b, .receiver),
          (.b, .receive (.data 2 0 (SharpCrypto.marking.encrypt .zero [1, 0, 8, 0, 0])))] ++
        List.replicate 3 (.b, .receiver) ++
        [(.b, .receive (.data 1 0 (SharpCrypto.marking.encrypt .zero [1, 0, 7, 0, 0])))] ++
        List.replicate 3 (.b, .receiver) ++
        [(.b, .receive (.data 2 0 (SharpCrypto.marking.encrypt .zero [1, 0, 8, 0, 0])))] ++
        List.replicate 8 (.b, .recvPackage))).map _ = some [[7], [8]] by decide +kernel)
  exact ⟨state, trace, hreach, hreturned, returned_sublist hreach⟩

/-- A datagram carries the id of a package assigned before. -/
theorem taken_lt_sendId
    (hfits : ∀ state trace action next, allowed state trace action next →
      (next.ends .a).segment.backlog ≤ ringCapacity)
    (hreach : (connection config crypto).machine.Reach allowed (start memory) state trace)
    {packageId una : UInt64} {payload : Bytes}
    (hchannel : .data packageId una payload ∈ state.channel .b) :
    packageId.toNat < (state.ends .a).send.sendId := by
  have hsender : (socketMachine (config .a) crypto).Reach
      (fun _ _ _ next => next.segment.backlog ≤ ringCapacity)
      (ReliableSocket.init (memory .a)) (state.ends .a) (Duplex.at_ .a trace) :=
    Duplex.reach_side .a (fun _ _ _ _ _ _ _ hallowed => hfits _ _ _ _ hallowed) hreach
  obtain ⟨_, groups, current, hpacked⟩ := ReliableSocket.packs_pushed hsender
  obtain ⟨event, hevent, hemits⟩ := Duplex.channel_emitted hreach .b hchannel
  obtain ⟨package, hassigned, rfl, rfl⟩ :=
    ReliableSocket.sent_assigned hsender (sent_of_emits hemits ▸ hevent)
  obtain ⟨count, group, hid, hgroup, _⟩ := hpacked.assigned package hassigned
  have hcount := (List.getElem?_eq_some_iff.mp hgroup).1
  have hsendId := hpacked.sendId_eq
  rw [UInt64.toNat_ofNat']
  exact Nat.lt_of_le_of_lt (Nat.mod_le _ _) (by omega)

/-- A package within a ring of the next id to deliver is all that the receiver takes,
while the two ends stay within a ring of each other. -/
theorem receives_withinRing
    (hfits : ∀ state trace action next, allowed state trace action next →
      (next.ends .a).segment.backlog ≤ ringCapacity)
    (hring : ∀ state trace action next, allowed state trace action next →
      (next.ends .a).send.sendId < (next.ends .b).recv.recvId + ringCapacity)
    (hreach : (connection config crypto).machine.Reach allowed (start memory) state trace) :
    (socketMachine (config .b) crypto).Reach
      (fun socket _ action _ => action.Receives socket.recv.WithinRing)
      (ReliableSocket.init (memory .b)) (state.ends .b) (Duplex.at_ .b trace) := by
  refine Duplex.reach_side .b ?_ hreach
  intro state trace action next events hprior hstep hallowed
  cases action with
  | receive datagram =>
      cases datagram with
      | data packageId una payload =>
          obtain ⟨moved, inner, hinner, htakes, rfl, _⟩ := Duplex.advance_eq_some hstep
          have hsent := taken_lt_sendId hfits hprior (htakes _ rfl)
          have hbound := hring _ _ _ _ hallowed
          -- The other end is still, and the Data branch leaves `recv_id` alone.
          have hstill : moved.recv.recvId = (state.ends .b).recv.recvId := by
            have htransition : (state.ends .b).Transition (config .b) crypto
                (.receive (.data packageId una payload)) moved inner :=
              ReliableSocket.step_transition hinner
            cases htransition with
            | data => rfl
          simp only [Function.update_self, hstill] at hbound
          exact Nat.lt_trans hsent hbound
      | ack | connectionClose => trivial
  | sendPackage | close | segment | sender | ackSender | ackHandler | receiver | recvPackage =>
      trivial

/-- A package that seals segments that are not empty yields all of its group. -/
theorem Sealed.names {groups : List (List Bytes)} (hsealed : Sealed crypto trace groups)
    (hpushed : ∀ segment ∈ pushedSegments (Duplex.at_ .a trace), 1 ≤ segment.length)
    {package : PackageData} (harrived : package ∈ arrivedPackages (Duplex.at_ .b trace)) :
    Names PackageData.packageId (fun package => segmentsIn crypto package.payload) Eq groups 1
      package := by
  obtain ⟨count, group, hid, hgroup, hyields⟩ :=
    (hsealed.arrived package harrived).names hsealed.length_lt
  refine ⟨count, group, hid, hgroup, hyields.trans (List.takeWhile_eq_self_iff.mpr ?_)⟩
  intro segment hmem
  have hflat : segment ∈ groups.flatten :=
    List.mem_flatten.mpr ⟨group, List.mem_of_getElem? hgroup, hmem⟩
  have hpos := hpushed segment (hsealed.pushed.subset hflat)
  cases segment with
  | nil => cases hpos
  | cons byte rest => rfl

/-- What is returned is exactly a prefix of what was given to the other end, in every
run in which the other end drops nothing, its list is not overrun, no segment is
empty and the two ends stay within a ring of each other. -/
theorem returned_prefix
    (hreach : (connection config crypto).machine.Reach
      (fun _ _ _ next => (next.ends .a).segment.backlog ≤ ringCapacity ∧
        (next.ends .a).send.sendId < (next.ends .b).recv.recvId + ringCapacity)
      (start memory) state trace)
    (hdropped : droppedIds (Duplex.at_ .a trace) = [])
    (hpushed : ∀ segment ∈ pushedSegments (Duplex.at_ .a trace), 1 ≤ segment.length) :
    (returnedSegments (Duplex.at_ .b trace)).IsPrefix (pushedSegments (Duplex.at_ .a trace)) := by
  obtain ⟨groups, hsealed, _⟩ := exists_sealed (fun _ _ _ _ hallowed => hallowed.1) hreach
  have hnames : ∀ package ∈ arrivedPackages (Duplex.at_ .b trace),
      Names PackageData.packageId (fun package => segmentsIn crypto package.payload) Eq groups 1
        package := fun package harrived => hsealed.names hpushed harrived
  have hyields : ∀ package ∈ arrivedPackages (Duplex.at_ .b trace),
      segmentsIn crypto package.payload ≠ [] := by
    intro package harrived
    obtain ⟨count, group, _, hgroup, heq⟩ := hnames package harrived
    exact heq.trans_ne (hsealed.ne_nil group (List.mem_of_getElem? hgroup))
  have hdeliverable : ∀ package ∈ arrivedPackages (Duplex.at_ .b trace),
      crypto.Deliverable package := fun package harrived => hsealed.deliverable harrived
  have horder := ReliableSocket.delivers_inOrder (reach_end .b hreach) fun package harrived _ =>
    hdeliverable package harrived
  -- Nothing is skipped: the ids taken are 1, 2, and so on.
  have hcomplete := ReliableSocket.delivers_complete
    (receives_withinRing (fun _ _ _ _ hallowed => hallowed.1) (fun _ _ _ _ hallowed => hallowed.2)
      hreach)
    (sendFroms_zero hreach hdropped) hdeliverable hyields
  calc
    (returnedSegments (Duplex.at_ .b trace)).IsPrefix
        (((state.ends .b).recv.loadedPackages (Duplex.at_ .b trace)).flatMap fun package =>
          segmentsIn crypto package.payload) := by
      rw [← horder.returned, positive_eq_self hcomplete.returned]
      exact List.prefix_append _ _
    List.IsPrefix _ ((takenPackages (Duplex.at_ .b trace)).flatMap fun package =>
        segmentsIn crypto package.payload) := (RecvSide.loadedPackages_prefix _ _).flatMap _
    List.IsPrefix _ groups.flatten := by
      refine flatMap_prefix_flatten groups 1 _ ?_ fun package htaken =>
        hnames package (horder.arrived package htaken)
      rw [hcomplete.consecutive, ← List.length_map (·.packageId), hcomplete.consecutive,
        List.length_range']
    List.IsPrefix _ (pushedSegments (Duplex.at_ .a trace)) := hsealed.pushed

/-- Two segments travel in one package, and the first has been returned. -/
theorem returned_prefix_first : ∃ state trace,
    (connection (fun _ => .standard) .marking).machine.Reach
      (fun _ _ _ next => (next.ends .a).segment.backlog ≤ ringCapacity ∧
        (next.ends .a).send.sendId < (next.ends .b).recv.recvId + ringCapacity)
      (start fun _ => .zeroed) state trace ∧
    returnedSegments (Duplex.at_ .b trace) = [[7]] ∧
      (returnedSegments (Duplex.at_ .b trace)).IsPrefix
        (pushedSegments (Duplex.at_ .a trace)) := by
  obtain ⟨state, trace, hreach, hview⟩ := Machine.reach_of_exec
    (fun (_ : Duplex.State ReliableSocket Datagram) (trace : List (Side × Event)) =>
      (returnedSegments (Duplex.at_ .b trace), pushedSegments (Duplex.at_ .a trace),
        droppedIds (Duplex.at_ .a trace)))
    (show ((connection (fun _ => .standard) .marking).machine.exec
      (fun _ _ _ next => (next.ends .a).segment.backlog ≤ ringCapacity ∧
        (next.ends .a).send.sendId < (next.ends .b).recv.recvId + ringCapacity)
      (start fun _ => .zeroed) []
      ([(.a, .sendPackage [7]), (.a, .sendPackage [8, 9])] ++
        List.replicate 7 (.a, .segment .zero) ++ List.replicate 3 (.a, .sender) ++
        [(.b, .receiver), (.b, .receive (.data 1 0
          (SharpCrypto.marking.encrypt .zero [1, 0, 7, 2, 0, 8, 9, 0, 0])))] ++
        List.replicate 4 (.b, .recvPackage))).map _ = some ([[7]], [[7], [8, 9]], []) by decide)
  simp only [Prod.mk.injEq] at hview
  obtain ⟨hreturned, hpushed, hdropped⟩ := hview
  refine ⟨state, trace, hreach, hreturned, returned_prefix hreach hdropped ?_⟩
  rw [hpushed]
  decide

end connection

end Sharpvpn
