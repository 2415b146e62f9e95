import Sharpvpn.Rudp.Transfer

/-!
# What a connection carries from either end

The two directions of a connection are alike. In each one, what `recv_package` returns is told
apart by nothing but the segments given to `send_package` at the other end.
-/

namespace Sharpvpn

open Foundation

namespace RecvSide

variable {crypto : SharpCrypto} {side next : RecvSide} {action : RecvAction}
  {trace events : List Event}

/-- No call returns an empty segment. -/
structure Filled (side : RecvSide) (trace : List Event) : Prop where
  loaded : ∀ recvNow, side.caller = .loaded recvNow → side.segmentRecv.pending ≠ []
  returned : [] ∉ returnedSegments trace

theorem Filled.step (hfilled : side.Filled trace) (horder : side.InOrder crypto trace)
    (htransition : side.Transition crypto action next events)
    (hdeliverable : ∀ package ∈ takenPackages trace, crypto.Deliverable package)
    (hyields : ∀ package ∈ takenPackages trace, segmentsIn crypto package.payload ≠ []) :
    next.Filled (trace ++ events) := by
  have hquiet : returnedSegments events = [] → [] ∉ returnedSegments (trace ++ events) := by
    intro hnone
    rw [returnedSegments_append, hnone, List.append_nil]
    exact hfilled.returned
  cases htransition with
  | data =>
      refine ⟨fun recvNow hloaded =>
        hfilled.loaded recvNow (caller_of_callerAfter hloaded (by simp)), hquiet ?_⟩
      unfold receiveDataEvents
      split <;> rfl
  | ack => exact ⟨by simpa using hfilled.loaded, hquiet rfl⟩
  | connectionClose | signal =>
      refine ⟨fun recvNow hloaded => ?_, hquiet rfl⟩
      rcases signal_caller side with hsame | ⟨_, _, hsignalled⟩
      · rw [signal_segmentRecv]
        exact hfilled.loaded recvNow (hsame ▸ hloaded)
      · rw [hsignalled] at hloaded
        cases hloaded
  | buffered hcaller _ hne =>
      refine ⟨fun _ hloaded => absurd (hcaller.symm.trans hloaded) nofun, ?_⟩
      rw [returnedSegments_append, List.mem_append]
      rintro (hold | hnew)
      · exact hfilled.returned hold
      · exact hne (List.mem_singleton.mp hnew).symm
  | enter | stop | wait | take | wake => exact ⟨nofun, hquiet rfl⟩
  | skip hcaller => exact ⟨fun _ hloaded => absurd (hcaller.symm.trans hloaded) nofun, hquiet rfl⟩
  | @load _ package recvNow hcaller =>
      refine ⟨fun _ _ => ?_, hquiet rfl⟩
      have hmem := List.mem_of_getLast? (horder.held package (by rw [hcaller]; rfl))
      have hpending := SegmentParser.pending_load side.segmentRecv (hdeliverable package hmem).2
      have hne := hyields package hmem
      rw [if_pos] at hpending
      · exact hpending ▸ hne
      · unfold segmentsIn at hne
        cases hdecrypt : crypto.decrypt package.payload with
        | none => simp [hdecrypt] at hne
        | some plain => rfl
  | @finish _ recvNow hcaller =>
      refine ⟨nofun, ?_⟩
      have hne : side.segmentRecv.nextSegment.1 ≠ [] := fun hnone =>
        hfilled.loaded recvNow hcaller (SegmentParser.pending_eq_nil hnone)
      rw [returnedSegments_append, List.mem_append]
      rintro (hold | hnew)
      · exact hfilled.returned hold
      · exact hne (List.mem_singleton.mp hnew).symm

theorem reach_filled {memory : Memory} {allowed : Machine.StepCondition RecvSide RecvAction Event}
    (hreach : (recvMachine crypto).Reach allowed (ReliableSocket.init memory).recv side trace)
    (hdeliverable : ∀ package ∈ arrivedPackages trace, crypto.Deliverable package)
    (hyields : ∀ package ∈ arrivedPackages trace, segmentsIn crypto package.payload ≠ []) :
    side.Filled trace := by
  induction hreach with
  | start => exact ⟨nofun, nofun⟩
  | @step side next trace events action hprior hstep _ ih =>
      have hbefore : ∀ package ∈ arrivedPackages trace,
          package ∈ arrivedPackages (trace ++ events) := fun package hmem => by
        rw [arrivedPackages_append]
        exact List.mem_append_left _ hmem
      have horder := (reach_inOrder hprior fun package hmem _ =>
        hdeliverable package (hbefore package hmem)).2
      refine (ih (fun package hmem => hdeliverable package (hbefore package hmem))
        fun package hmem => hyields package (hbefore package hmem)).step horder
          (step_transition hstep) ?_ ?_
      · exact fun package htaken => hdeliverable package (hbefore package (horder.arrived _ htaken))
      · exact fun package htaken => hyields package (hbefore package (horder.arrived _ htaken))

end RecvSide

/-- A socket returns no empty segment while the packages that arrive yield something. -/
theorem ReliableSocket.returned_ne_nil {config : Config} {crypto : SharpCrypto}
    {memory : Memory} {socket : ReliableSocket} {trace : List Event}
    (hreach : (socketMachine config crypto).Reach Machine.always (init memory) socket trace)
    (hdeliverable : ∀ package ∈ arrivedPackages trace, crypto.Deliverable package)
    (hyields : ∀ package ∈ arrivedPackages trace, segmentsIn crypto package.payload ≠ []) :
    [] ∉ returnedSegments trace := by
  have hrecv : (recvMachine crypto).Reach Machine.always
      (init memory).recv socket.recv (trace.filter Event.ofRecv) :=
    reach_recv (fun _ _ _ _ _ _ _ _ => trivial) hreach
  rw [← arrivedPackages_filter] at hdeliverable hyields
  rw [← returnedSegments_filter]
  exact (RecvSide.reach_filled hrecv hdeliverable hyields).returned

namespace connection

variable {config : Side → Config} {crypto : SharpCrypto} {memory : Side → Memory}
  {allowed : Machine.StepCondition (Duplex.State ReliableSocket Datagram) (Side × Action)
    (Side × Event)}
  {state : Duplex.State ReliableSocket Datagram} {trace : List (Side × Event)}

/-- The list of an end is not overrun. -/
def Fits (sender : Side) (state : Duplex.State ReliableSocket Datagram) : Prop :=
  (state.ends sender).segment.backlog ≤ ringCapacity

/-- The ids of an end stay within a ring of the next id the other end delivers. -/
def Paced (sender : Side) (state : Duplex.State ReliableSocket Datagram) : Prop :=
  (state.ends sender).send.sendId < (state.ends sender.peer).recv.recvId + ringCapacity

instance (sender : Side) (state : Duplex.State ReliableSocket Datagram) :
    Decidable (Fits sender state) :=
  inferInstanceAs (Decidable (_ ≤ _))

instance (sender : Side) (state : Duplex.State ReliableSocket Datagram) :
    Decidable (Paced sender state) :=
  inferInstanceAs (Decidable (_ < _))

/-- What one end has been given and what the other end has made of it. -/
structure Carries (pushed returned : List Bytes) (exactly : Prop) : Prop where
  sublist : (positive returned).Sublist pushed
  positive_ : [] ∉ pushed → [] ∉ returned
  isPrefix : exactly → [] ∉ pushed → returned.IsPrefix pushed

theorem carries_forward
    (hfits : ∀ state trace action next, allowed state trace action next → Fits .a next)
    (hreach : (connection config crypto).machine.Reach allowed (start memory) state trace) :
    Carries (pushedSegments (Duplex.at_ .a trace)) (returnedSegments (Duplex.at_ .b trace))
      ((∀ state trace action next, allowed state trace action next → Paced .a next) ∧
        droppedIds (Duplex.at_ .a trace) = []) := by
  obtain ⟨groups, hsealed, _⟩ := exists_sealed hfits hreach
  have hdeliverable : ∀ package ∈ arrivedPackages (Duplex.at_ .b trace),
      crypto.Deliverable package := fun package harrived => hsealed.deliverable harrived
  have horder : (state.ends .b).recv.InOrder crypto (Duplex.at_ .b trace) :=
    ReliableSocket.delivers_inOrder (reach_end .b hreach) fun package harrived _ =>
      hdeliverable package harrived
  have hloaded := RecvSide.loadedPackages_prefix (state.ends .b).recv (Duplex.at_ .b trace)
  -- Packages of segments that are not empty yield all of their groups.
  have hnames : [] ∉ pushedSegments (Duplex.at_ .a trace) →
      ∀ package ∈ arrivedPackages (Duplex.at_ .b trace),
        Names PackageData.packageId (fun package => segmentsIn crypto package.payload) Eq groups 1
          package := fun hpushed package harrived =>
    hsealed.names (fun segment hmem => List.length_pos_iff.mpr fun hnil =>
      hpushed (hnil ▸ hmem)) harrived
  have hyields : [] ∉ pushedSegments (Duplex.at_ .a trace) →
      ∀ package ∈ arrivedPackages (Duplex.at_ .b trace),
        segmentsIn crypto package.payload ≠ [] := by
    intro hpushed package harrived
    obtain ⟨count, group, _, hgroup, heq⟩ := hnames hpushed package harrived
    exact heq.trans_ne (hsealed.ne_nil group (List.mem_of_getElem? hgroup))
  have hreturned : [] ∉ pushedSegments (Duplex.at_ .a trace) →
      [] ∉ returnedSegments (Duplex.at_ .b trace) := fun hpushed =>
    ReliableSocket.returned_ne_nil (reach_end .b hreach) hdeliverable (hyields hpushed)
  refine ⟨?_, hreturned, ?_⟩
  · have hnames : ∀ package ∈ takenPackages (Duplex.at_ .b trace),
        Names PackageData.packageId (fun package => segmentsIn crypto package.payload)
          List.Sublist groups 1 package := by
      intro package htaken
      obtain ⟨count, group, hid, hgroup, heq⟩ :=
        (hsealed.arrived package (horder.arrived package htaken)).names hsealed.length_lt
      exact ⟨count, group, hid, hgroup, heq ▸ List.takeWhile_sublist _⟩
    have hflat := flatMap_sublist_flatten groups 1 _ horder.increasing hnames
    have hshown : (positive (returnedSegments (Duplex.at_ .b trace))).Sublist _ :=
      horder.returned ▸ List.sublist_append_left _ _
    exact ((hshown.trans (hloaded.flatMap _).sublist).trans hflat).trans hsealed.pushed.sublist
  · rintro ⟨hpaced, hdropped⟩ hpushed
    have hcomplete := ReliableSocket.delivers_complete (receives_withinRing hfits hpaced hreach)
      (sendFroms_zero hreach hdropped) hdeliverable (hyields hpushed)
    have hflat := @flatMap_prefix_flatten _ _ PackageData.packageId
      (fun package => segmentsIn crypto package.payload) groups 1
      (takenPackages (Duplex.at_ .b trace)) (by
        rw [hcomplete.consecutive, ← List.length_map (·.packageId), hcomplete.consecutive,
          List.length_range']) fun package htaken =>
        hnames hpushed package (horder.arrived package htaken)
    have hshown : (returnedSegments (Duplex.at_ .b trace)).IsPrefix _ :=
      positive_eq_self (hreturned hpushed) ▸ horder.returned ▸ List.prefix_append _ _
    exact ((hshown.trans (hloaded.flatMap _)).trans hflat).trans hsealed.pushed

/-- Segments are returned in order, whatever is lost, dropped or overrun at the receiver; and
exactly as they have been given, while nothing is dropped and the ends keep pace. -/
theorem carries (sender : Side)
    (hfits : ∀ state trace action next, allowed state trace action next → Fits sender next)
    (hreach : (connection config crypto).machine.Reach allowed (start memory) state trace) :
    Carries (pushedSegments (Duplex.at_ sender trace))
      (returnedSegments (Duplex.at_ sender.peer trace))
      ((∀ state trace action next, allowed state trace action next → Paced sender next) ∧
        droppedIds (Duplex.at_ sender trace) = []) := by
  cases sender with
  | a => exact carries_forward hfits hreach
  | b =>
      have hswapped : (connection (fun side => config side.peer) crypto).machine.Reach
          (fun state trace action next =>
            allowed state.swap (Duplex.swapTrace trace) (action.1.peer, action.2) next.swap)
          (start fun side => memory side.peer) state.swap (Duplex.swapTrace trace) := by
        refine Duplex.reach_swap (fun state trace side action next hallowed => ?_) hreach
        simpa using hallowed
      obtain ⟨hsublist, hpositive, hprefix⟩ :=
        carries_forward (fun state trace action next hallowed =>
          hfits state.swap (Duplex.swapTrace trace) (action.1.peer, action.2) next.swap hallowed)
          hswapped
      simp only [Duplex.at_swapTrace] at hsublist hpositive hprefix
      exact ⟨hsublist, hpositive, fun ⟨hpaced, hdropped⟩ =>
        hprefix ⟨fun state trace action next hallowed =>
          hpaced state.swap (Duplex.swapTrace trace) (action.1.peer, action.2) next.swap hallowed,
          hdropped⟩⟩

end connection

end Sharpvpn
