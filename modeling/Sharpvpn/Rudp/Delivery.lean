import Mathlib.Data.List.Infix
import Sharpvpn.Rudp.RecvCounter

/-!
# Delivery

What `recv_package` returns are the segments of the packages it took, in order;
the packages it takes have arrived and have increasing ids. This holds whatever
arrives and however the counters move, because `recv_id` only grows.
-/

namespace Sharpvpn

open Foundation

/-- Where the parser is known to have returned everything. -/
def RecvCaller.Drained : RecvCaller → Prop
  | .scanning | .waiting _ | .taken .. | .dangling _ => True
  | .idle | .loaded _ => False

/-- A package that `recv_package` can take without `recv_id` overflowing, and whose
plaintext, if it decrypts, was built by a segment thread. -/
def SharpCrypto.Deliverable (crypto : SharpCrypto) (package : PackageData) : Prop :=
  package.packageId + 1 < 2 ^ 64 ∧
    ∀ plain, crypto.decrypt package.payload = some plain → WellFramed plain

namespace RecvSide

variable {crypto : SharpCrypto} {side next : RecvSide} {trace events : List Event}

/-- Packages in the pool are filed under their ids, and have arrived. -/
structure Origin (side : RecvSide) (trace : List Event) : Prop where
  held : ∀ id, 1 ≤ id → ∀ package, side.recvPool.find id = some package →
    package.packageId = id ∧ package ∈ arrivedPackages trace
  recvId_pos : 1 ≤ side.recvId
  recvAckId_lt : side.recvAckId < 2 ^ 64

/-- Steps that store nothing and do not raise the counter. -/
theorem Origin.mono (horigin : side.Origin trace)
    (hfind : ∀ id, 1 ≤ id → ∀ package, next.recvPool.find id = some package →
      side.recvPool.find id = some package)
    (hrecvId : 1 ≤ next.recvId) (hcounter : next.recvAckId = side.recvAckId) :
    next.Origin (trace ++ events) where
  held := by
    intro id hid package hfound
    obtain ⟨heq, harrived⟩ := horigin.held id hid package (hfind id hid package hfound)
    exact ⟨heq, by simp [harrived]⟩
  recvId_pos := hrecvId
  recvAckId_lt := hcounter ▸ horigin.recvAckId_lt

theorem Origin.receiveData {packageId una : UInt64} {payload : Bytes}
    (horigin : side.Origin trace) :
    (side.receiveData ⟨packageId.toNat, payload⟩).Origin
      (trace ++ .arrived (.data packageId una payload) ::
        side.receiveDataEvents ⟨packageId.toNat, payload⟩) where
  held := by
    intro id hid package hfound
    rw [arrivedPackages_append, List.mem_append]
    rcases find_poolAfter hfound with ⟨rfl, rfl, _⟩ | hold
    · exact ⟨rfl, .inr (by simp [arrivedPackages, Event.arrivedPackage?])⟩
    · obtain ⟨heq, harrived⟩ := horigin.held id hid package hold
      exact ⟨heq, .inl harrived⟩
  recvId_pos := horigin.recvId_pos
  recvAckId_lt :=
    SlotTable.scan_invariant (· < 2 ^ 64) (fun key _ _ => succ64_lt key) _ _ horigin.recvAckId_lt

theorem Origin.step {action : RecvAction} (horigin : side.Origin trace)
    (htransition : side.Transition crypto action next events)
    (htaken : ∀ package ∈ takenPackages events, package.packageId + 1 < 2 ^ 64) :
    next.Origin (trace ++ events) := by
  have hpos := horigin.recvId_pos
  have hrange := horigin.recvAckId_lt
  cases htransition with
  | data => exact horigin.receiveData
  | @ack una sendFrom ackList =>
      have hmono : side.Origin (trace ++ [.arrived (.ack una sendFrom ackList)]) :=
        horigin.mono (fun _ _ _ hfound => hfound) hpos rfl
      refine ⟨by simpa using hmono.held, by simpa using hpos, ?_⟩
      rw [receiveSendFrom_recvAckId]
      have := sendFrom.toNat_lt
      omega
  | connectionClose | signal =>
      exact horigin.mono (fun _ _ _ hfound => by simpa using hfound) (by simpa using hpos)
        signal_recvAckId
  | buffered | enter | stop | wait | wake | load =>
      exact horigin.mono (fun _ _ _ hfound => hfound) hpos rfl
  | skip _ _ hlt =>
      refine horigin.mono (fun _ _ _ hfound => hfound) ?_ rfl
      simp only [succ64]
      omega
  | @take _ package _ hfind =>
      have hid := (horigin.held _ hpos package hfind).1
      have hlt := htaken package (by simp [takenPackages, Event.takenPackage?])
      refine horigin.mono (fun _ _ _ hfound => hfound) ?_ rfl
      simp only [succ64]
      omega
  | finish =>
      exact horigin.mono (fun id hid _ hfound =>
        (PackageMap.find_of_find_erase (by omega) hfound).2) hpos rfl

/-- The packages taken and loaded: all that were taken, but for one that the caller
still holds. -/
def loadedPackages (side : RecvSide) (trace : List Event) : List PackageData :=
  match side.caller.holding with
  | some _ => (takenPackages trace).dropLast
  | none => takenPackages trace

theorem loadedPackages_prefix (side : RecvSide) (trace : List Event) :
    (side.loadedPackages trace).IsPrefix (takenPackages trace) := by
  unfold loadedPackages
  split
  · exact List.dropLast_prefix _
  · exact List.prefix_refl _

/-- The packages taken so far arrived in increasing order of ids, and what has been
returned and is still pending are their segments. -/
structure InOrder (crypto : SharpCrypto) (side : RecvSide) (trace : List Event) : Prop where
  arrived : ∀ package ∈ takenPackages trace, package ∈ arrivedPackages trace
  increasing : (takenPackages trace).Pairwise (·.packageId < ·.packageId)
  taken_lt : ∀ package ∈ takenPackages trace,
    1 ≤ package.packageId ∧ package.packageId < side.recvId
  held : ∀ package, side.caller.holding = some package →
    (takenPackages trace).getLast? = some package
  drained : side.caller.Drained → side.segmentRecv.pending = []
  returned : positive (returnedSegments trace) ++ side.segmentRecv.pending =
    (side.loadedPackages trace).flatMap fun package => segmentsIn crypto package.payload

/-- Steps that take nothing and return nothing, and leave the parser alone. -/
theorem InOrder.mono (horder : side.InOrder crypto trace)
    (htaken : takenPackages events = []) (hreturned : returnedSegments events = [])
    (hrecvId : side.recvId ≤ next.recvId) (hparser : next.segmentRecv = side.segmentRecv)
    (hholding : next.caller.holding = side.caller.holding)
    (hdrained : next.caller.Drained → side.segmentRecv.pending = []) :
    next.InOrder crypto (trace ++ events) where
  arrived := by
    intro package hmem
    rw [takenPackages_append, htaken, List.append_nil] at hmem
    simp [horder.arrived package hmem]
  increasing := by simpa [htaken] using horder.increasing
  taken_lt := by
    intro package hmem
    rw [takenPackages_append, htaken, List.append_nil] at hmem
    obtain ⟨hpos, hlt⟩ := horder.taken_lt package hmem
    exact ⟨hpos, by omega⟩
  held := by
    intro package hheld
    simpa [htaken] using horder.held package (hholding ▸ hheld)
  drained := by simpa [hparser] using hdrained
  returned := by
    have hloaded : next.loadedPackages (trace ++ events) = side.loadedPackages trace := by
      unfold loadedPackages
      rw [takenPackages_append, htaken, List.append_nil, hholding]
    rw [hloaded, returnedSegments_append, hreturned, List.append_nil, hparser]
    exact horder.returned

/-- The parser returns a segment while the caller holds no package. -/
theorem InOrder.return (horder : side.InOrder crypto trace)
    (hcaller : side.caller = .idle ∨ ∃ recvNow, side.caller = .loaded recvNow)
    (hnext : next.caller = .idle) (hrecvId : next.recvId = side.recvId)
    (hparser : next.segmentRecv = side.segmentRecv.nextSegment.2) :
    next.InOrder crypto (trace ++ [.returned side.segmentRecv.nextSegment.1]) := by
  have htaken : takenPackages (trace ++ [.returned side.segmentRecv.nextSegment.1]) =
      takenPackages trace := by
    simp [takenPackages, Event.takenPackage?]
  have hreturned : returnedSegments (trace ++ [.returned side.segmentRecv.nextSegment.1]) =
      returnedSegments trace ++ [side.segmentRecv.nextSegment.1] := by
    simp [returnedSegments, Event.returnedSegment?]
  have hloaded : side.loadedPackages trace = takenPackages trace := by
    unfold loadedPackages
    rcases hcaller with hidle | ⟨recvNow, hidle⟩ <;> rw [hidle] <;> rfl
  refine ⟨?_, htaken ▸ horder.increasing, ?_, ?_, ?_, ?_⟩
  · intro package hmem
    simp [horder.arrived package (htaken ▸ hmem)]
  · intro package hmem
    rw [hrecvId]
    exact horder.taken_lt package (htaken ▸ hmem)
  · intro package hheld
    rw [hnext] at hheld
    cases hheld
  · intro hdrained
    rw [hnext] at hdrained
    cases hdrained
  · have hpending := side.segmentRecv.pending_nextSegment
    have hsame := horder.returned
    rw [hloaded, hpending, ← List.append_assoc, ← positive_append] at hsame
    rw [hreturned, hparser, hsame]
    unfold loadedPackages
    rw [hnext, htaken]
    rfl

theorem InOrder.take {package : PackageData} {recvNow : Nat} (horder : side.InOrder crypto trace)
    (horigin : side.Origin trace) (hcaller : side.caller = .scanning)
    (hfind : side.recvPool.find side.recvId = some package)
    (hrange : package.packageId + 1 < 2 ^ 64) :
    InOrder crypto { side with recvId := succ64 side.recvId, caller := .taken package recvNow }
      (trace ++ [.taken package]) := by
  obtain ⟨hid, harrived⟩ := horigin.held _ horigin.recvId_pos package hfind
  have hsucc : succ64 side.recvId = side.recvId + 1 := succ64_eq (by omega)
  have htaken : takenPackages (trace ++ [.taken package]) = takenPackages trace ++ [package] := by
    simp [takenPackages, Event.takenPackage?]
  have hdrained : side.segmentRecv.pending = [] := horder.drained (by rw [hcaller]; trivial)
  refine ⟨?_, ?_, ?_, ?_, fun _ => hdrained, ?_⟩
  · intro other hmem
    rw [htaken, List.mem_append, List.mem_singleton] at hmem
    rcases hmem with hold | rfl
    · simp [horder.arrived other hold]
    · simp [harrived]
  · rw [htaken, List.pairwise_append]
    refine ⟨horder.increasing, List.pairwise_singleton _ _, ?_⟩
    intro earlier hearlier last hlast
    rw [List.mem_singleton.mp hlast, hid]
    exact (horder.taken_lt earlier hearlier).2
  · intro other hmem
    rw [htaken, List.mem_append, List.mem_singleton] at hmem
    simp only [hsucc]
    rcases hmem with hold | rfl
    · have := horder.taken_lt other hold
      omega
    · have := horigin.recvId_pos
      omega
  · intro held hheld
    cases hheld
    simp [htaken]
  · have hreturned : returnedSegments (trace ++ [.taken package]) = returnedSegments trace :=
      (returnedSegments_append _ _).trans (List.append_nil _)
    have hsame := horder.returned
    simp only [loadedPackages, hcaller, RecvCaller.holding] at hsame
    simpa [loadedPackages, htaken, hreturned, RecvCaller.holding] using hsame

theorem InOrder.load {package : PackageData} {recvNow : Nat} (horder : side.InOrder crypto trace)
    (hcaller : side.caller = .taken package recvNow)
    (hframed : ∀ plain, crypto.decrypt package.payload = some plain → WellFramed plain) :
    InOrder crypto { side with
      segmentRecv := side.segmentRecv.load crypto package.payload
      caller := .loaded recvNow } (trace ++ []) := by
  rw [List.append_nil]
  have hdrained : side.segmentRecv.pending = [] := horder.drained (by rw [hcaller]; trivial)
  refine ⟨horder.arrived, horder.increasing, horder.taken_lt, ?_, ?_, ?_⟩
  · rintro _ ⟨⟩
  · rintro ⟨⟩
  · have hsplit := List.dropLast_append_getLast? _ (horder.held package (by rw [hcaller]; rfl))
    have hpending : (side.segmentRecv.load crypto package.payload).pending =
        segmentsIn crypto package.payload := by
      rw [SegmentParser.pending_load _ hframed, hdrained]
      unfold segmentsIn
      cases crypto.decrypt package.payload <;> rfl
    have hsame := horder.returned
    simp only [loadedPackages, hcaller, hdrained, List.append_nil, RecvCaller.holding] at hsame
    simp only [loadedPackages, RecvCaller.holding]
    rw [← hsplit, List.flatMap_append, ← hsame, hpending]
    simp

theorem InOrder.step {action : RecvAction} (horder : side.InOrder crypto trace)
    (horigin : side.Origin trace) (htransition : side.Transition crypto action next events)
    (hdeliverable : ∀ package ∈ takenPackages (trace ++ events), crypto.Deliverable package) :
    next.InOrder crypto (trace ++ events) := by
  cases htransition with
  | @data packageId una payload =>
      have hcaller := side.callerAfter_cases ⟨packageId.toNat, payload⟩
      refine horder.mono ?_ ?_ (le_refl _) rfl (holding_callerAfter _ _) fun hdrained => ?_
      · unfold receiveDataEvents
        split <;> rfl
      · unfold receiveDataEvents
        split <;> rfl
      · refine horder.drained ?_
        rcases hcaller with hsame | ⟨held, recvNow, htaken, _⟩
        · rwa [← hsame]
        · rw [htaken]
          trivial
  | ack => exact horder.mono rfl rfl (by simp) (by simp) (by simp) (by simpa using horder.drained)
  | connectionClose | signal =>
      have hcaller := signal_caller side
      refine horder.mono rfl rfl (by simp) (by simp) (holding_signal side) ?_
      rcases hcaller with hsame | ⟨_, hwaiting, _⟩
      · rw [hsame]
        exact horder.drained
      · exact fun _ => horder.drained (by rw [hwaiting]; trivial)
  | @buffered _ segment parser hcaller hsegment =>
      have hreturn := @InOrder.return crypto side { side with segmentRecv := parser } trace horder
        (.inl hcaller) hcaller rfl (by rw [hsegment])
      rwa [hsegment] at hreturn
  | enter hcaller hsegment =>
      exact horder.mono rfl rfl (le_refl _) rfl (by rw [hcaller]; rfl)
        fun _ => SegmentParser.pending_eq_nil hsegment
  | stop hcaller =>
      exact horder.mono rfl rfl (le_refl _) rfl (by rw [hcaller]; rfl) (by rintro ⟨⟩)
  | skip _ _ hlt =>
      have := horigin.recvAckId_lt
      refine horder.mono rfl rfl ?_ rfl rfl horder.drained
      simp only [succ64]
      omega
  | wait hcaller | wake hcaller =>
      exact horder.mono rfl rfl (le_refl _) rfl (by rw [hcaller]; rfl)
        fun _ => horder.drained (by rw [hcaller]; trivial)
  | @take _ package hcaller hfind =>
      have hmem : package ∈ takenPackages (trace ++ [.taken package]) := by
        simp [takenPackages, Event.takenPackage?]
      exact horder.take horigin hcaller hfind (hdeliverable package hmem).1
  | @load _ package recvNow hcaller =>
      have hmem := List.mem_of_getLast? (horder.held package (by rw [hcaller]; rfl))
      exact horder.load hcaller (hdeliverable package (by simp [hmem])).2
  | finish hcaller => exact horder.return (.inr ⟨_, hcaller⟩) rfl rfl rfl

/-- A package is taken from the pool, at the next id. -/
theorem Transition.taken_found {action : RecvAction} {package : PackageData}
    (htransition : side.Transition crypto action next events)
    (htaken : package ∈ takenPackages events) : side.recvPool.find side.recvId = some package := by
  cases htransition with
  | data =>
      unfold receiveDataEvents at htaken
      split at htaken <;> cases htaken
  | take _ hfind =>
      obtain rfl : package = _ := List.mem_singleton.mp htaken
      exact hfind
  | ack | connectionClose | signal | buffered | enter | stop | skip | wait | wake | load
  | finish => cases htaken

/-- The order of delivery in every run in which the packages taken are deliverable. -/
theorem reach_inOrder {memory : Memory}
    {allowed : Machine.StepCondition RecvSide RecvAction Event}
    (hreach : (recvMachine crypto).Reach allowed (ReliableSocket.init memory).recv side trace)
    (hdeliverable : ∀ package ∈ arrivedPackages trace, package ∈ takenPackages trace →
      crypto.Deliverable package) :
    side.Origin trace ∧ side.InOrder crypto trace := by
  induction hreach with
  | start =>
      refine ⟨⟨?_, le_refl 1, Nat.two_pow_pos 64⟩, ⟨?_, .nil, ?_, ?_, ?_, rfl⟩⟩
      · intro id _ package hfound
        rw [show (ReliableSocket.init memory).recv.recvPool.find id = none from
          PackageMap.find_empty id] at hfound
        cases hfound
      · rintro _ ⟨⟩
      · rintro _ ⟨⟩
      · rintro _ ⟨⟩
      · rintro ⟨⟩
  | @step side next trace events action hprior hstep _ ih =>
      have htransition := step_transition hstep
      simp only [arrivedPackages_append, takenPackages_append, List.mem_append] at hdeliverable
      obtain ⟨horigin, horder⟩ := ih fun package hmem htaken =>
        hdeliverable package (.inl hmem) (.inl htaken)
      have htaken : ∀ package ∈ takenPackages (trace ++ events), crypto.Deliverable package := by
        intro package hmem
        rw [takenPackages_append, List.mem_append] at hmem
        rcases hmem with hold | hnew
        · exact hdeliverable package (.inl (horder.arrived package hold)) (.inl hold)
        · have hfound := htransition.taken_found hnew
          exact hdeliverable package (.inl (horigin.held _ horigin.recvId_pos package hfound).2)
            (.inr hnew)
      refine ⟨horigin.step htransition fun package hmem => (htaken package ?_).1,
        horder.step horigin htransition htaken⟩
      simp [hmem]

theorem Origin.of_filter (horigin : side.Origin (trace.filter Event.ofRecv)) :
    side.Origin trace := by
  obtain ⟨hheld, hrecvId, hrange⟩ := horigin
  rw [arrivedPackages_filter] at hheld
  exact ⟨hheld, hrecvId, hrange⟩

theorem InOrder.of_filter (horder : side.InOrder crypto (trace.filter Event.ofRecv)) :
    side.InOrder crypto trace := by
  obtain ⟨harrived, hincreasing, hlt, hheld, hdrained, hreturned⟩ := horder
  unfold loadedPackages at hreturned
  simp only [arrivedPackages_filter, takenPackages_filter, returnedSegments_filter] at *
  exact ⟨harrived, hincreasing, hlt, hheld, hdrained, hreturned⟩

end RecvSide

/-- A socket delivers in order while the packages it takes are deliverable. -/
theorem ReliableSocket.delivers_inOrder {config : Config} {crypto : SharpCrypto}
    {memory : Memory} {socket : ReliableSocket} {trace : List Event}
    (hreach : (socketMachine config crypto).Reach Machine.always (init memory) socket trace)
    (hdeliverable : ∀ package ∈ arrivedPackages trace, package ∈ takenPackages trace →
      crypto.Deliverable package) :
    socket.recv.InOrder crypto trace := by
  have hrecv : (recvMachine crypto).Reach Machine.always
      (init memory).recv socket.recv (trace.filter Event.ofRecv) :=
    reach_recv (fun _ _ _ _ _ _ _ _ => trivial) hreach
  rw [← arrivedPackages_filter, ← takenPackages_filter] at hdeliverable
  exact (RecvSide.reach_inOrder hrecv hdeliverable).2.of_filter

end Sharpvpn
