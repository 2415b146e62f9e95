import Sharpvpn.Rudp.Delivery

/-!
# Complete delivery

While no Ack announces a drop and every package that arrives is less than a ring
ahead of `recv_id`, everything counted and not taken stays in the pool, so that
`recv_package` skips nothing.
-/

namespace Sharpvpn

open Foundation

namespace RecvSide

variable {crypto : SharpCrypto} {side next : RecvSide} {trace events : List Event}

/-- A Data datagram is less than a ring ahead of the next id to deliver. -/
def WithinRing (side : RecvSide) : Datagram → Prop
  | .data packageId _ _ => packageId.toNat < side.recvId + ringCapacity
  | _ => True

/-- Everything counted and not taken is in the pool, what was taken has consecutive
ids, and every call has returned a segment. -/
structure Complete (side : RecvSide) (trace : List Event) : Prop where
  filled : side.Knows fun id => side.recvId ≤ id → (side.recvPool.find id).isSome
  counter_lt : side.recvAckId < side.recvId + ringCapacity
  held_lt : ∀ id, 1 ≤ id → (side.recvPool.find id).isSome → id < side.recvId + ringCapacity
  recvId_lt : side.recvId < 2 ^ 64
  consecutive : (takenPackages trace).map (·.packageId) = List.range' 1 (side.recvId - 1)
  taken_eq : ∀ package recvNow, side.caller = .taken package recvNow →
    recvNow = truncateInt (side.recvId - 1)
  loaded_eq : ∀ recvNow, side.caller = .loaded recvNow →
    recvNow = truncateInt (side.recvId - 1) ∧ side.segmentRecv.pending ≠ []
  returned : [] ∉ returnedSegments trace

/-- Steps that leave the pool and the counters alone. -/
theorem Complete.mono (hcomplete : side.Complete trace) (hpool : next.recvPool = side.recvPool)
    (hcounter : next.recvAckId = side.recvAckId) (hrecvId : next.recvId = side.recvId)
    (htaken : takenPackages events = [])
    (hcaller : ∀ package recvNow, next.caller = .taken package recvNow →
      side.caller = .taken package recvNow)
    (hloaded : ∀ recvNow, next.caller = .loaded recvNow →
      recvNow = truncateInt (side.recvId - 1) ∧ next.segmentRecv.pending ≠ [])
    (hreturned : [] ∉ returnedSegments events) : next.Complete (trace ++ events) where
  filled := by
    have hfilled := hcomplete.filled
    rw [hpool, hrecvId]
    exact ⟨fun id hid hle => hfilled.counted id hid (hcounter ▸ hle),
      fun id hid hfound => hfilled.present id hid (hpool ▸ hfound)⟩
  counter_lt := by
    rw [hcounter, hrecvId]
    exact hcomplete.counter_lt
  held_lt := by
    rw [hpool, hrecvId]
    exact hcomplete.held_lt
  recvId_lt := hrecvId ▸ hcomplete.recvId_lt
  consecutive := by
    rw [takenPackages_append, htaken, List.append_nil, hrecvId]
    exact hcomplete.consecutive
  taken_eq := by
    intro package recvNow hnext
    rw [hrecvId]
    exact hcomplete.taken_eq package recvNow (hcaller package recvNow hnext)
  loaded_eq := by
    rw [hrecvId]
    exact hloaded
  returned := by
    rw [returnedSegments_append, List.mem_append]
    rintro (hold | hnew)
    · exact hcomplete.returned hold
    · exact hreturned hnew

/-- A package within the ring evicts nothing that is still to be delivered. -/
theorem Complete.kept {package : PackageData} (hcomplete : side.Complete trace)
    (hrecvId : side.recvId ≤ side.recvAckId + 1)
    (hring : package.packageId < side.recvId + ringCapacity) {id : Nat} (hid : 1 ≤ id)
    (hle : side.recvId ≤ id) (hfound : (side.recvPool.find id).isSome) :
    ((side.poolAfter package).find id).isSome := by
  unfold poolAfter
  split
  next haccepts =>
    have hlt := (accepts_iff.mp haccepts).2
    have hheld := hcomplete.held_lt id hid hfound
    by_cases heq : id = package.packageId
    · rw [heq, PackageMap.find_set_self]
      rfl
    · rw [PackageMap.find_set_of_ne heq, if_neg]
      · exact hfound
      · intro hslot
        rcases Nat.le_total id package.packageId with hbelow | habove
        · exact heq (eq_of_mod_eq hslot hbelow (by omega))
        · exact heq (eq_of_mod_eq hslot.symm habove (by omega)).symm
  next => exact hfound

theorem Complete.receiveData {packageId una : UInt64} {payload : Bytes}
    (hcomplete : side.Complete trace) (hpos : 1 ≤ side.recvId)
    (hrecvId : side.recvId ≤ side.recvAckId + 1)
    (hring : packageId.toNat < side.recvId + ringCapacity) :
    (side.receiveData ⟨packageId.toNat, payload⟩).Complete
      (trace ++ .arrived (.data packageId una payload) ::
        side.receiveDataEvents ⟨packageId.toNat, payload⟩) := by
  have hevents : takenPackages (trace ++ .arrived (.data packageId una payload) ::
      side.receiveDataEvents ⟨packageId.toNat, payload⟩) = takenPackages trace ∧
      returnedSegments (trace ++ .arrived (.data packageId una payload) ::
        side.receiveDataEvents ⟨packageId.toNat, payload⟩) = returnedSegments trace := by
    rw [takenPackages_append, returnedSegments_append]
    unfold receiveDataEvents
    split <;> exact ⟨List.append_nil _, List.append_nil _⟩
  have hheld : ∀ id, 1 ≤ id → ((side.poolAfter ⟨packageId.toNat, payload⟩).find id).isSome →
      id < side.recvId + ringCapacity := by
    intro id hid hfound
    obtain ⟨found, hfind⟩ := Option.isSome_iff_exists.mp hfound
    rcases find_poolAfter hfind with ⟨rfl, _, _⟩ | hold
    · exact hring
    · exact hcomplete.held_lt id hid (Option.isSome_iff_exists.mpr ⟨found, hold⟩)
  refine ⟨?_, ?_, hheld, hcomplete.recvId_lt, ?_,
    fun package recvNow hnext => hcomplete.taken_eq package recvNow (caller_of_callerAfter hnext
      (by simp)),
    fun recvNow hnext => hcomplete.loaded_eq recvNow (caller_of_callerAfter hnext (by simp)), ?_⟩
  · refine hcomplete.filled.receiveData (fun id hknown hle => ?_) fun haccepts _ => ?_
    · exact hcomplete.kept hrecvId hring (hpos.trans hle) hle (hknown hle)
    · show ((side.poolAfter ⟨packageId.toNat, payload⟩).find packageId.toNat).isSome
      rw [poolAfter, if_pos haccepts, PackageMap.find_set_self]
      rfl
  · refine SlotTable.scan_invariant (· < side.recvId + ringCapacity) ?_ _ _ hcomplete.counter_lt
    intro key _ hpresent
    rcases Nat.eq_zero_or_pos (succ64 key) with hzero | hpos
    · rw [hzero]
      exact Nat.add_pos_right _ (by decide)
    · exact hheld _ hpos hpresent
  · rw [hevents.1]
    exact hcomplete.consecutive
  · rw [hevents.2]
    exact hcomplete.returned

/-- The next package counted is in the pool: nothing is skipped. -/
theorem Complete.not_skip (hcomplete : side.Complete trace) (hpos : 1 ≤ side.recvId)
    (hfind : side.recvPool.find side.recvId = none) : ¬side.recvId < side.recvAckId := by
  intro hlt
  have hfound := hcomplete.filled.counted _ hpos hlt.le (le_refl _)
  rw [hfind] at hfound
  cases hfound

theorem Complete.take {package : PackageData} (hcomplete : side.Complete trace)
    (horigin : side.Origin trace) (hfind : side.recvPool.find side.recvId = some package)
    (hrange : package.packageId + 1 < 2 ^ 64) :
    Complete { side with
      recvId := succ64 side.recvId
      caller := .taken package (truncateInt side.recvId) } (trace ++ [.taken package]) := by
  have hpos := horigin.recvId_pos
  have hid := (horigin.held _ hpos package hfind).1
  have hsucc : succ64 side.recvId = side.recvId + 1 := succ64_eq (by omega)
  have hcounter := hcomplete.counter_lt
  rw [hsucc]
  refine ⟨⟨?_, ?_⟩, ?_, ?_, ?_, ?_, ?_, by rintro _ ⟨⟩, ?_⟩
  · exact fun id hone hle habove =>
      hcomplete.filled.counted id hone hle (Nat.le_of_succ_le habove)
  · exact fun id hone hfound _ => hfound
  · show side.recvAckId < side.recvId + 1 + ringCapacity
    omega
  · intro id hone hfound
    have := hcomplete.held_lt id hone hfound
    show id < side.recvId + 1 + ringCapacity
    omega
  · show side.recvId + 1 < 2 ^ 64
    omega
  · have htaken : takenPackages (trace ++ [.taken package]) = takenPackages trace ++ [package] := by
      simp [takenPackages, Event.takenPackage?]
    have hlast : side.recvId + 1 - 1 = (side.recvId - 1) + 1 := by omega
    rw [htaken, List.map_append, hcomplete.consecutive, hlast, List.range'_concat]
    simp only [List.map_cons, List.map_nil, hid]
    congr 2
    omega
  · rintro _ _ ⟨⟩
    rfl
  · rw [returnedSegments_append, List.mem_append]
    rintro (hold | hnew)
    · exact hcomplete.returned hold
    · cases hnew

/-- The id erased was delivered: the `int` that keeps it cannot be mistaken for an
id that is still to be delivered. -/
theorem Complete.finish {recvNow : Nat} (hcomplete : side.Complete trace)
    (hpos : 1 ≤ side.recvId) (hcaller : side.caller = .loaded recvNow) :
    Complete { side with
      recvPool := side.recvPool.erase recvNow
      segmentRecv := side.segmentRecv.nextSegment.2
      caller := .idle } (trace ++ [.returned side.segmentRecv.nextSegment.1]) := by
  obtain ⟨hrecvNow, hpending⟩ := hcomplete.loaded_eq recvNow hcaller
  have hcounter := hcomplete.counter_lt
  unfold ringCapacity at hcounter
  have hfar := truncateInt_far (side.recvId - 1)
  rw [← hrecvNow] at hfar
  have hkeep : ∀ id, 1 ≤ id → side.recvId ≤ id → id < side.recvId + 100000 →
      (side.recvPool.find id).isSome → ((side.recvPool.erase recvNow).find id).isSome := by
    intro id hone hle hlt hfound
    rw [PackageMap.find_erase (by omega), if_neg (by omega)]
    exact hfound
  have hshrink : ∀ id, 1 ≤ id → ((side.recvPool.erase recvNow).find id).isSome →
      (side.recvPool.find id).isSome := by
    intro id hone hfound
    obtain ⟨found, hfind⟩ := Option.isSome_iff_exists.mp hfound
    exact Option.isSome_iff_exists.mpr
      ⟨found, (PackageMap.find_of_find_erase (by omega) hfind).2⟩
  refine ⟨⟨?_, ?_⟩, hcomplete.counter_lt, ?_, hcomplete.recvId_lt, ?_, by rintro _ _ ⟨⟩,
    by rintro _ ⟨⟩, ?_⟩
  · intro id hone hle habove
    have hlt : id < side.recvId + 100000 := Nat.lt_of_le_of_lt hle hcounter
    exact hkeep id hone habove hlt (hcomplete.filled.counted id hone hle habove)
  · exact fun id hone hfound _ => hfound
  · exact fun id hone hfound => hcomplete.held_lt id hone (hshrink id hone hfound)
  · rw [takenPackages_append]
    exact (congrArg _ (List.append_nil _)).trans hcomplete.consecutive
  · rw [returnedSegments_append, List.mem_append]
    rintro (hold | hnew)
    · exact hcomplete.returned hold
    · exact hpending (SegmentParser.pending_eq_nil (List.mem_singleton.mp hnew).symm)

theorem Complete.load {package : PackageData} {recvNow : Nat} (hcomplete : side.Complete trace)
    (horder : side.InOrder crypto trace) (hcaller : side.caller = .taken package recvNow)
    (hframed : ∀ plain, crypto.decrypt package.payload = some plain → WellFramed plain)
    (hyields : segmentsIn crypto package.payload ≠ []) :
    Complete { side with
      segmentRecv := side.segmentRecv.load crypto package.payload
      caller := .loaded recvNow } (trace ++ []) := by
  refine hcomplete.mono rfl rfl rfl rfl (by rintro _ _ ⟨⟩) ?_ (by rintro ⟨⟩)
  rintro _ ⟨⟩
  refine ⟨hcomplete.taken_eq package recvNow hcaller, ?_⟩
  have hdrained : side.segmentRecv.pending = [] := horder.drained (by rw [hcaller]; trivial)
  show (side.segmentRecv.load crypto package.payload).pending ≠ []
  rw [SegmentParser.pending_load _ hframed, hdrained]
  unfold segmentsIn at hyields ⊢
  cases hdecrypt : crypto.decrypt package.payload with
  | none => simp [hdecrypt] at hyields
  | some plain => simpa [hdecrypt] using hyields

theorem Complete.step {action : RecvAction} (hcomplete : side.Complete trace)
    (horigin : side.Origin trace) (horder : side.InOrder crypto trace) (hkept : side.KeptUp)
    (hrange : side.recvAckId + 1 < 2 ^ 64)
    (htransition : side.Transition crypto action next events)
    (hring : action.Receives side.WithinRing)
    (hsendFroms : ∀ sendFrom ∈ sendFroms events, sendFrom = 0)
    (hdeliverable : ∀ package ∈ arrivedPackages trace, crypto.Deliverable package)
    (hyields : ∀ package ∈ arrivedPackages trace, segmentsIn crypto package.payload ≠ []) :
    next.Complete (trace ++ events) := by
  have hpos := horigin.recvId_pos
  have hrecvId : side.recvId ≤ side.recvAckId + 1 := by
    rw [← succ64_eq hrange]
    exact hkept.recvId_le
  cases htransition with
  | data => exact hcomplete.receiveData hpos hrecvId hring
  | @ack una sendFrom ackList =>
      have hzero : sendFrom.toNat = 0 := hsendFroms _ (by simp [sendFroms, Event.sendFrom?])
      refine hcomplete.mono (by simp) ?_ (by simp) rfl (by simp) ?_ (by rintro ⟨⟩)
      · rw [receiveSendFrom_recvAckId, hzero, Nat.max_zero]
      · simpa using hcomplete.loaded_eq
  | connectionClose | signal =>
      have hcaller := signal_caller side
      refine hcomplete.mono (by simp) (by simp) (by simp) rfl ?_ ?_ (by rintro ⟨⟩)
      · intro package recvNow hnext
        rcases hcaller with hsame | ⟨_, _, hsignalled⟩
        · rwa [hsame] at hnext
        · rw [hsignalled] at hnext
          cases hnext
      · intro recvNow hnext
        rcases hcaller with hsame | ⟨_, _, hsignalled⟩
        · rw [hsame] at hnext
          simpa using hcomplete.loaded_eq recvNow hnext
        · rw [hsignalled] at hnext
          cases hnext
  | @buffered _ segment parser hcaller hsegment hne =>
      refine hcomplete.mono rfl rfl rfl rfl (by simp [hcaller]) (by simp [hcaller]) ?_
      -- The empty segment means that there is none.
      intro hmem
      exact hne (List.mem_singleton.mp hmem).symm
  | enter | stop | wait | wake =>
      exact hcomplete.mono rfl rfl rfl rfl (by rintro _ _ ⟨⟩) (by rintro _ ⟨⟩) (by rintro ⟨⟩)
  -- Whatever counts as received is there until it is taken.
  | skip _ hfind hlt => exact absurd hlt (hcomplete.not_skip hpos hfind)
  | @take _ package _ hfind =>
      have harrived := (horigin.held _ hpos package hfind).2
      exact hcomplete.take horigin hfind (hdeliverable package harrived).1
  | @load _ package recvNow hcaller =>
      have harrived := horder.arrived package
        (List.mem_of_getLast? (horder.held package (by rw [hcaller]; rfl)))
      exact hcomplete.load horder hcaller (hdeliverable package harrived).2
        (hyields package harrived)
  | finish hcaller => exact hcomplete.finish hpos hcaller

/-- Deliverable packages leave the last id missing, and an Ack that announces no drop
leaves the counter alone. -/
theorem staysMaximal_of_deliverable {action : RecvAction} (horigin : side.Origin trace)
    (hrange : side.recvAckId + 1 < 2 ^ 64)
    (htransition : side.Transition crypto action next events)
    (hsendFroms : ∀ sendFrom ∈ sendFroms events, sendFrom = 0)
    (hdeliverable : ∀ package ∈ arrivedPackages (trace ++ events), crypto.Deliverable package) :
    action.Receives side.StaysMaximal := by
  cases htransition with
  | @data packageId una payload =>
      have hnew := (hdeliverable ⟨packageId.toNat, payload⟩
        (by simp [arrivedPackages, Event.arrivedPackage?])).1
      refine ⟨2 ^ 64 - 1, by omega, by omega, ?_, ?_⟩
      · intro heq
        simp only [← heq] at hnew
        omega
      · by_contra hfound
        obtain ⟨package, hfind⟩ := Option.ne_none_iff_exists'.mp hfound
        obtain ⟨hid, harrived⟩ := horigin.held _ (by omega) package hfind
        have := (hdeliverable package (by simp [harrived])).1
        omega
  | @ack una sendFrom ackList =>
      have hzero : sendFrom.toNat = 0 := hsendFroms _ (by simp [sendFroms, Event.sendFrom?])
      exact .inl (by omega)
  | connectionClose | signal | buffered | enter | stop | skip | wait | take | wake | load
  | finish => trivial

/-- Complete delivery in every run in which packages arrive within the ring. -/
theorem reach_complete {memory : Memory}
    (hreach : (recvMachine crypto).Reach
      (fun side _ action _ => action.Receives side.WithinRing)
      (ReliableSocket.init memory).recv side trace)
    (hsendFroms : ∀ sendFrom ∈ sendFroms trace, sendFrom = 0)
    (hdeliverable : ∀ package ∈ arrivedPackages trace, crypto.Deliverable package)
    (hyields : ∀ package ∈ arrivedPackages trace, segmentsIn crypto package.payload ≠ []) :
    side.Complete trace ∧ side.KeptUp ∧ side.recvAckId + 1 < 2 ^ 64 := by
  induction hreach with
  | start =>
      refine ⟨⟨knows_init _ _, ?_, ?_, ?_, rfl, by rintro _ _ ⟨⟩, by rintro _ ⟨⟩, by rintro ⟨⟩⟩,
        keptUp_init memory⟩
      · exact Nat.succ_pos _
      · intro id hid hfound
        have := (knows_init memory (fun _ => False)).present id hid hfound
        cases this
      · show 1 < 2 ^ 64
        omega
  | @step side next trace events action hprior hstep hring ih =>
      have htransition := step_transition hstep
      simp only [sendFroms_append, List.mem_append] at hsendFroms
      have hbefore : ∀ package ∈ arrivedPackages trace, crypto.Deliverable package :=
        fun package hmem => hdeliverable package (by simp [hmem])
      have hyielded : ∀ package ∈ arrivedPackages trace,
          segmentsIn crypto package.payload ≠ [] :=
        fun package hmem => hyields package (by simp [hmem])
      obtain ⟨hcomplete, hkept, hrange⟩ :=
        ih (fun _ hmem => hsendFroms _ (.inl hmem)) hbefore hyielded
      obtain ⟨horigin, horder⟩ := reach_inOrder hprior fun package hmem _ => hbefore package hmem
      have hlast : ∀ sendFrom ∈ sendFroms events, sendFrom = 0 :=
        fun _ hmem => hsendFroms _ (.inr hmem)
      exact ⟨hcomplete.step horigin horder hkept hrange htransition hring hlast hbefore hyielded,
        hkept.step hrange htransition
          (staysMaximal_of_deliverable horigin hrange htransition hlast hdeliverable)⟩

theorem Complete.of_filter (hcomplete : side.Complete (trace.filter Event.ofRecv)) :
    side.Complete trace := by
  obtain ⟨hfilled, hcounter, hheld, hrecvId, hconsecutive, htaken, hloaded, hreturned⟩ := hcomplete
  rw [takenPackages_filter] at hconsecutive
  rw [returnedSegments_filter] at hreturned
  exact ⟨hfilled, hcounter, hheld, hrecvId, hconsecutive, htaken, hloaded, hreturned⟩

end RecvSide

/-- A socket delivers completely while deliverable packages arrive within the ring and
no drop is announced. -/
theorem ReliableSocket.delivers_complete {config : Config} {crypto : SharpCrypto}
    {memory : Memory} {socket : ReliableSocket} {trace : List Event}
    (hreach : (socketMachine config crypto).Reach
      (fun socket _ action _ => action.Receives socket.recv.WithinRing)
      (init memory) socket trace)
    (hsendFroms : ∀ sendFrom ∈ sendFroms trace, sendFrom = 0)
    (hdeliverable : ∀ package ∈ arrivedPackages trace, crypto.Deliverable package)
    (hyields : ∀ package ∈ arrivedPackages trace, segmentsIn crypto package.payload ≠ []) :
    socket.recv.Complete trace := by
  have hrecv : (recvMachine crypto).Reach (fun side _ move _ => move.Receives side.WithinRing)
      (init memory).recv socket.recv (trace.filter Event.ofRecv) :=
    reach_recv (fun _ _ _ _ _ _ hallowed hmoves => hmoves.receives hallowed) hreach
  rw [← sendFroms_filter] at hsendFroms
  rw [← arrivedPackages_filter] at hdeliverable hyields
  exact (RecvSide.reach_complete hrecv hsendFroms hdeliverable hyields).1.of_filter

end Sharpvpn
