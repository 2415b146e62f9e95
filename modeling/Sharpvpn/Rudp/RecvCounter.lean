import Sharpvpn.Rudp.Trace

/-!
# The receiver's cumulative counter

`recv_ack_id` is meant to be the last id up to which every package has arrived or
was dropped by the sender. The Data branch advances it over the ids it finds; the
Ack branch sets it to `send_from`, the first id that was not dropped. The counter
keeps its meaning, and stays maximal, as long as the second use is harmless.
-/

namespace Sharpvpn

open Foundation

namespace RecvSide

variable {crypto : SharpCrypto} {side next : RecvSide} {trace events : List Event}

/-- Every id counted as received or present in the pool is known. -/
structure Knows (side : RecvSide) (known : Nat → Prop) : Prop where
  counted : ∀ id, 1 ≤ id → id ≤ side.recvAckId → known id
  present : ∀ id, 1 ≤ id → (side.recvPool.find id).isSome → known id

/-- A fresh socket counts nothing. -/
theorem knows_init (memory : Memory) (known : Nat → Prop) :
    (ReliableSocket.init memory).recv.Knows known where
  counted := fun _ hid hle => absurd (hid.trans hle) (by simp [ReliableSocket.init])
  present := fun id _ hfound => by
    rw [show (ReliableSocket.init memory).recv.recvPool.find id = none from
      PackageMap.find_empty id] at hfound
    cases hfound

section Knows

variable {known later : Nat → Prop}

/-- Steps that leave the counter alone and store nothing. -/
theorem Knows.mono (hknows : side.Knows known) (hlater : ∀ id, known id → later id)
    (hcounter : next.recvAckId = side.recvAckId)
    (hfind : ∀ id, 1 ≤ id → (next.recvPool.find id).isSome → (side.recvPool.find id).isSome) :
    next.Knows later where
  counted := fun id hid hle => hlater id (hknows.counted id hid (hcounter ▸ hle))
  present := fun id hid hfound => hlater id (hknows.present id hid (hfind id hid hfound))

/-- The Data branch moves the counter only over packages it finds. -/
theorem Knows.receiveData {package : PackageData} (hknows : side.Knows known)
    (hlater : ∀ id, known id → later id)
    (hstored : side.accepts package = true → later package.packageId) :
    (side.receiveData package).Knows later := by
  have hpool : ∀ id, 1 ≤ id → ((side.poolAfter package).find id).isSome → later id := by
    intro id hid hfound
    obtain ⟨found, hfind⟩ := Option.isSome_iff_exists.mp hfound
    rcases find_poolAfter hfind with ⟨rfl, _, haccepts⟩ | hold
    · exact hstored haccepts
    · exact hlater id (hknows.present id hid (Option.isSome_iff_exists.mpr ⟨found, hold⟩))
  refine ⟨?_, hpool⟩
  apply SlotTable.scan_invariant (fun key => ∀ id, 1 ≤ id → id ≤ key → later id)
  · intro key hkey hpresent id hid hle
    rcases Nat.lt_or_ge key id with hlt | hge
    · have hsucc : succ64 key ≤ key + 1 := Nat.mod_le _ _
      obtain rfl : id = succ64 key := by omega
      exact hpool _ hid hpresent
    · exact hkey id hid hge
  · intro id hid hle
    exact hlater id (hknows.counted id hid hle)

/-- What the receiving half knows after a step: what it knew, the package it
stored, and what an Ack announces. -/
theorem Knows.step {action : RecvAction} (hknows : side.Knows known)
    (hlater : ∀ id, known id → later id)
    (htransition : side.Transition crypto action next events)
    (hstored : ∀ package, .stored package ∈ events → later package.packageId)
    (hannounced : ∀ una sendFrom ackList, action = .receive (.ack una sendFrom ackList) →
      ∀ id, side.recvAckId < id → id ≤ sendFrom.toNat → later id) : next.Knows later := by
  cases htransition with
  | data =>
      refine hknows.receiveData hlater fun haccepts => hstored _ ?_
      simp [receiveDataEvents, haccepts]
  | @ack una sendFrom ackList =>
      refine ⟨fun id hid hle => ?_, fun id hid hfound => ?_⟩
      · rw [receiveSendFrom_recvAckId] at hle
        rcases Nat.lt_or_ge side.recvAckId id with hlt | hge
        · exact hannounced una sendFrom ackList rfl id hlt (by omega)
        · exact hlater id (hknows.counted id hid hge)
      · exact hlater id (hknows.present id hid (by simpa using hfound))
  | connectionClose | signal =>
      exact hknows.mono hlater signal_recvAckId fun id _ hfound => by simpa using hfound
  | buffered | enter | stop | skip | wait | take | wake | load =>
      exact hknows.mono hlater rfl fun id _ hfound => hfound
  | finish =>
      refine hknows.mono hlater rfl fun id hid hfound => ?_
      obtain ⟨found, hfind⟩ := Option.isSome_iff_exists.mp hfound
      exact Option.isSome_iff_exists.mpr
        ⟨found, (PackageMap.find_of_find_erase (by omega) hfind).2⟩

end Knows

/-- An id has arrived or lies below a `send_from`. -/
def Accounted (trace : List Event) (id : Nat) : Prop :=
  id ∈ arrivedIds trace ∨ ∃ sendFrom ∈ sendFroms trace, id < sendFrom

/-- Every id counted as received has arrived or lies below a `send_from`. -/
def CountsAccounted (side : RecvSide) (trace : List Event) : Prop :=
  ∀ id, 1 ≤ id → id ≤ side.recvAckId → Accounted trace id

/-- A package at or above every `send_from` passes the duplicate filter on its
first arrival. -/
def KeepsFirstArrivals (side : RecvSide) (trace : List Event) : Prop :=
  ∀ package : PackageData, 1 ≤ package.packageId → package.packageId ∉ arrivedIds trace →
    (∀ sendFrom ∈ sendFroms trace, sendFrom ≤ package.packageId) → side.accepts package = true

/-- An Ack either leaves the counter alone or names a package that has arrived. -/
def SendFromArrived (side : RecvSide) (trace : List Event) : Datagram → Prop
  | .ack _ sendFrom _ => sendFrom.toNat ≤ side.recvAckId ∨ sendFrom.toNat ∈ arrivedIds trace
  | _ => True

instance (side : RecvSide) (trace : List Event) : DecidablePred (side.SendFromArrived trace)
  | .ack .. => inferInstanceAs (Decidable (_ ∨ _))
  | .data .. | .connectionClose => inferInstanceAs (Decidable True)

theorem Accounted.append {id : Nat} (haccounted : Accounted trace id) :
    Accounted (trace ++ events) id := by
  rcases haccounted with harrived | ⟨sendFrom, hmem, hlt⟩
  · exact .inl (by simp [harrived])
  · exact .inr ⟨sendFrom, by simp [hmem], hlt⟩

/-- A stored package has arrived. -/
theorem Transition.stored_arrived {action : RecvAction} {package : PackageData}
    (htransition : side.Transition crypto action next events)
    (hstored : .stored package ∈ events) : package.packageId ∈ arrivedIds events := by
  cases htransition with
  | data =>
      unfold receiveDataEvents at hstored ⊢
      split at hstored
      next haccepts =>
        obtain rfl : package = _ := by simpa using hstored
        simp [arrivedIds, Event.arrivedId?]
      next => simp at hstored
  | ack | connectionClose | buffered | take | finish => simp at hstored
  | signal | enter | stop | skip | wait | wake | load => cases hstored

theorem Knows.accounted_step {action : RecvAction} (hknows : side.Knows (Accounted trace))
    (htransition : side.Transition crypto action next events)
    (hsendFrom : action.Receives (side.SendFromArrived trace)) :
    next.Knows (Accounted (trace ++ events)) := by
  refine hknows.step (fun id haccounted => haccounted.append) htransition ?_ ?_
  · intro package hstored
    have := htransition.stored_arrived hstored
    exact .inl (by simp [this])
  · rintro una sendFrom ackList rfl id hlt hle
    cases htransition
    rcases Nat.lt_or_eq_of_le hle with hbelow | rfl
    · exact .inr ⟨sendFrom.toNat, by simp [sendFroms, Event.sendFrom?], hbelow⟩
    · rcases hsendFrom with hcovered | harrived
      · omega
      · exact .inl (by simp [harrived])

theorem Knows.keepsFirstArrivals (hknows : side.Knows (Accounted trace)) :
    side.KeepsFirstArrivals trace := by
  intro package hid hfirst hsendFrom
  have hunknown : ¬Accounted trace package.packageId := by
    rintro (harrived | ⟨sendFrom, hmem, hbelow⟩)
    · exact hfirst harrived
    · have := hsendFrom sendFrom hmem
      omega
  refine accepts_iff.mpr ⟨?_, ?_⟩
  · by_contra hfound
    exact hunknown (hknows.present _ hid (Option.isSome_iff_ne_none.mpr hfound))
  · by_contra hge
    exact hunknown (hknows.counted _ hid (by omega))

theorem accounted_filter (trace : List Event) :
    Accounted (trace.filter Event.ofRecv) = Accounted trace := by
  funext id
  simp [Accounted]

theorem sendFromArrived_filter (side : RecvSide) (trace : List Event) :
    side.SendFromArrived (trace.filter Event.ofRecv) = side.SendFromArrived trace := by
  funext datagram
  cases datagram <;> simp [SendFromArrived]

/-- The counter is maximal, and delivery is not ahead of it. -/
structure KeptUp (side : RecvSide) : Prop where
  maximal : side.recvPool.find (succ64 side.recvAckId) = none
  recvId_le : side.recvId ≤ succ64 side.recvAckId

/-- A Data datagram leaves an id above the counter missing, so that the counter
does not run to the end of its range; an Ack either leaves the counter alone or
moves it below an id that is missing. -/
def StaysMaximal (side : RecvSide) : Datagram → Prop
  | .data packageId _ _ => ∃ id, side.recvAckId < id ∧ id < 2 ^ 64 ∧ id ≠ packageId.toNat ∧
      side.recvPool.find id = none
  | .ack _ sendFrom _ => sendFrom.toNat ≤ side.recvAckId ∨
      (sendFrom.toNat + 1 < 2 ^ 64 ∧ side.recvPool.find (sendFrom.toNat + 1) = none)
  | .connectionClose => True

theorem keptUp_init (memory : Memory) :
    (ReliableSocket.init memory).recv.KeptUp ∧
      (ReliableSocket.init memory).recv.recvAckId + 1 < 2 ^ 64 := by
  refine ⟨⟨PackageMap.find_empty _, ?_⟩, ?_⟩ <;> simp [ReliableSocket.init, succ64]

/-- The loop of the Data branch ends before an id that is not in the pool. -/
theorem receiveData_maximal (side : RecvSide) (package : PackageData) :
    (side.receiveData package).recvPool.find (succ64 (side.receiveData package).recvAckId) =
      none := by
  let present (id : Nat) : Bool := ((side.poolAfter package).find id).isSome
  have hslots : ∀ i j, present i = true → present j = true →
      i % ringCapacity = j % ringCapacity → i = j := by
    intro i j hi hj hslot
    rw [← PackageMap.arrId_of_find hi, hslot, PackageMap.arrId_of_find hj]
  have habsent : present (succ64 (side.receiveData package).recvAckId) = false :=
    SlotTable.scan_capacity (by decide) hslots side.recvAckId
      (succ64_iterate_inj side.recvAckId)
  have hnone : (side.poolAfter package).find
      (succ64 (side.receiveData package).recvAckId) = none := by
    simpa [present] using habsent
  exact hnone

theorem le_receiveData_recvAckId {package : PackageData} {missing : Nat}
    (hlt : side.recvAckId < missing) (hmissing : missing < 2 ^ 64)
    (hne : missing ≠ package.packageId) (hnone : side.recvPool.find missing = none) :
    side.recvAckId ≤ (side.receiveData package).recvAckId ∧
      (side.receiveData package).recvAckId < missing := by
  refine SlotTable.scan_invariant (fun key => side.recvAckId ≤ key ∧ key < missing) ?_ _ _
    ⟨le_refl _, hlt⟩
  intro key hkey hpresent
  have hsucc : succ64 key = key + 1 := succ64_eq (by omega)
  have hother : succ64 key ≠ missing := by
    rintro rfl
    obtain ⟨found, hfind⟩ := Option.isSome_iff_exists.mp hpresent
    rcases find_poolAfter hfind with ⟨heq, _, _⟩ | hold
    · exact hne heq
    · rw [hnone] at hold
      cases hold
  omega

/-- Steps that leave the counter alone, store nothing and deliver nothing. -/
theorem KeptUp.mono (hkept : side.KeptUp) (hrange : side.recvAckId + 1 < 2 ^ 64)
    (hcounter : next.recvAckId = side.recvAckId) (hrecvId : next.recvId ≤ side.recvAckId + 1)
    (hfind : ∀ id, 1 ≤ id → side.recvPool.find id = none → next.recvPool.find id = none) :
    next.KeptUp ∧ next.recvAckId + 1 < 2 ^ 64 := by
  have hsucc := succ64_eq hrange
  refine ⟨⟨?_, ?_⟩, ?_⟩
  · rw [hcounter]
    exact hfind _ (by omega) hkept.maximal
  · rw [hcounter]
    omega
  · omega

theorem KeptUp.step {action : RecvAction} (hkept : side.KeptUp)
    (hrange : side.recvAckId + 1 < 2 ^ 64)
    (htransition : side.Transition crypto action next events)
    (hmaximal : action.Receives side.StaysMaximal) :
    next.KeptUp ∧ next.recvAckId + 1 < 2 ^ 64 := by
  have hsucc := succ64_eq hrange
  have hrecvId := hkept.recvId_le
  cases htransition with
  | @data packageId una payload =>
      -- An id that stays missing stops the scan before the counter wraps around.
      obtain ⟨missing, hlt, hmissing, hne, hnone⟩ := hmaximal
      have hbounds := @le_receiveData_recvAckId side ⟨packageId.toNat, payload⟩ missing
        hlt hmissing hne hnone
      have hnext : (side.receiveData ⟨packageId.toNat, payload⟩).recvAckId + 1 < 2 ^ 64 := by omega
      refine ⟨⟨receiveData_maximal _ _, ?_⟩, hnext⟩
      rw [succ64_eq hnext]
      show side.recvId ≤ _
      omega
  | @ack una sendFrom ackList =>
      have hcounter := side.receiveSendFrom_recvAckId sendFrom.toNat
      rcases hmaximal with hcovered | ⟨hnext, hnone⟩
      · exact hkept.mono hrange (by omega) (by simp; omega) (fun id _ hnone => by simpa using hnone)
      · rcases Nat.le_total sendFrom.toNat side.recvAckId with hle | hge
        · exact hkept.mono hrange (by omega) (by simp; omega)
            (fun id _ hnone => by simpa using hnone)
        · have hraised : (side.receiveSendFrom sendFrom.toNat).recvAckId = sendFrom.toNat := by
            omega
          -- No scan follows, so the id after `send_from` has to be missing by itself.
          refine ⟨⟨?_, ?_⟩, by omega⟩
          · rw [hraised, succ64_eq hnext]
            simpa using hnone
          · rw [hraised, succ64_eq hnext]
            simp
            omega
  | connectionClose | signal =>
      exact hkept.mono hrange signal_recvAckId (by simp; omega)
        (fun id _ hnone => by simpa using hnone)
  | buffered | enter | stop | wait | wake | load =>
      exact hkept.mono hrange rfl (by simp; omega) (fun id _ hnone => hnone)
  | skip _ _ hlt =>
      have : succ64 side.recvId ≤ side.recvId + 1 := Nat.mod_le _ _
      exact hkept.mono hrange rfl (by simp; omega) (fun id _ hnone => hnone)
  | take _ hfind =>
      -- the package taken is not the one after the counter, which is missing
      have hne : side.recvId ≠ succ64 side.recvAckId := by
        intro heq
        rw [heq, hkept.maximal] at hfind
        cases hfind
      have : succ64 side.recvId ≤ side.recvId + 1 := Nat.mod_le _ _
      exact hkept.mono hrange rfl (by simp; omega) (fun id _ hnone => hnone)
  | finish =>
      refine hkept.mono hrange rfl (by simp; omega) fun id hid hnone => ?_
      rw [PackageMap.find_erase (by omega), hnone]
      exact ite_self none

end RecvSide

namespace ReliableSocket

variable {config : Config} {crypto : SharpCrypto} {memory : Memory} {socket : ReliableSocket}
  {trace : List Event}

/-- Everything counted as received has arrived or was announced as dropped, and no
package still needed is discarded on its first arrival, in every run whose Acks
raise the counter only to packages that have arrived. -/
theorem recvAckId_accounted
    (hreach : (socketMachine config crypto).Reach
      (fun socket trace action _ => action.Receives (socket.recv.SendFromArrived trace))
      (init memory) socket trace) :
    socket.recv.CountsAccounted trace ∧ socket.recv.KeepsFirstArrivals trace := by
  have hrecv : (recvMachine crypto).Reach
      (fun side trace action _ => action.Receives (side.SendFromArrived trace))
      (init memory).recv socket.recv (trace.filter Event.ofRecv) := by
    refine reach_recv ?_ hreach
    intro socket trace action next move _ hallowed hmoves
    rw [RecvSide.sendFromArrived_filter]
    exact hmoves.receives hallowed
  have hknows : socket.recv.Knows (RecvSide.Accounted (trace.filter Event.ofRecv)) := by
    refine hrecv.invariant (fun side trace => side.Knows (RecvSide.Accounted trace))
      (RecvSide.knows_init _ _) ?_
    intro side trace action next events hknows hstep hallowed
    exact hknows.accounted_step (RecvSide.step_transition hstep) hallowed
  rw [RecvSide.accounted_filter] at hknows
  exact ⟨hknows.counted, hknows.keepsFirstArrivals⟩

/-- The receiver takes packages 1 and 3, then an Ack that announces that only 2 was
dropped. -/
theorem recvAckId_accounted_past_dropped : ∃ socket trace,
    (socketMachine .standard .marking).Reach
      (fun socket trace action _ => action.Receives (socket.recv.SendFromArrived trace))
      (init .zeroed) socket trace ∧
    socket.recv.recvAckId = 3 ∧ socket.recv.CountsAccounted trace ∧
      socket.recv.KeepsFirstArrivals trace := by
  obtain ⟨socket, trace, hreach, hcounter⟩ := Machine.reach_of_exec
    (fun (socket : ReliableSocket) (_ : List Event) => socket.recv.recvAckId)
    (show ((socketMachine .standard .marking).exec
      (fun socket trace action _ => action.Receives (socket.recv.SendFromArrived trace))
      (init .zeroed) []
      [.receiver, .receive (.data 1 0 []), .receiver, .receiver,
        .receiver, .receive (.data 3 0 []), .receiver, .receiver,
        .receiver, .receive (.ack 0 3 [])]).map (fun result => result.1.recv.recvAckId) =
        some 3 by decide)
  exact ⟨socket, trace, hreach, hcounter, recvAckId_accounted hreach⟩

/-- An Ack saying that package 1 was dropped makes the receiver count package 2,
which it then discards. -/
theorem recvAckId_overcounts : ∃ socket trace,
    (socketMachine .standard .marking).Reach Machine.always (init .zeroed) socket trace ∧
    ¬socket.recv.CountsAccounted trace ∧ ¬socket.recv.KeepsFirstArrivals trace := by
  obtain ⟨socket, trace, hreach, hview⟩ := Machine.reach_of_exec
    (fun (socket : ReliableSocket) (trace : List Event) =>
      (socket.recv.recvAckId, arrivedIds trace, sendFroms trace,
        socket.recv.accepts ⟨2, []⟩))
    (show ((socketMachine .standard .marking).exec Machine.always (init .zeroed) []
      [.receiver, .receive (.ack 0 2 [])]).map _ = some (2, [], [2], false) by decide)
  simp only [Prod.mk.injEq] at hview
  obtain ⟨hcounter, harrived, hsendFroms, hdiscarded⟩ := hview
  refine ⟨socket, trace, hreach, fun haccounted => ?_, fun hkeeps => ?_⟩
  · rcases haccounted 2 (by omega) (by omega) with hmem | ⟨sendFrom, hmem, hlt⟩
    · simp [harrived] at hmem
    · rw [hsendFroms, List.mem_singleton] at hmem
      omega
  · have := hkeeps ⟨2, []⟩ (by simp) (by simp [harrived]) (by simp [hsendFroms])
    rw [hdiscarded] at this
    cases this

/-- The counter stays maximal and ahead of delivery in every run whose Acks do not
move it under a package that is already there. -/
theorem recvAckId_keptUp
    (hreach : (socketMachine config crypto).Reach
      (fun socket _ action _ => action.Receives socket.recv.StaysMaximal)
      (init memory) socket trace) : socket.recv.KeptUp := by
  have hrecv : (recvMachine crypto).Reach
      (fun side _ action _ => action.Receives side.StaysMaximal)
      (init memory).recv socket.recv (trace.filter Event.ofRecv) :=
    reach_recv (fun _ _ _ _ _ _ hallowed hmoves => hmoves.receives hallowed) hreach
  refine (hrecv.invariant (fun side _ => side.KeptUp ∧ side.recvAckId + 1 < 2 ^ 64)
    (RecvSide.keptUp_init memory) ?_).1
  intro side trace action next events hkept hstep hallowed
  exact hkept.1.step hkept.2 (RecvSide.step_transition hstep) hallowed

/-- The receiver takes package 1, then an Ack that moves the counter to 3. -/
theorem recvAckId_keptUp_past_dropped : ∃ socket trace,
    (socketMachine .standard .marking).Reach
      (fun socket _ action _ => action.Receives socket.recv.StaysMaximal)
      (init .zeroed) socket trace ∧ socket.recv.recvAckId = 3 ∧ socket.recv.KeptUp := by
  have hstart : (socketMachine .standard .marking).Reach
      (fun socket _ action _ => action.Receives socket.recv.StaysMaximal)
      (init .zeroed) (init .zeroed) [] := .start
  have hlistening := hstart.extend .receiver rfl trivial
  have hdata := hlistening.extend (.receive (.data 1 0 [])) rfl
    ⟨2, by decide, by decide, by decide, rfl⟩
  have hdone := ((hdata.extend .receiver rfl trivial).extend .receiver rfl trivial).extend
    .receiver rfl trivial
  have hack := hdone.extend (.receive (.ack 0 3 [])) rfl (Or.inr ⟨by decide, by decide⟩)
  exact ⟨_, _, hack, by decide, recvAckId_keptUp hack⟩

/-- Package 3 is already there when an Ack says that package 1 was dropped: the
counter moves to 2 and not over package 3. -/
theorem recvAckId_falls_behind : ∃ socket trace,
    (socketMachine .standard .marking).Reach Machine.always (init .zeroed) socket trace ∧
    ¬socket.recv.KeptUp := by
  obtain ⟨socket, trace, hreach, hview⟩ := Machine.reach_of_exec
    (fun (socket : ReliableSocket) (_ : List Event) =>
      (socket.recv.recvPool.find (succ64 socket.recv.recvAckId)).isSome)
    (show ((socketMachine .standard .marking).exec Machine.always (init .zeroed) []
      [.receiver, .receive (.data 3 0 []), .receiver, .receiver,
        .receiver, .receive (.ack 0 2 [])]).map _ = some true by decide)
  refine ⟨socket, trace, hreach, fun hkept => ?_⟩
  rw [hkept.maximal] at hview
  cases hview

end ReliableSocket

end Sharpvpn
