import Sharpvpn.Rudp.Assigned

/-!
# Fast resends

When a package is acknowledged, the receiver asks for the earlier ones once more.
`resend_now` remembers how far it has asked, so that it asks for no package twice.
-/

namespace Sharpvpn

open Foundation

namespace SendSide

variable {side next : SendSide} {ids : List Nat} {id una : Nat} {events : List Event}
  {action : SendAction}

/-- `max_ack_id` is the largest of the ids that the Ack branch takes. -/
theorem maxAckId_eq (side : SendSide) (ids : List Nat) :
    side.maxAckId ids = (ids.filter fun id => side.acceptsAck id).foldl max 0 := by
  unfold maxAckId
  rw [List.foldl_filter]
  congr
  funext most id
  split
  · split <;> omega
  · rfl

theorem mem_maxAckId (side : SendSide) (ids : List Nat) :
    side.maxAckId ids = 0 ∨
      side.maxAckId ids ∈ ids ∧ side.acceptsAck (side.maxAckId ids) = true := by
  have hmax : (0 :: ids.filter fun id => side.acceptsAck id).max? = some (side.maxAckId ids) := by
    rw [maxAckId_eq, List.max?_cons']
  have hmem := (List.max?_eq_some_iff.mp hmax).1
  rwa [List.mem_cons, List.mem_filter] at hmem

theorem le_maxAckId (hmem : id ∈ ids) (haccepted : side.acceptsAck id = true) :
    id ≤ side.maxAckId ids := by
  have hmax : (0 :: ids.filter fun id => side.acceptsAck id).max? = some (side.maxAckId ids) := by
    rw [maxAckId_eq, List.max?_cons']
  refine (List.max?_eq_some_iff.mp hmax).2 id (List.mem_cons_of_mem _ ?_)
  exact List.mem_filter.mpr ⟨hmem, haccepted⟩

/-- The loop that follows every change of `send_ack_id` ends within a ring. -/
theorem advanceAck_le (hrange : side.sendAckId < 2 ^ 64) :
    side.advanceAck.sendAckId ≤ side.sendAckId + ringCapacity := by
  obtain ⟨_, _, hbetween⟩ := advanceAck_sendAckId hrange
  by_contra hfar
  -- Two ids a ring apart have one slot, which holds only one of them.
  have hfirst := hbetween (side.sendAckId + 1) (by omega) (by omega)
  have hlast := hbetween (side.sendAckId + 1 + ringCapacity) (by omega) (by omega)
  have heq := (IdSet.find_ne_zero.mp hfirst).2.eq_of_slot (IdSet.find_ne_zero.mp hlast).2
    (Nat.add_mod_right _ _).symm
  have hcapacity : 0 < ringCapacity := by decide
  omega

theorem receiveAck_resendNow (side : SendSide) (una : Nat) (ids : List Nat) :
    (side.receiveAck una ids).resendNow =
      max side.resendNow (side.receiveAck una ids).sendAckId := by
  have hraise : (side.receiveAck una ids).resendNow =
      if side.resendNow < (side.receiveAck una ids).sendAckId then
        (side.receiveAck una ids).sendAckId
      else side.resendNow := rfl
  rw [hraise]
  split <;> omega

theorem receiveAck_sendAckId_le {ids : List Nat} (hrange : side.sendAckId < 2 ^ 64)
    (huna : una < 2 ^ 64) :
    (side.receiveAck una ids).sendAckId ≤ max side.sendAckId una + ringCapacity := by
  let raised : SendSide :=
    { side with
      ackRecvPool := side.insertAcks ids
      sendAckId := if una > side.sendAckId then una else side.sendAckId }
  have hraised : raised.sendAckId = max side.sendAckId una := by
    simp only [raised]
    split <;> omega
  have hadvance := @advanceAck_le raised (by omega)
  rw [hraised] at hadvance
  exact hadvance

/-- The threads of the sender and of the segments ask for nothing in this way. -/
theorem Transition.resends_frame (htransition : side.Transition action next events)
    (haction : (∃ payload, action = .assign payload) ∨
      (∃ running recvAckId, action = .sender running recvAckId) ∨
      ∃ running timedOut, action = .ackHandler running timedOut) :
    next.resendNow = side.resendNow ∧ next.sendAckId = side.sendAckId ∧
      ∀ id, events.count (.fastResent id) = 0 := by
  have herase : ∀ erased id, (side.eraseEvents erased).count (.fastResent id) = 0 := by
    intro erased id
    unfold eraseEvents
    cases side.sendPool.eraseFrees erased <;> simp
  cases htransition with
  | assign =>
      refine ⟨rfl, rfl, fun id => ?_⟩
      unfold assignEvents
      cases side.sendPool.pushFrees side.sendId <;> simp
  | sent => exact ⟨rfl, rfl, fun id => by simp [List.count_replicate]⟩
  | popped | timedOut => exact ⟨rfl, rfl, fun id => by simp⟩
  | dropped | settled => exact ⟨rfl, rfl, fun id => by simp [herase]⟩
  | senderMove | missed | vanished | queued | handlerMove | handled | watch | expire | settle =>
      exact ⟨rfl, rfl, fun _ => rfl⟩
  | recvUna | ackRecv | fastResend | fastResent => simp at haction

end SendSide

namespace ReliableSocket

variable {config : Config} {crypto : SharpCrypto} {memory : Memory}
  {socket next : ReliableSocket} {action : Action} {trace events : List Event}

/-- The ids that have been asked for are below this one. -/
def askedBelow (socket : ReliableSocket) : Nat :=
  match socket.receiver with
  | .fastResend resendId _ => resendId
  | _ => socket.send.resendNow + 1

theorem askedBelow_eq
    (hreceiver : ∀ resendId maxAckId, socket.receiver ≠ .fastResend resendId maxAckId) :
    socket.askedBelow = socket.send.resendNow + 1 := by
  unfold askedBelow
  split
  next heq => exact absurd heq (hreceiver _ _)
  next => rfl

/-- Each id is asked for at most once, and only assigned ids are. -/
structure AsksOnce (socket : ReliableSocket) (trace : List Event) : Prop where
  sendAckId_lt : socket.send.sendAckId < 2 ^ 64
  sendId_lt : socket.send.sendId + 1 < 2 ^ 63
  resendNow_le : socket.send.resendNow ≤ max socket.send.sendAckId socket.send.sendId
  una_le : ∀ una ackList, socket.receiver = .ackRecv una ackList →
    una.toNat ≤ socket.send.sendId
  asking : ∀ resendId maxAckId, socket.receiver = .fastResend resendId maxAckId →
    socket.send.resendNow < resendId ∧ resendId ≤ maxAckId ∧ maxAckId ≤ socket.send.sendId
  once : ∀ id, trace.count (.fastResent id) ≤ if id < socket.askedBelow then 1 else 0

/-- Steps that ask for nothing. -/
theorem AsksOnce.mono (hasks : socket.AsksOnce trace)
    (hsendAckId : socket.send.sendAckId ≤ next.send.sendAckId)
    (hrange : next.send.sendAckId < 2 ^ 64) (hsendId : socket.send.sendId ≤ next.send.sendId)
    (hsendIdLt : next.send.sendId + 1 < 2 ^ 63)
    (hresendNow : next.send.resendNow = socket.send.resendNow)
    (hreceiver : next.receiver = socket.receiver ∨
      (∀ resendId maxAckId, socket.receiver ≠ .fastResend resendId maxAckId) ∧
      (∀ resendId maxAckId, next.receiver ≠ .fastResend resendId maxAckId) ∧
      ∀ una ackList, next.receiver = .ackRecv una ackList → una.toNat ≤ socket.send.sendId)
    (hevents : ∀ id, events.count (.fastResent id) = 0) : next.AsksOnce (trace ++ events) := by
  obtain ⟨_, _, hnow, huna, hasking, honce⟩ := hasks
  refine ⟨hrange, hsendIdLt, by omega, ?_, ?_, ?_⟩
  · intro una ackList hnext
    rcases hreceiver with hsame | ⟨_, _, hnew⟩
    · exact (huna una ackList (hsame ▸ hnext)).trans hsendId
    · exact (hnew una ackList hnext).trans hsendId
  · intro resendId maxAckId hnext
    rcases hreceiver with hsame | ⟨_, hnew, _⟩
    · obtain ⟨habove, hle, hassigned⟩ := hasking resendId maxAckId (hsame ▸ hnext)
      exact ⟨hresendNow ▸ habove, hle, hassigned.trans hsendId⟩
    · exact absurd hnext (hnew resendId maxAckId)
  · intro id
    have hbelow : next.askedBelow = socket.askedBelow := by
      rcases hreceiver with hsame | ⟨hold, hnew, _⟩
      · unfold askedBelow
        rw [hsame, hresendNow]
      · rw [askedBelow_eq hold, askedBelow_eq hnew, hresendNow]
    rw [List.count_append, hevents, hbelow]
    exact honce id

/-- An Ack after which the receiver starts to ask: it asks for ids above those asked for,
and below one that has been assigned. -/
theorem AsksOnce.ackRecv {una : UInt64} {ackList : List UInt64} {thread : ReceiverThread}
    (hasks : socket.AsksOnce trace) (hreceiver : socket.receiver = .ackRecv una ackList)
    (hthread : thread = .head ∨
      ((socket.send.receiveAck una.toNat (ackList.map UInt64.toNat)).resendNow + 2) % 2 ^ 64 <
        socket.send.maxAckId (ackList.map UInt64.toNat) ∧
      thread = .fastResend
        (succ64 (socket.send.receiveAck una.toNat (ackList.map UInt64.toNat)).resendNow)
        (socket.send.maxAckId (ackList.map UInt64.toNat))) :
    AsksOnce { socket with
      send := socket.send.receiveAck una.toNat (ackList.map UInt64.toNat)
      receiver := thread } trace := by
  obtain ⟨hrange, hsendId, hnow, huna, _, honce⟩ := hasks
  have huna := huna una ackList hreceiver
  generalize ackList.map UInt64.toNat = ids at hthread ⊢
  obtain ⟨hle, hrange', _⟩ := @SendSide.receiveAck_sendAckId socket.send una.toNat ids
    hrange una.toNat_lt
  have hnear := @SendSide.receiveAck_sendAckId_le socket.send una.toNat ids hrange una.toNat_lt
  have hraise := socket.send.receiveAck_resendNow una.toNat ids
  have hbelow : socket.askedBelow = socket.send.resendNow + 1 := by simp [askedBelow, hreceiver]
  rw [hbelow] at honce
  have hasked : ∀ id below, socket.send.resendNow + 1 ≤ below →
      trace.count (.fastResent id) ≤ if id < below then 1 else 0 := by
    intro id below hbelow
    have := honce id
    split at this <;> split <;> omega
  rcases hthread with rfl | ⟨hlater, rfl⟩
  · refine ⟨hrange', hsendId, ?_, by rintro _ _ ⟨⟩, by rintro _ _ ⟨⟩, fun id => hasked id _ ?_⟩
    · show (socket.send.receiveAck una.toNat ids).resendNow ≤
        max (socket.send.receiveAck una.toNat ids).sendAckId socket.send.sendId
      omega
    · rw [askedBelow_eq (by rintro _ _ ⟨⟩)]
      show _ ≤ (socket.send.receiveAck una.toNat ids).resendNow + 1
      omega
  · -- Some id was accepted, so the counters were not past `send_id`.
    have haccepted := (socket.send.mem_maxAckId ids).resolve_left (by omega)
    have hassigned := SendSide.acceptsAck_iff.mp haccepted.2
    unfold ringCapacity at hnear
    rw [Nat.mod_eq_of_lt (by omega)] at hlater
    rw [succ64_eq (by omega)]
    refine ⟨hrange', hsendId, ?_, by rintro _ _ ⟨⟩, ?_, fun id => hasked id _ ?_⟩
    · show (socket.send.receiveAck una.toNat ids).resendNow ≤
        max (socket.send.receiveAck una.toNat ids).sendAckId socket.send.sendId
      omega
    · rintro _ _ ⟨⟩
      show (socket.send.receiveAck una.toNat ids).resendNow < _ ∧ _ ∧ _ ≤ socket.send.sendId
      omega
    · show _ ≤ (socket.send.receiveAck una.toNat ids).resendNow + 1
      omega

theorem AsksOnce.fastResend {resendId maxAckId : Nat} (hasks : socket.AsksOnce trace)
    (hreceiver : socket.receiver = .fastResend resendId maxAckId) (hlt : resendId < maxAckId) :
    AsksOnce { socket with
      send := socket.send.fastResend resendId
      receiver := .fastResend (resendId + 1) maxAckId }
      (trace ++ socket.send.fastResendEvents resendId) := by
  obtain ⟨hrange, hsendId, hnow, _, hasking, honce⟩ := hasks
  obtain ⟨habove, _, hassigned⟩ := hasking _ _ hreceiver
  have hbelow : socket.askedBelow = resendId := by simp [askedBelow, hreceiver]
  obtain ⟨pool, heq⟩ := @SendSide.fastResend_frame socket.send resendId
  rw [heq]
  refine ⟨hrange, hsendId, hnow, by rintro _ _ ⟨⟩, ?_, fun id => ?_⟩
  · rintro _ _ ⟨⟩
    exact ⟨Nat.lt_succ_of_lt habove, hlt, hassigned⟩
  · have hevents : (socket.send.fastResendEvents resendId).count (.fastResent id) ≤
        if id = resendId then 1 else 0 := by
      unfold SendSide.fastResendEvents
      split
      · by_cases hid : id = resendId
        · simp [hid]
        · simp [hid, Ne.symm hid]
      · exact Nat.zero_le _
    have := honce id
    rw [hbelow] at this
    rw [List.count_append]
    show _ ≤ if id < resendId + 1 then 1 else 0
    split at this <;> split at hevents <;> split <;> omega

theorem AsksOnce.receiving (hasks : socket.AsksOnce trace)
    (hreceiving : socket.Receiving next events) : next.AsksOnce (trace ++ events) := by
  have hrange := hasks.sendAckId_lt
  have hsendId := hasks.sendId_lt
  cases hreceiving with
  | head hold hnew =>
      refine hasks.mono (le_refl _) hrange (le_refl _) hsendId rfl (.inr ⟨?_, ?_, ?_⟩) fun _ => rfl
      · rw [hold]
        rintro _ _ ⟨⟩
      · rcases hnew with rfl | rfl <;> rintro _ _ ⟨⟩
      · rcases hnew with rfl | rfl <;> rintro _ _ ⟨⟩
  | queueAck hreceiver =>
      refine hasks.mono (le_refl _) hrange (le_refl _) hsendId rfl (.inr ⟨?_, ?_, ?_⟩) fun _ => rfl
      · rw [hreceiver]
        rintro _ _ ⟨⟩
      · rintro _ _ ⟨⟩
      · rintro _ _ ⟨⟩
  | @recvUna una hreceiver =>
      obtain ⟨hle, hlt, _⟩ := SendSide.receiveUna_sendAckId hrange una.toNat_lt
      refine hasks.mono ((le_max_left _ _).trans hle) hlt (le_refl _) hsendId rfl
        (.inr ⟨?_, ?_, ?_⟩) fun _ => rfl
      · rw [hreceiver]
        rintro _ _ ⟨⟩
      · rintro _ _ ⟨⟩
      · rintro _ _ ⟨⟩
  | ackRecv hreceiver hthread =>
      rw [List.append_nil]
      exact hasks.ackRecv hreceiver hthread
  | fastResend hreceiver hlt => exact hasks.fastResend hreceiver hlt
  | @fastResent resendId maxAckId hreceiver =>
      rw [List.append_nil]
      obtain ⟨_, _, _, _, hasking, honce⟩ := hasks
      obtain ⟨habove, hle, hassigned⟩ := hasking _ _ hreceiver
      refine ⟨hrange, hsendId, hassigned.trans (le_max_right _ _), by rintro _ _ ⟨⟩,
        by rintro _ _ ⟨⟩, fun id => ?_⟩
      have hbelow : socket.askedBelow = resendId := by simp [askedBelow, hreceiver]
      have := honce id
      rw [hbelow] at this
      show _ ≤ if id < maxAckId + 1 then 1 else 0
      split at this <;> split <;> omega

theorem count_fastResent_ofRecv (hrecv : ∀ event ∈ events, event.ofRecv = true) (id : Nat) :
    events.count (.fastResent id) = 0 := by
  refine List.count_eq_zero.mpr fun hmem => ?_
  cases hrecv _ hmem

theorem AsksOnce.step (hasks : socket.AsksOnce trace)
    (htransition : socket.Transition config crypto action next events) :
    next.AsksOnce (trace ++ events) := by
  have hrange := hasks.sendAckId_lt
  have hsendId := hasks.sendId_lt
  cases htransition with
  | pushed | refused | close | segment | unpacked =>
      exact hasks.mono (le_refl _) hrange (le_refl _) hsendId rfl (.inl rfl) fun _ => by simp
  | ackSender hsending =>
      refine hasks.mono (le_refl _) hrange (le_refl _) hsendId rfl (.inl rfl) fun id => ?_
      cases hsending <;> simp
  | recvPackage hstep =>
      have hmove : socket.recv.Transition crypto (.recvPackage _) _ _ :=
        RecvSide.step_transition hstep
      exact hasks.mono (le_refl _) hrange (le_refl _) hsendId rfl (.inl rfl)
        (count_fastResent_ofRecv hmove.ofRecv)
  | assigned _ _ hid =>
      obtain ⟨hnow, hcounter, hcount⟩ :=
        (SendSide.Transition.assign hid).resends_frame (.inl ⟨_, rfl⟩)
      exact hasks.mono hcounter.ge (hcounter ▸ hrange) (Nat.le_succ _) hid hnow (.inl rfl) hcount
  | sender hstep =>
      have hmove := SendSide.senderStep_transition hstep
      obtain ⟨hnow, hcounter, hcount⟩ := hmove.resends_frame (.inr (.inl ⟨_, _, rfl⟩))
      have hsame := (hmove.assigned_frame (by rintro _ ⟨⟩)).1
      exact hasks.mono hcounter.ge (hcounter ▸ hrange) hsame.ge (hsame ▸ hsendId) hnow (.inl rfl)
        hcount
  | ackHandler hstep =>
      have hmove := SendSide.ackHandlerStep_transition hstep
      obtain ⟨hnow, hcounter, hcount⟩ := hmove.resends_frame (.inr (.inr ⟨_, _, rfl⟩))
      have hsame := (hmove.assigned_frame (by rintro _ ⟨⟩)).1
      exact hasks.mono hcounter.ge (hcounter ▸ hrange) hsame.ge (hsame ▸ hsendId) hnow (.inl rfl)
        hcount
  | @data _ _ _ hreceiver hcaller =>
      refine hasks.mono (le_refl _) hrange (le_refl _) hsendId rfl (.inr ⟨?_, ?_, ?_⟩) ?_
      · rw [hreceiver]
        rintro _ _ ⟨⟩
      · rintro _ _ ⟨⟩
      · rintro _ _ ⟨⟩
      · exact count_fastResent_ofRecv (@RecvSide.Transition.data crypto _ _ _ _ hcaller).ofRecv
  | @ack una _ _ hreceiver =>
      refine hasks.mono (le_refl _) hrange (le_refl _) hsendId rfl (.inr ⟨?_, ?_, ?_⟩) ?_
      · rw [hreceiver]
        rintro _ _ ⟨⟩
      · rintro _ _ ⟨⟩
      · rintro _ _ ⟨⟩
        -- an illegal `una` has been set to 0
        split
        · exact Nat.zero_le _
        next hle => exact Nat.le_of_not_lt hle
      · intro id
        simp
  | connectionClose hreceiver =>
      refine hasks.mono (le_refl _) hrange (le_refl _) hsendId rfl (.inr ⟨?_, ?_, ?_⟩) ?_
      · rw [hreceiver]
        rintro _ _ ⟨⟩
      · rintro _ _ ⟨⟩
      · rintro _ _ ⟨⟩
      · intro id
        simp
  | receiver hreceiving => exact hasks.receiving hreceiving

theorem reach_asksOnce {allowed : Machine.StepCondition ReliableSocket Action Event}
    (hreach : (socketMachine config crypto).Reach allowed (init memory) socket trace) :
    socket.AsksOnce trace := by
  refine hreach.invariant AsksOnce ⟨Nat.two_pow_pos 64, ?_, Nat.zero_le _, by rintro _ _ ⟨⟩,
    by rintro _ _ ⟨⟩, fun id => Nat.zero_le _⟩ ?_
  · show 1 + 1 < 2 ^ 63
    decide
  · intro socket trace action next events hasks hstep _
    exact hasks.step (step_transition hstep)

end ReliableSocket

end Sharpvpn
