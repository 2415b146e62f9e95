import Sharpvpn.Rudp.Agreement
import Sharpvpn.Rudp.Arrivals

/-!
# Where acknowledgements come from

An id in `ack_recv_pool` was listed in an Ack. The test for illegal ids lets an Ack list the
next id to assign, and the constructor of the pool leaves in it what the memory holds.
-/

namespace Sharpvpn

open Foundation

namespace Event

/-- The segment thread assigned the id. -/
def assigns (id : Nat) : Event → Bool
  | .assigned package => package.packageId == id
  | _ => false

/-- An Ack was received that lists the id. -/
def lists (id : Nat) : Event → Bool
  | .arrived (.ack _ _ ackList) => ackList.any fun word => word.toNat == id
  | _ => false

end Event

/-- After the id was assigned, an Ack was received that lists it. -/
def AckedAfterAssigned (trace : List Event) (id : Nat) : Prop :=
  ∃ event ∈ trace.dropWhile fun event => !event.assigns id, event.lists id = true

theorem AckedAfterAssigned.append {trace : List Event} {id : Nat}
    (hacked : AckedAfterAssigned trace id) (events : List Event) :
    AckedAfterAssigned (trace ++ events) id := by
  obtain ⟨event, hevent, hlists⟩ := hacked
  refine ⟨event, ?_, hlists⟩
  rw [List.dropWhile_append, if_neg]
  · exact List.mem_append_left _ hevent
  · rw [List.isEmpty_iff]
    exact List.ne_nil_of_mem hevent

/-- The datagram received last lists an id that was assigned before it. -/
theorem ackedAfterAssigned_of_last {trace : List Event} {ackList : List UInt64} {word : UInt64}
    (hlast : ReliableSocket.LastAck trace ackList) (hword : word ∈ ackList)
    (hassigned : (upToArrival trace).any (Event.assigns word.toNat) = true) :
    AckedAfterAssigned trace word.toNat := by
  obtain ⟨una, sendFrom, hlast⟩ := hlast
  obtain ⟨before, hbefore⟩ := List.getLast?_eq_some_iff.mp hlast
  obtain ⟨event, hevent, hassigns⟩ := List.any_eq_true.mp hassigned
  have hearlier : event ∈ before := by
    rw [hbefore] at hevent
    rcases List.mem_append.mp hevent with hearlier | hsame
    · exact hearlier
    · rw [List.mem_singleton.mp hsame] at hassigns
      cases hassigns
  have hacked : AckedAfterAssigned (upToArrival trace) word.toNat := by
    refine ⟨.arrived (.ack una sendFrom ackList), ?_, ?_⟩
    · rw [hbefore, List.dropWhile_append, if_neg]
      · exact List.mem_append_right _ List.mem_cons_self
      · rw [List.isEmpty_iff, List.dropWhile_eq_nil_iff]
        exact fun hnone => by simpa [hassigns] using hnone event hearlier
    · exact List.any_eq_true.mpr ⟨word, hword, by simp⟩
  obtain ⟨rest, hrest⟩ := List.rdropWhile_prefix (fun event : Event => !event.isArrived) trace
  rw [← hrest]
  exact hacked.append rest

namespace ReliableSocket

variable {config : Config} {crypto : SharpCrypto} {memory : Memory}
  {socket next : ReliableSocket} {action : Action} {trace events : List Event}

/-- The ids that the Ack branch takes had been assigned when the Ack arrived. -/
def TakesAssigned (socket : ReliableSocket) (trace : List Event) (action : Action) : Prop :=
  socket.Acknowledges (fun _ ackList => ∀ word ∈ ackList,
    socket.send.acceptsAck word.toNat = true →
      (upToArrival trace).any (Event.assigns word.toNat) = true) action

instance (socket : ReliableSocket) (trace : List Event) (action : Action) :
    Decidable (socket.TakesAssigned trace action) :=
  @instDecidableAcknowledges socket _ (fun _ ackList => List.decidableBAll _ ackList) action

/-- Only an Ack adds to the set. -/
theorem pool_step (hprocesses : socket.ProcessesLast trace)
    (hpool : ∀ id, socket.send.ackRecvPool.find id ≠ 0 → AckedAfterAssigned trace id)
    (htransition : socket.Transition config crypto action next events)
    (htakes : socket.TakesAssigned trace action) :
    ∀ id, next.send.ackRecvPool.find id ≠ 0 → AckedAfterAssigned (trace ++ events) id := by
  have hold : ∀ id, socket.send.ackRecvPool.find id ≠ 0 →
      AckedAfterAssigned (trace ++ events) id := fun id hfind => (hpool id hfind).append events
  cases htransition.halves with
  | still hsend | recv _ _ hsend | closed _ _ hsend =>
      rw [hsend]
      exact hold
  | send hmoves hmove =>
      rcases (SendSide.step_transition hmove).acks_frame with
        ⟨-, hsame⟩ | ⟨una, rfl, hnext⟩ | ⟨una, ackList, rfl, hnext⟩
      · rw [hsame]
        exact hold
      · rw [hnext]
        exact hold
      · cases hmoves with
        | ackRecv hreceiver =>
            intro id hfind
            rw [hnext, SendSide.receiveAck_ackRecvPool] at hfind
            rcases SendSide.of_find_insertAcks hfind with hbefore | ⟨hmem, haccepted⟩
            · exact hold id hbefore
            · obtain ⟨word, hword, rfl⟩ := List.mem_map.mp hmem
              simp only [TakesAssigned, Acknowledges, hreceiver] at htakes
              exact (ackedAfterAssigned_of_last (hprocesses.listed una ackList hreceiver) hword
                (htakes word hword haccepted)).append events

/-- In every run in which Acks are taken for assigned ids only, from memory that holds no id
in its own slot, only real acknowledgements count. -/
theorem acks_real (hmemory : memory.NoStaleAck)
    (hreach : (socketMachine config crypto).Reach
      (fun socket trace action _ => socket.TakesAssigned trace action) (init memory) socket
      trace) :
    (∀ id, socket.send.ackRecvPool.find id ≠ 0 → socket.send.sendAckId < id →
      id < socket.send.sendId → AckedAfterAssigned trace id) ∧
    ∀ id, 1 ≤ id → id ≤ socket.send.sendAckId → Claimed trace id := by
  have hpool : ∀ id, socket.send.ackRecvPool.find id ≠ 0 → AckedAfterAssigned trace id := by
    refine (hreach.invariant (fun socket trace => socket.ProcessesLast trace ∧
      ∀ id, socket.send.ackRecvPool.find id ≠ 0 → AckedAfterAssigned trace id) ⟨?_, ?_⟩ ?_).2
    · exact .idle (by rintro _ _ ⟨⟩) (by rintro _ _ ⟨⟩)
    · exact fun id hfind => absurd (hmemory.find id) hfind
    · rintro socket trace action next events ⟨hprocesses, hpool⟩ hstep htakes
      have htransition := step_transition hstep
      exact ⟨hprocesses.step htransition, pool_step hprocesses hpool htransition htakes⟩
  exact ⟨fun id hfind _ _ => hpool id hfind, fun id hid hle =>
    (acknowledged_claimed hmemory hreach.unrestricted).acked id hid (.inl hle)⟩

/-- An Ack lists package 2 after it was assigned. -/
theorem acks_real_second : ∃ socket trace,
    (socketMachine .standard .marking).Reach
      (fun socket trace action _ => socket.TakesAssigned trace action) (init .zeroed) socket
      trace ∧
    socket.send.ackRecvPool.find 2 ≠ 0 ∧ AckedAfterAssigned trace 2 := by
  obtain ⟨socket, trace, hreach, hview⟩ := Machine.reach_of_exec
    (fun (socket : ReliableSocket) (_ : List Event) =>
      (socket.send.ackRecvPool.find 2, socket.send.sendAckId, socket.send.sendId))
    (show ((socketMachine .standard .marking).exec
      (fun socket trace action _ => socket.TakesAssigned trace action) (init .zeroed) []
      ((List.replicate 2 (.sendPackage [7] :: List.replicate 7 (.segment .zero))).flatten ++
        [.receiver, .receive (.ack 0 0 [2]), .receiver])).map _ = some (2, 0, 3) by decide)
  simp only [Prod.mk.injEq] at hview
  exact ⟨socket, trace, hreach, by omega, (acks_real Memory.zeroed_noStaleAck hreach).1 2
    (by omega) (by omega) (by omega)⟩

/-- An Ack lists package 2 before it is assigned; and a word left in the memory counts as an
acknowledgement of package 1. -/
theorem unreal_acks_counted :
    (∃ socket trace,
      (socketMachine .standard .marking).Reach Machine.always (init .zeroed) socket trace ∧
      socket.send.ackRecvPool.find 2 ≠ 0 ∧ socket.send.sendAckId < 2 ∧ 2 < socket.send.sendId ∧
      ¬AckedAfterAssigned trace 2) ∧
    ∃ memory socket trace,
      (socketMachine .standard .marking).Reach Machine.always (init memory) socket trace ∧
      1 ≤ socket.send.sendAckId ∧ ¬Claimed trace 1 := by
  constructor
  · obtain ⟨socket, trace, hreach, hview⟩ := Machine.reach_of_exec
      (fun (socket : ReliableSocket) (trace : List Event) =>
        (socket.send.ackRecvPool.find 2, socket.send.sendAckId, socket.send.sendId,
          (trace.dropWhile fun event => !event.assigns 2).any (Event.lists 2)))
      (show ((socketMachine .standard .marking).exec Machine.always (init .zeroed) []
        (.sendPackage [7] :: List.replicate 7 (.segment .zero) ++
          [.receiver, .receive (.ack 0 0 [2]), .receiver] ++
          .sendPackage [7] :: List.replicate 7 (.segment .zero))).map _ =
            some (2, 0, 3, false) by decide)
    simp only [Prod.mk.injEq] at hview
    obtain ⟨hfind, hacked, hassigned, hnone⟩ := hview
    refine ⟨socket, trace, hreach, by omega, by omega, by omega, fun hafter => ?_⟩
    rw [List.any_eq_true.mpr hafter] at hnone
    cases hnone
  · obtain ⟨socket, trace, hreach, hview⟩ := Machine.reach_of_exec
      (fun (socket : ReliableSocket) (trace : List Event) => (socket.send.sendAckId, trace))
      (show ((socketMachine .standard .marking).exec Machine.always
        (init { Memory.zeroed with ackRecvPool := fun slot => if slot = 1 then 1 else 0 }) []
        [.receiver, .receive (.data 1 0 []), .receiver, .receiver]).map _ =
          some (1, [.arrived (.data 1 0 []), .stored ⟨1, []⟩]) by decide)
    simp only [Prod.mk.injEq] at hview
    obtain ⟨hacked, rfl⟩ := hview
    refine ⟨_, socket, _, hreach, hacked.ge, ?_⟩
    rintro ⟨datagram, harrived, hclaims⟩
    obtain rfl : datagram = .data 1 0 [] := by simpa using harrived
    exact absurd (show 1 ≤ 0 from hclaims) (by decide)

end ReliableSocket

end Sharpvpn
