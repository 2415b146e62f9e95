import Sharpvpn.Foundation.SlotTable
import Sharpvpn.Rudp.Handshake

/-!
# The search for a free port

`accept_connection` binds the new socket to the first free port of a hundred, counting on
from where the last search ended. The loop has no other exit than a port it can bind.
-/

namespace Sharpvpn

open Foundation

variable {taken : Nat → Bool} {tries freePortNow port next : Nat}

/-- One of the hundred ports. -/
def InHundred (port : Nat) : Prop := freePortStart ≤ port ∧ port < freePortStart + 100

instance (port : Nat) : Decidable (InHundred port) :=
  inferInstanceAs (Decidable (_ ∧ _))

/-- The ports the loop tries, in order. -/
def triedPorts (taken : Nat → Bool) : (tries : Nat) → (freePortNow : Nat) → List Nat
  | 0, _ => []
  | tries + 1, freePortNow =>
      (freePortNow + freePortStart) ::
        if taken (freePortNow + freePortStart) then
          triedPorts taken tries ((freePortNow + 1) % 100)
        else []

/-- The loop ends, on a free port, and tries no port twice on the way to it. -/
structure PortSearchEnds (taken : Nat → Bool) (freePortNow : Nat) : Prop where
  ends : ∃ tries, (bindFreePort taken tries freePortNow).isSome
  free : ∀ tries port next, bindFreePort taken tries freePortNow = some (port, next) →
    taken port = false ∧ InHundred port
  once : ∀ tries port next, bindFreePort taken tries freePortNow = some (port, next) →
    (triedPorts taken tries freePortNow).Nodup ∧
      ∀ tried ∈ triedPorts taken tries freePortNow, InHundred tried

/-- The loop counts through the hundred until it meets the port it binds. -/
theorem triedPorts_eq (hnow : freePortNow < 100)
    (hbound : bindFreePort taken tries freePortNow = some (port, next)) :
    ∃ count, port = (freePortNow + count) % 100 + freePortStart ∧
      triedPorts taken tries freePortNow =
        (List.range (count + 1)).map (fun i => (freePortNow + i) % 100 + freePortStart) ∧
      ∀ i < count, taken ((freePortNow + i) % 100 + freePortStart) = true := by
  induction tries generalizing freePortNow with
  | zero => cases hbound
  | succ tries ih =>
      unfold bindFreePort at hbound
      unfold triedPorts
      split at hbound
      next htaken =>
        obtain ⟨count, hport, htried, hbusy⟩ := ih (Nat.mod_lt _ (by decide)) hbound
        have hshift : ∀ i, ((freePortNow + 1) % 100 + i) % 100 = (freePortNow + (i + 1)) % 100 := by
          intro i
          rw [Nat.mod_add_mod, Nat.add_assoc, Nat.add_comm 1]
        refine ⟨count + 1, ?_, ?_, ?_⟩
        · rw [hport, hshift]
        · rw [if_pos htaken, htried]
          conv_rhs => rw [List.range_succ_eq_map, List.map_cons, List.map_map]
          congr 1
          · rw [Nat.add_zero, Nat.mod_eq_of_lt hnow]
          · apply List.map_congr_left
            intro i _
            exact congrArg (· + freePortStart) (hshift i)
        · intro i hi
          cases i with
          | zero =>
              rw [Nat.add_zero, Nat.mod_eq_of_lt hnow]
              exact htaken
          | succ i =>
              rw [← hshift]
              exact hbusy i (by omega)
      next hfree =>
        simp only [Option.some.injEq, Prod.mk.injEq] at hbound
        obtain ⟨rfl, -⟩ := hbound
        refine ⟨0, ?_, ?_, ?_⟩
        · rw [Nat.add_zero, Nat.mod_eq_of_lt hnow]
        · simp [hfree, Nat.mod_eq_of_lt hnow]
        · intro i hi
          omega

/-- A full turn without success would have met the port that is bound in the end. -/
theorem nodup_triedPorts (hnow : freePortNow < 100)
    (hbound : bindFreePort taken tries freePortNow = some (port, next)) :
    (triedPorts taken tries freePortNow).Nodup := by
  obtain ⟨count, hport, htried, hbusy⟩ := triedPorts_eq hnow hbound
  have hfree := (of_bindFreePort hnow hbound).1
  have hcount : count < 100 := by
    by_contra hturn
    have hagain := hbusy (count - 100) (by omega)
    have hsame : (freePortNow + (count - 100)) % 100 = (freePortNow + count) % 100 := by omega
    rw [hsame, ← hport, hfree] at hagain
    cases hagain
  rw [htried]
  have hcycle : ((List.range (count + 1)).map fun i => (freePortNow + i) % 100).Nodup :=
    nodup_cycle freePortNow hcount
  have hmap := hcycle.map (add_left_injective freePortStart)
  rwa [List.map_map] at hmap

theorem inHundred_of_tried (hnow : freePortNow < 100)
    (hbound : bindFreePort taken tries freePortNow = some (port, next)) {tried : Nat}
    (htried : tried ∈ triedPorts taken tries freePortNow) : InHundred tried := by
  obtain ⟨count, -, heq, -⟩ := triedPorts_eq hnow hbound
  rw [heq] at htried
  obtain ⟨i, -, rfl⟩ := List.mem_map.mp htried
  have hlt : (freePortNow + i) % 100 < 100 := Nat.mod_lt _ (by decide)
  exact ⟨Nat.le_add_left _ _, by omega⟩

/-- With all hundred ports taken no number of tries is enough. -/
theorem bindFreePort_eq_none (hnow : freePortNow < 100)
    (hbusy : ∀ port, InHundred port → taken port = true) (tries : Nat) :
    bindFreePort taken tries freePortNow = none := by
  by_contra hsome
  obtain ⟨⟨port, next⟩, hbound⟩ := Option.ne_none_iff_exists'.mp hsome
  obtain ⟨hfree, hlow, hhigh, -⟩ := of_bindFreePort hnow hbound
  rw [hbusy port ⟨hlow, hhigh⟩] at hfree
  cases hfree

/-- The search does what is expected of it just when one of the hundred ports is free. -/
theorem portSearchEnds_iff (hnow : freePortNow < 100) :
    PortSearchEnds taken freePortNow ↔ ∃ port, InHundred port ∧ taken port = false := by
  constructor
  · rintro ⟨⟨tries, hends⟩, hfree, -⟩
    obtain ⟨⟨port, next⟩, hbound⟩ := Option.isSome_iff_exists.mp hends
    obtain ⟨hport, hhundred⟩ := hfree tries port next hbound
    exact ⟨port, hhundred, hport⟩
  · rintro ⟨port, ⟨hlow, hhigh⟩, hfree⟩
    refine ⟨⟨100, bindFreePort_isSome hnow hlow hhigh hfree⟩, ?_, ?_⟩
    · intro tries port next hbound
      obtain ⟨hport, hlow, hhigh, -⟩ := of_bindFreePort hnow hbound
      exact ⟨hport, hlow, hhigh⟩
    · intro tries port next hbound
      exact ⟨nodup_triedPorts hnow hbound, fun tried htried =>
        inHundred_of_tried hnow hbound htried⟩

theorem portSearchEnds_iff_fresh :
    PortSearchEnds (fun port => port == freePortStart) 7 ↔
      ∃ port, InHundred port ∧ (port == freePortStart) = false :=
  portSearchEnds_iff (by decide)

/-- A hundred sockets are enough to hang the server. -/
theorem not_portSearchEnds_busy : ¬PortSearchEnds (fun port => decide (InHundred port)) 0 := by
  rintro ⟨⟨tries, hends⟩, -, -⟩
  rw [bindFreePort_eq_none (by decide) (fun port hport => decide_eq_true hport)] at hends
  cases hends

/-- A request that arrives is answered just when one of the hundred ports is free. -/
theorem Handshake.accept_isSome_iff {speeds : Speeds} {state : Handshake} {peer : SockaddrIn}
    {downloadSpeed : Int} {foreign : List Nat} {trace : List Accepted} {localPort : Nat}
    {allowed : Machine.StepCondition Handshake HandshakeAction Accepted}
    (hreach : (handshakeMachine speeds).Reach allowed { localPort } state trace)
    (hrequest : (peer, downloadSpeed) ∈ state.queue) :
    (state.step speeds (.accept peer downloadSpeed foreign)).isSome ↔
      ∃ port, InHundred port ∧ state.taken foreign port = false := by
  have hnow := (reach_ported hreach).now_lt
  simp only [step, if_pos hrequest, acceptConnection, Option.isSome_map]
  show (bindFreePort (state.taken foreign) 100 state.freePortNow).isSome ↔ _
  constructor
  · intro hsome
    by_contra hbusy
    push Not at hbusy
    have htaken : ∀ port, InHundred port → state.taken foreign port = true :=
      fun port hport => by simpa using hbusy port hport
    rw [bindFreePort_eq_none hnow htaken] at hsome
    cases hsome
  · rintro ⟨port, ⟨hlow, hhigh⟩, hfree⟩
    exact bindFreePort_isSome hnow hlow hhigh hfree

end Sharpvpn
