import Sharpvpn.Crypto
import Sharpvpn.Foundation.RingBuffer

/-!
# Packages and datagrams

The messages two endpoints exchange, and the queue of ids waiting to be
acknowledged. Header fields are the 64-bit words of the source; the counters of a
socket are natural numbers, and additions to them wrap around at `2 ^ 64` where
the source's do. Pings only measure the round trip and are left out with the
clock.
-/

namespace Sharpvpn

open Foundation

/-- `MAX_MTU`, the size of every datagram buffer. -/
def maxMtu : Int := 1600

/-- `MAX_SEGMENT`: what the IP, UDP, package and encryption headers leave. -/
def maxSegment (mtu : Int) : Int := mtu - 20 - 8 - 4 - 16 - cryptoOverhead

/-- `TUNNEL_MTU` -/
def tunnelMtu (mtu : Int) : Int := maxSegment mtu - 4 - 4

/-- The configuration of an endpoint. The mtu is at most `MAX_MTU`: beyond it
packages overrun the buffers they are built in and received in. -/
structure Config where
  mtu : Int
  mtu_le : mtu ≤ maxMtu

/-- The mtu of the default arguments. -/
def Config.standard : Config := ⟨1496, by decide⟩

/-- Capacity of every ring of a socket. -/
abbrev ringCapacity : Nat := 100000

/-- The successor of a `uint64_t`. -/
def succ64 (value : Nat) : Nat := (value + 1) % 2 ^ 64

/-- The difference of two `uint64_t`. -/
def sub64 (left right : Nat) : Nat := (left + 2 ^ 64 - right) % 2 ^ 64

theorem succ64_lt (value : Nat) : succ64 value < 2 ^ 64 := Nat.mod_lt _ (by decide)

theorem succ64_eq {value : Nat} (hvalue : value + 1 < 2 ^ 64) : succ64 value = value + 1 :=
  Nat.mod_eq_of_lt hvalue

theorem succ64_iterate (count value : Nat) :
    succ64^[count + 1] value = (value + (count + 1)) % 2 ^ 64 := by
  induction count with
  | zero => rfl
  | succ count ih =>
      rw [Function.iterate_succ_apply', ih]
      simp only [succ64, Nat.mod_add_mod, Nat.add_assoc]

/-- Counting up from a value meets no value twice in the span of a ring. -/
theorem succ64_iterate_inj (value : Nat) : ∀ i ≤ ringCapacity, ∀ j ≤ ringCapacity,
    succ64^[i + 1] value = succ64^[j + 1] value → i = j := by
  intro i hi j hj heq
  unfold ringCapacity at hi hj
  rw [succ64_iterate, succ64_iterate] at heq
  rcases Nat.le_total i j with hle | hle
  · have := eq_of_mod_eq heq (by omega) (by omega)
    omega
  · have := eq_of_mod_eq heq.symm (by omega) (by omega)
    omega

/-- A Data package. Its bytes after the header never change once it exists; the
header word `una` is overwritten on every send. -/
structure PackageData where
  packageId : Nat
  payload : Bytes
  deriving DecidableEq, Repr

inductive Datagram
  | data (packageId una : UInt64) (payload : Bytes)
  | ack (una sendFrom : UInt64) (ackList : List UInt64)
  | connectionClose
  deriving DecidableEq, Repr

/-- `AckQueue`: ids received and not yet acknowledged. A copy shares the array. -/
structure AckQueue where
  arr : Nat → UInt64
  cursor : Cursor := {}

namespace AckQueue

def push (queue : AckQueue) (packageId : UInt64) : AckQueue where
  arr := Function.update queue.arr queue.cursor.stop packageId
  cursor := queue.cursor.push ringCapacity

def rebase (queue : AckQueue) : AckQueue :=
  { queue with cursor := queue.cursor.rebase }

/-- The loop of `PackageAck::load`, over the entries left in the queue and the
room left in the package. Ids up to `una` are consumed without being listed. -/
def loadLoop (arr : Nat → UInt64) (una : UInt64) :
    (entries room : Nat) → Cursor → List UInt64 × Cursor
  | 0, _, list => ([], list)
  | _ + 1, 0, list => ([], list)
  | entries + 1, room + 1, list =>
      if una < arr list.start then
        let rest := loadLoop arr una entries room (list.pop ringCapacity)
        (arr list.start :: rest.1, rest.2)
      else loadLoop arr una entries (room + 1) (list.pop ringCapacity)

/-- `PackageAck::load`: the ids listed, and the queue after it. -/
def load (arr : Nat → UInt64) (maxAck : Nat) (una : UInt64) (list : Cursor) :
    List UInt64 × Cursor :=
  loadLoop arr una list.len maxAck list

/-- A cursor over entries that have been written, `total` of them since the start. -/
def Addresses (total : Nat) (cursor : Cursor) : Prop :=
  ∃ first, cursor.start = first % ringCapacity ∧ first + cursor.len ≤ total

/-- Every entry written so far was good, and the queue addresses the latest. An
overrun of the ring only replaces good entries by good ones. -/
structure Wrote (queue : AckQueue) (good : UInt64 → Prop) (total : Nat) : Prop where
  written : ∀ i < total, good (queue.arr (i % ringCapacity))
  live : Addresses total queue.cursor
  stop_eq : queue.cursor.stop = total % ringCapacity

theorem Wrote.mono {queue : AckQueue} {good better : UInt64 → Prop} {total : Nat}
    (hwrote : queue.Wrote good total) (hbetter : ∀ id, good id → better id) :
    queue.Wrote better total :=
  ⟨fun i hi => hbetter _ (hwrote.written i hi), hwrote.live, hwrote.stop_eq⟩

theorem Addresses.mono {total later : Nat} {cursor : Cursor} (haddresses : Addresses total cursor)
    (hle : total ≤ later) : Addresses later cursor := by
  obtain ⟨first, hstart, hlen⟩ := haddresses
  exact ⟨first, hstart, hlen.trans hle⟩

theorem Addresses.pop {total : Nat} {cursor : Cursor} (haddresses : Addresses total cursor)
    (hlen : 0 < cursor.len) : Addresses total (cursor.pop ringCapacity) := by
  obtain ⟨first, hstart, hle⟩ := haddresses
  refine ⟨first + 1, ?_, ?_⟩
  · simp only [Cursor.pop, hstart, Nat.mod_add_mod]
  · simp only [Cursor.pop]
    omega

theorem Wrote.push {queue : AckQueue} {good : UInt64 → Prop} {total : Nat} {packageId : UInt64}
    (hwrote : queue.Wrote good total) (hgood : good packageId) :
    (queue.push packageId).Wrote good (total + 1) where
  written := by
    intro i hi
    by_cases hcell : i % ringCapacity = queue.cursor.stop
    · simpa [AckQueue.push, hcell] using hgood
    · have hold : i < total := by
        rcases Nat.lt_succ_iff_lt_or_eq.mp hi with hlt | rfl
        · exact hlt
        · exact absurd hwrote.stop_eq.symm hcell
      simpa [AckQueue.push, Function.update_of_ne hcell] using hwrote.written i hold
  live := by
    obtain ⟨first, hstart, hle⟩ := hwrote.live
    refine ⟨first, hstart, ?_⟩
    simp only [AckQueue.push, Cursor.push]
    omega
  stop_eq := by
    simp only [AckQueue.push, Cursor.push, hwrote.stop_eq, Nat.mod_add_mod]

theorem Wrote.rebase {queue : AckQueue} {good : UInt64 → Prop} {total : Nat}
    (hwrote : queue.Wrote good total) : queue.rebase.Wrote good total where
  written := hwrote.written
  live := ⟨total, hwrote.stop_eq, le_refl _⟩
  stop_eq := hwrote.stop_eq

/-- What an Ack lists is good, and what is left of the list still addresses written
entries. -/
theorem loadLoop_good {arr : Nat → UInt64} {una : UInt64} {good : UInt64 → Prop} {total : Nat}
    (hwritten : ∀ i < total, good (arr (i % ringCapacity))) (entries room : Nat) (list : Cursor)
    (hentries : entries ≤ list.len) (haddresses : Addresses total list) :
    (∀ id ∈ (loadLoop arr una entries room list).1, good id) ∧
      Addresses total (loadLoop arr una entries room list).2 := by
  induction entries generalizing room list with
  | zero => exact ⟨by simp [loadLoop], haddresses⟩
  | succ entries ih =>
      cases room with
      | zero => exact ⟨by simp [loadLoop], haddresses⟩
      | succ room =>
          have hlen : entries ≤ (list.pop ringCapacity).len := by
            simp only [Cursor.pop]
            omega
          have hpop := haddresses.pop (by omega)
          unfold loadLoop
          split
          next =>
            obtain ⟨hlisted, hrest⟩ := ih room _ hlen hpop
            refine ⟨fun id hid => ?_, hrest⟩
            rcases List.mem_cons.mp hid with rfl | htail
            · obtain ⟨first, hstart, hle⟩ := haddresses
              rw [hstart]
              exact hwritten first (by omega)
            · exact hlisted id htail
          next => exact ih (room + 1) _ hlen hpop

end AckQueue

/-- What can be observed of a socket: the calls and returns of its interface, the
datagrams it sends and takes, and the fates of packages inside it. -/
inductive Event
  /-- `send_package` put a segment on the segment list. -/
  | pushed (segment : Bytes)
  /-- The segment thread took a segment off its list. -/
  | unpacked (segment : Bytes)
  /-- The segment thread numbered a package and handed it to the sender. -/
  | assigned (package : PackageData)
  /-- The sender took a package for transmission. -/
  | popped (packageId : Nat)
  | sent (datagram : Datagram)
  | arrived (datagram : Datagram)
  /-- The receiver put a package into `recv_pool`. -/
  | stored (package : PackageData)
  /-- `recv_package` took a package from `recv_pool`. -/
  | taken (package : PackageData)
  /-- `recv_package` returned; the empty segment stands for the result 0. -/
  | returned (segment : Bytes)
  /-- The ack handler finished a package as acknowledged. -/
  | settled (packageId : Nat)
  /-- The ack handler gave a package up after too many sends. -/
  | dropped (packageId : Nat)
  /-- The ack handler asked for a resend after a timeout. -/
  | timedOut (packageId : Nat)
  /-- The receiver asked for a resend because a later package was acknowledged. -/
  | fastResent (packageId : Nat)
  /-- `send_pool` deleted a package. -/
  | freed (packageId : Nat)
  deriving DecidableEq, Repr

end Sharpvpn
