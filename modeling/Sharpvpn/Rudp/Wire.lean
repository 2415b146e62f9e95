import Mathlib.Tactic.IntervalCases
import Sharpvpn.Foundation.FieldReader
import Sharpvpn.Rudp.Handshake
import Sharpvpn.Rudp.ReliableSocket

/-!
# Datagrams as bytes

The receiving code takes a buffer for a package of the type in its first word, however many
bytes have arrived. What it reads behind them is left over from before. Where it sends its
answers is written by `recvfrom`, before the code looks at anything.
-/

namespace Sharpvpn

open Foundation

inductive PackageType
  | connectionCreate
  | connectionCreateR
  | connectionClose
  | connectionCloseR
  | ping
  | data
  | ack
  deriving DecidableEq, Repr

/-- `none` for the other values that the word of the type may have. -/
def PackageType.ofWord : Nat → Option PackageType
  | 0 => some .connectionCreate
  | 1 => some .connectionCreateR
  | 2 => some .connectionClose
  | 3 => some .connectionCloseR
  | 4 => some .ping
  | 5 => some .data
  | 6 => some .ack
  | _ => none

/-- The buffer of `recvfrom`, and the copy of `PackageData`. -/
inductive Region
  | buf
  | copy
  deriving DecidableEq, Repr

/-- What the receiver thread acts on. -/
inductive Message
  | ping (pingBack : Bool)
  | data (packageId una : UInt64) (payload : Bytes)
  | ack (una sendFrom : UInt64) (ackList : List UInt64)
  | connectionClose
  deriving DecidableEq, Repr

def littleEndian (bytes : Bytes) : Nat := bytes.foldr (fun byte rest => byte.toNat + 256 * rest) 0

section Readers

open FieldReader

/-- A `uint64_t` -/
def readWord (region : Region) (offset : Nat) : FieldReader Region UInt64 :=
  read ⟨region, offset, 8⟩ fun bytes => UInt64.ofNat (littleEndian bytes)

/-- An `int` -/
def readInt (offset : Nat) : FieldReader Region Int :=
  read ⟨.buf, offset, 4⟩ fun bytes => (littleEndian bytes : Int).bmod 4294967296

def parsePackageType : FieldReader Region (Option PackageType) :=
  read ⟨.buf, 0, 4⟩ fun bytes => PackageType.ofWord (littleEndian bytes)

/-- The loop over `ack_list`. -/
def readAckList : (entries i : Nat) → FieldReader Region (List UInt64)
  | 0, _ => done []
  | entries + 1, i =>
      (readWord .buf (28 + 8 * i)).bind fun ackId =>
        (readAckList entries (i + 1)).bind fun rest => done (ackId :: rest)

/-- The receiver thread, when `recvfrom` has returned `r`. `none`: it drops the datagram. -/
def receiverReader (r : Int) : FieldReader Region (Option Message) :=
  if r > 0 then
    parsePackageType.bind fun type =>
      match type with
      | some .ping =>
          (read ⟨.buf, 4, 1⟩ fun bytes => littleEndian bytes != 0).bind fun pingBack =>
            done (some (.ping pingBack))
      | some .data =>
          (readWord .copy 4).bind fun packageId =>
            (readWord .copy 12).bind fun una =>
              -- `decrypt` gets `data_len` bytes, and opens what follows the nonce: below 0 the
              -- length wraps around to nearly `2 ^ 64`.
              (read ⟨.copy, 20, r - 20⟩ id).bind fun payload =>
                (read ⟨.copy, 44, r - 20 - nonceBytes⟩ fun _ => ()).bind fun _ =>
                  done (some (.data packageId una payload))
      | some .ack =>
          (readWord .buf 4).bind fun una =>
            (readWord .buf 12).bind fun sendFrom =>
              (readWord .buf 20).bind fun ackCount =>
                (readAckList ackCount.toNat 0).bind fun ackList =>
                  done (some (.ack una sendFrom ackList))
      | some .connectionClose => done (some .connectionClose)
      | _ => done none
  else done none

/-- The download speed of a request that `accept_connection` answers. It does not look at
what `recvfrom` returned. -/
def acceptReader : FieldReader Region (Option Int) :=
  parsePackageType.bind fun type =>
    if type = some .connectionCreate then (readInt 4).bind fun speed => done (some speed)
    else done none

/-- The port and the speed that `connect_addr` takes from a reply. -/
def connectReader (r : Int) : FieldReader Region (Option (Int × Int)) :=
  if r > 0 then
    (readInt 4).bind fun port => (readInt 8).bind fun speed => done (some (port, speed))
  else done none

end Readers

/-- The buffers after `recvfrom` has put a datagram into them. -/
def fill (datagram : Bytes) (left : Buffers Region) : Buffers Region :=
  fun region i => datagram[i]?.getD (left region i)

/-- `PackageConnectionCreate(100)`, with the heap behind it. -/
def createBuffer (heap : Buffers Region) : Buffers Region :=
  fill [0, 0, 0, 0, 100, 0, 0, 0] heap

/-- What `recvfrom` keeps of a datagram. -/
def recvfrom (datagram : Bytes) : Bytes := datagram.take 1600

/-- The step of the receiver thread. The answer to a ping and the time it measures are not
part of the model. -/
def ReliableSocket.receiveMessage (message : Option Message) (socket : ReliableSocket) :
    Option (ReliableSocket × List Event) :=
  match socket.receiver, message with
  | .listening, none | .listening, some (.ping _) => some ({ socket with receiver := .head }, [])
  | .listening, some (.data packageId una payload) => socket.receive (.data packageId una payload)
  | .listening, some (.ack una sendFrom ackList) => socket.receive (.ack una sendFrom ackList)
  | .listening, some .connectionClose => socket.receive .connectionClose
  | _, _ => none

/-- A socket, and the address it takes its peer to have. -/
structure ConnectedSocket where
  socket : ReliableSocket
  connectedAddr : SockaddrIn

namespace ConnectedSocket

/-- The turn of the receiver thread for a datagram. -/
def receive (source : SockaddrIn) (datagram : Bytes) (left : Buffers Region)
    (state : ConnectedSocket) : Option (ConnectedSocket × List Event) :=
  let received := recvfrom datagram
  (state.socket.receiveMessage ((receiverReader received.length).run (fill received left))).map
    fun result => (⟨result.1, source⟩, result.2)

/-- The receiver thread is at its next turn, and nothing else has changed. -/
def nextTurn (state : ConnectedSocket) : ConnectedSocket :=
  { state with socket := { state.socket with receiver := .head } }

end ConnectedSocket

/-- The socket of the server that `accept_connection` listens on. -/
structure ListeningSocket where
  connectedAddr : SockaddrIn

/-- `accept_connection` up to the search for a port: the download speed of a request. -/
def ListeningSocket.accept (source : SockaddrIn) (datagram : Bytes) (heap : Buffers Region)
    (_listener : ListeningSocket) : ListeningSocket × Option Int :=
  (⟨source⟩, acceptReader.run (fill (recvfrom datagram) (createBuffer heap)))

/-- The address of the server that `connect_addr` goes on with. Its `recvfrom` writes none. -/
def connectReply (server : SockaddrIn) : Option (Int × Int) → SockaddrIn
  | some (port, _) => { server with sinPort := UInt16.ofNat (port % 65536).toNat }
  | none => server

/-- A datagram is used, and all that is read of it lies within it, or it is ignored and changes
nothing. -/
def UsedOrIgnored {α : Type} (reader : FieldReader Region (Option α)) (buffers : Buffers Region)
    (r : Nat) (unchanged : Prop) : Prop :=
  ((reader.run buffers).isSome = true ∧ reader.Within buffers r) ∨
    (reader.run buffers = none ∧ unchanged)

instance {α : Type} [DecidableEq α] (reader : FieldReader Region (Option α))
    (buffers : Buffers Region) (r : Nat) (unchanged : Prop) [Decidable unchanged] :
    Decidable (UsedOrIgnored reader buffers r unchanged) :=
  inferInstanceAs (Decidable (_ ∨ _))

/-- The length that a datagram needs for its type, `none` for the types that are dropped. -/
def neededLength (buffers : Buffers Region) : Option PackageType → Option Nat
  | some .ping => some 5
  | some .data => some (20 + nonceBytes)
  | some .ack => some (28 + 8 * ((readWord .buf 20).run buffers).toNat)
  | some .connectionClose => some 4
  | _ => none

section Bounds

open FieldReader

variable {buffers : Buffers Region} {r : Nat}

theorem spans_readWord (region : Region) (offset : Nat) :
    (readWord region offset).spans buffers = [⟨region, offset, 8⟩] := rfl

theorem spans_readAckList (entries i : Nat) : (readAckList entries i).spans buffers =
    (List.range' i entries).map fun j => ⟨.buf, 28 + 8 * j, 8⟩ := by
  induction entries generalizing i with
  | zero => rfl
  | succ entries ih =>
      unfold readAckList
      rw [spans_bind, spans_bind, ih, List.range'_succ, List.map_cons]
      simp only [readWord, spans_read, spans_done, List.append_nil, List.singleton_append]

theorem spans_parsePackageType : parsePackageType.spans buffers = [⟨.buf, 0, 4⟩] := rfl

/-- The receiver thread drops what is empty or of no type it knows. -/
theorem receiverReader_eq_none : (receiverReader r).run buffers = none ↔
    r = 0 ∨ neededLength buffers (parsePackageType.run buffers) = none := by
  rcases Nat.eq_zero_or_pos r with rfl | hpos
  · exact iff_of_true rfl (.inl rfl)
  · have hpos' : (r : Int) > 0 := by omega
    have hne : r ≠ 0 := by omega
    unfold receiverReader
    rw [if_pos hpos', run_bind]
    generalize parsePackageType.run buffers = type
    rcases type with _ | type
    · simp [neededLength]
    · cases type <;> simp [neededLength, hne]

/-- The receiver thread stays within a datagram just if it is long enough for its type. -/
theorem receiverReader_within {needed : Nat} (hpos : 0 < r)
    (hneeded : neededLength buffers (parsePackageType.run buffers) = some needed) :
    (receiverReader r).Within buffers r ↔ needed ≤ r := by
  have hpos' : (r : Int) > 0 := by omega
  unfold receiverReader Within
  rw [if_pos hpos', spans_bind, spans_parsePackageType]
  generalize parsePackageType.run buffers = type at hneeded
  rcases type with _ | type
  · cases hneeded
  · cases type with
    | connectionCreate | connectionCreateR | connectionCloseR => cases hneeded
    | connectionClose =>
        cases hneeded
        simp [Span.Within]
    | ping =>
        cases hneeded
        simp [Span.Within]
        omega
    | data =>
        cases hneeded
        simp [Span.Within, readWord, nonceBytes]
        omega
    | ack =>
        obtain rfl := Option.some.inj hneeded
        simp [Span.Within, spans_readWord, spans_readAckList]
        generalize ((readWord .buf 20).run buffers).toNat = ackCount
        constructor
        · rintro ⟨-, -, -, hheader, hlist⟩
          rcases ackCount with _ | ackCount
          · omega
          · have hlast := hlist ackCount (Nat.lt_succ_self _)
            omega
        · intro hlength
          exact ⟨by omega, by omega, by omega, by omega, fun i hi => by omega⟩

theorem neededLength_pos {needed : Nat} {type : Option PackageType}
    (hneeded : neededLength buffers type = some needed) : 0 < needed := by
  unfold neededLength at hneeded
  split at hneeded <;> simp only [Option.some.injEq, reduceCtorEq] at hneeded <;> omega

/-- A datagram is used within its bounds just if it is long enough, and it is ignored just if
it is empty or of no known type. -/
theorem receiverReader_usedOrIgnored (unchanged : Prop) :
    UsedOrIgnored (receiverReader r) buffers r unchanged ↔
      (∃ needed, neededLength buffers (parsePackageType.run buffers) = some needed ∧
          needed ≤ r) ∨
        (r = 0 ∨ neededLength buffers (parsePackageType.run buffers) = none) ∧ unchanged := by
  unfold UsedOrIgnored
  rw [receiverReader_eq_none, Option.isSome_iff_ne_none, ne_eq, receiverReader_eq_none, not_or]
  refine or_congr_left ?_
  constructor
  · rintro ⟨⟨hr, hknown⟩, hwithin⟩
    obtain ⟨needed, hneeded⟩ := Option.ne_none_iff_exists'.mp hknown
    exact ⟨needed, hneeded, (receiverReader_within (Nat.pos_of_ne_zero hr) hneeded).mp hwithin⟩
  · rintro ⟨needed, hneeded, hle⟩
    have hpos := Nat.lt_of_lt_of_le (neededLength_pos hneeded) hle
    refine ⟨⟨Nat.ne_of_gt hpos, by simp [hneeded]⟩, (receiverReader_within hpos hneeded).mpr hle⟩

theorem acceptReader_usedOrIgnored (unchanged : Prop) :
    UsedOrIgnored acceptReader buffers r unchanged ↔
      parsePackageType.run buffers = some .connectionCreate ∧ 8 ≤ r ∨
        parsePackageType.run buffers ≠ some .connectionCreate ∧ unchanged := by
  unfold UsedOrIgnored acceptReader Within
  rw [spans_bind, run_bind, spans_parsePackageType]
  by_cases hcreate : parsePackageType.run buffers = some .connectionCreate
  · rw [if_pos hcreate]
    simp [Span.Within, readInt, hcreate]
    omega
  · rw [if_neg hcreate]
    simp [hcreate]

theorem connectReader_usedOrIgnored {unchanged : Prop} (hunchanged : r = 0 → unchanged) :
    UsedOrIgnored (connectReader r) buffers r unchanged ↔ r = 0 ∨ 12 ≤ r := by
  unfold UsedOrIgnored
  rcases Nat.eq_zero_or_pos r with rfl | hpos
  · exact iff_of_true (.inr ⟨rfl, hunchanged rfl⟩) (.inl rfl)
  · have hpos' : (r : Int) > 0 := by omega
    unfold connectReader Within
    rw [if_pos hpos']
    simp [Span.Within, readInt]
    omega

theorem littleEndian_eq_zero (bytes : Bytes) :
    littleEndian bytes = 0 ↔ ∀ byte ∈ bytes, byte = 0 := by
  induction bytes with
  | nil => simp [littleEndian]
  | cons byte rest ih =>
      rw [List.forall_mem_cons, ← ih, ← UInt8.toNat_inj]
      show byte.toNat + 256 * littleEndian rest = 0 ↔ byte.toNat = 0 ∧ _
      omega

theorem ofWord_eq_create (word : Nat) :
    PackageType.ofWord word = some .connectionCreate ↔ word = 0 := by
  unfold PackageType.ofWord
  split <;> simp_all

/-- Where nothing arrives in it, the buffer of `accept_connection` holds a request. -/
theorem createBuffer_type (datagram : Bytes) (heap : Buffers Region) :
    parsePackageType.run (fill datagram (createBuffer heap)) = some .connectionCreate ↔
      ∀ byte ∈ datagram.take 4, byte = 0 := by
  have hbyte : ∀ i < 4, fill datagram (createBuffer heap) .buf (0 + i) = datagram[i]?.getD 0 := by
    intro i hi
    have hzero : createBuffer heap .buf i = 0 := by
      interval_cases i <;> rfl
    rw [Nat.zero_add, fill, hzero]
  have hword : parsePackageType.run (fill datagram (createBuffer heap)) =
      PackageType.ofWord (littleEndian ((List.range 4).map fun i => datagram[i]?.getD 0)) :=
    congrArg (fun bytes => PackageType.ofWord (littleEndian bytes))
      (List.map_congr_left fun i hi => hbyte i (List.mem_range.mp hi))
  rw [hword, ofWord_eq_create, littleEndian_eq_zero, List.forall_mem_map]
  constructor
  · intro hzero byte hmem
    obtain ⟨i, hi, rfl⟩ := List.mem_iff_getElem.mp hmem
    rw [List.length_take] at hi
    have hat := hzero i (List.mem_range.mpr (by omega))
    rw [List.getElem?_eq_getElem (by omega), Option.getD_some] at hat
    rw [List.getElem_take, hat]
  · intro hzero i hi
    have hlt := List.mem_range.mp hi
    rcases Nat.lt_or_ge i datagram.length with hin | hout
    · rw [List.getElem?_eq_getElem hin, Option.getD_some]
      exact hzero _ (List.mem_iff_getElem.mpr
        ⟨i, by rw [List.length_take]; omega, List.getElem_take⟩)
    · rw [List.getElem?_eq_none hout]
      rfl

/-- What `recvfrom` has written does not depend on what is left in the buffers. -/
theorem run_fill_eq {α : Type} {reader : FieldReader Region α} {datagram : Bytes}
    {left : Buffers Region} (hwithin : reader.Within (fill datagram left) datagram.length)
    (other : Buffers Region) :
    reader.run (fill datagram other) = reader.run (fill datagram left) := by
  refine run_eq_of_within (fun region i hi => ?_) hwithin
  unfold fill
  rw [List.getElem?_eq_getElem hi]
  rfl

end Bounds

namespace ConnectedSocket

variable {state : ConnectedSocket} {source : SockaddrIn} {datagram : Bytes}
  {left : Buffers Region}

/-- What a datagram does that is used within its bounds does not depend on earlier ones. -/
theorem receive_eq_of_within
    (hwithin : (receiverReader (recvfrom datagram).length).Within (fill (recvfrom datagram) left)
      (recvfrom datagram).length) (other : Buffers Region) :
    state.receive source datagram other = state.receive source datagram left := by
  simp only [receive]
  rw [run_fill_eq hwithin other]

/-- A datagram that is dropped leaves the address of its sender behind, and nothing else. -/
theorem receive_dropped (hlistening : state.socket.receiver = .listening)
    (hdropped : (receiverReader (recvfrom datagram).length).run (fill (recvfrom datagram) left) =
      none) :
    state.receive source datagram left =
      some ({ state.nextTurn with connectedAddr := source }, []) := by
  unfold receive ReliableSocket.receiveMessage
  simp only [hdropped, hlistening, Option.map_some]
  rfl

/-- It changes nothing just if it comes from the peer. -/
theorem receive_unchanged_iff (hlistening : state.socket.receiver = .listening)
    (hdropped : (receiverReader (recvfrom datagram).length).run (fill (recvfrom datagram) left) =
      none) :
    state.receive source datagram left = some (state.nextTurn, []) ↔
      source = state.connectedAddr := by
  rw [receive_dropped hlistening hdropped]
  constructor
  · intro hsame
    simp only [Option.some.injEq, Prod.mk.injEq, and_true] at hsame
    exact congrArg connectedAddr hsame
  · rintro rfl
    rfl

end ConnectedSocket

/-- The receiver thread between two datagrams. -/
def ConnectedSocket.fresh : ConnectedSocket where
  socket := { ReliableSocket.init .zeroed with receiver := .listening }
  connectedAddr := ⟨50020, 7⟩

/-- An Ack that counts one id and ends behind the count. -/
def shortAck : Bytes :=
  [6, 0, 0, 0] ++ List.replicate 16 0 ++ [1, 0, 0, 0, 0, 0, 0, 0]

end Sharpvpn
