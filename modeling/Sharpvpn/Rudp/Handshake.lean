import Mathlib.Data.List.Nodup
import Mathlib.Logic.Function.Basic
import Sharpvpn.Foundation.Machine

/-!
# The connection handshake

Clients call `connect_addr`, the server loops on `accept_connection`. The network keeps
every datagram and delivers it any number of times, at any time, or never. The server
answers every request with a new socket: it computes an id of the peer and does not look
whether it has met it. Once connected, each end sends to where the last datagram came from.
-/

namespace Sharpvpn

open Foundation

/-- `sockaddr_in` -/
structure SockaddrIn where
  sinPort : UInt16
  sinAddr : UInt32
  deriving DecidableEq, Repr

namespace SockaddrIn

/-- The `unique_id` that `accept_connection` computes. -/
def uniqueId (peer : SockaddrIn) : UInt64 :=
  peer.sinPort.toUInt64 <<< 32 ||| peer.sinAddr.toUInt64

theorem uniqueId_toNat (peer : SockaddrIn) :
    peer.uniqueId.toNat = peer.sinPort.toNat * 4294967296 + peer.sinAddr.toNat := by
  have hport := peer.sinPort.toNat_lt
  have haddr := peer.sinAddr.toNat_lt
  have hshift : (peer.sinPort.toUInt64 <<< 32).toNat = peer.sinPort.toNat <<< 32 := by
    rw [UInt64.toNat_shiftLeft, UInt16.toNat_toUInt64]
    exact Nat.mod_eq_of_lt (by rw [Nat.shiftLeft_eq]; simp; omega)
  rw [uniqueId, UInt64.toNat_or, hshift, UInt32.toNat_toUInt64,
    ← Nat.shiftLeft_add_eq_or_of_lt haddr, Nat.shiftLeft_eq]

theorem uniqueId_injective : Function.Injective uniqueId := by
  intro first second heq
  have hsame := congrArg UInt64.toNat heq
  rw [uniqueId_toNat, uniqueId_toNat] at hsame
  have hfirst := first.sinAddr.toNat_lt
  have hsecond := second.sinAddr.toNat_lt
  obtain ⟨firstPort, firstAddr⟩ := first
  obtain ⟨secondPort, secondAddr⟩ := second
  rw [SockaddrIn.mk.injEq]
  constructor
  · apply UInt16.toNat_inj.mp
    simp only at *
    omega
  · apply UInt32.toNat_inj.mp
    simp only at *
    omega

end SockaddrIn

/-- The reply to a request. -/
structure CreateR where
  port : Nat
  downloadSpeed : Int
  deriving DecidableEq, Repr

/-- What reaches a client that waits for the reply: replies, and the pings that a new
socket of the server starts with. -/
inductive ToClient
  | createR (reply : CreateR)
  | ping
  deriving DecidableEq, Repr

/-- `recvfrom` into the buffer of the reply. The type of the datagram is not looked at; the
byte of a ping behind its type lands on the low byte of the port. -/
def CreateR.recvfrom (buffer : CreateR) : ToClient → CreateR
  | .createR reply => reply
  | .ping => { buffer with port := buffer.port / 256 * 256 }

/-- A call of `connect_addr`, by its number of retries. The port is that of the address the
socket sends to. -/
inductive ConnectCall
  | idle
  | waiting (count : Nat)
  | connected (port : Nat) (sendSpeed : Int)
  | failed
  deriving DecidableEq, Repr

/-- A socket of the server that is alive: whom it has been created for, and where it sends. -/
structure ServerSocket where
  peer : SockaddrIn
  port : Nat
  sendSpeed : Int
  connectedAddr : SockaddrIn
  deriving DecidableEq, Repr

/-- The configured speeds. Every call of `connect_addr` has a socket of its own. -/
structure Speeds where
  downloadSpeed : SockaddrIn → Int
  uploadSpeed : SockaddrIn → Int
  serverUploadSpeed : Int

structure Handshake where
  calls : SockaddrIn → ConnectCall := fun _ => .idle
  /-- The requests sent so far, with their download speeds. -/
  requests : List (SockaddrIn × Int) := []
  /-- The requests that have reached the server so far, and those of them that
  `accept_connection` has not read. -/
  arrived : List (SockaddrIn × Int) := []
  queue : List (SockaddrIn × Int) := []
  /-- The datagrams sent to clients so far. -/
  replies : List (SockaddrIn × ToClient) := []
  /-- What has been sent to clients, by the port it came from. -/
  datagrams : List (SockaddrIn × Nat) := []
  /-- What connected clients have sent, by the port it goes to. -/
  packages : List (SockaddrIn × Nat) := []
  /-- The port the server listens on. -/
  localPort : Nat := 50010
  freePortNow : Nat := 0
  sockets : List ServerSocket := []

inductive HandshakeAction
  | connectAddr (client : SockaddrIn)
  /-- `select` returns without a datagram. -/
  | timeout (client : SockaddrIn)
  /-- A datagram arrives; `binded` says whether the control port is bound after it. -/
  | receive (client : SockaddrIn) (datagram : ToClient) (binded : Bool)
  /-- A request reaches the socket that the server listens on. -/
  | arrive (peer : SockaddrIn) (downloadSpeed : Int)
  /-- `accept_connection` reads a request; other programs hold the `foreign` ports. -/
  | accept (peer : SockaddrIn) (downloadSpeed : Int) (foreign : List Nat)
  /-- The socket at a port stops and is closed. -/
  | stop (port : Nat)
  /-- A thread of a connected client sends something. -/
  | clientSender (client : SockaddrIn)
  /-- A datagram from a port of the server reaches a connected client. -/
  | clientReceiver (client : SockaddrIn) (source : Nat)
  /-- A thread of the socket at a port sends something. -/
  | serverSender (port : Nat)
  /-- A datagram of a client reaches the socket at a port. -/
  | serverReceiver (port : Nat) (client : SockaddrIn)

/-- The server has created a socket for a peer. -/
structure Accepted where
  peer : SockaddrIn
  port : Nat
  deriving DecidableEq, Repr

def freePortStart : Nat := 50020

/-- The loop that binds a socket to the first free port. `none`: that many ports are
taken. -/
def bindFreePort (taken : Nat → Bool) : (tries : Nat) → (freePortNow : Nat) → Option (Nat × Nat)
  | 0, _ => none
  | tries + 1, freePortNow =>
      if taken (freePortNow + freePortStart) then
        bindFreePort taken tries ((freePortNow + 1) % 100)
      else some (freePortNow + freePortStart, (freePortNow + 1) % 100)

namespace Handshake

/-- A client sends its request. -/
def sendCreate (speeds : Speeds) (client : SockaddrIn) (state : Handshake) (call : ConnectCall) :
    Handshake :=
  { state with
    calls := Function.update state.calls client call
    requests := (client, speeds.downloadSpeed client) :: state.requests }

/-- `connect_addr` after a datagram has arrived. -/
def receiveReply (speeds : Speeds) (client : SockaddrIn) (datagram : ToClient) (binded : Bool) :
    ConnectCall :=
  let reply := (CreateR.mk 50020 100).recvfrom datagram
  if binded then .connected reply.port (min reply.downloadSpeed (speeds.uploadSpeed client))
  else .failed

/-- A port that `bind` refuses. -/
def taken (state : Handshake) (foreign : List Nat) (port : Nat) : Bool :=
  foreign.contains port || port == state.localPort ||
    state.sockets.any fun socket => socket.port == port

/-- `accept_connection` once it has read a request. With all hundred ports taken it tries
them for ever. -/
def acceptConnection (speeds : Speeds) (peer : SockaddrIn) (downloadSpeed : Int)
    (foreign : List Nat) (state : Handshake) : Option (Handshake × List Accepted) :=
  let sendSpeed := min downloadSpeed speeds.serverUploadSpeed
  (bindFreePort (state.taken foreign) 100 state.freePortNow).map fun bound =>
    ({ state with
      freePortNow := bound.2
      replies := (peer, .ping) :: (peer, .createR ⟨bound.1, sendSpeed⟩) :: state.replies
      -- The new socket sends the ping from its own port.
      datagrams := (peer, bound.1) :: (peer, state.localPort) :: state.datagrams
      sockets := ⟨peer, bound.1, sendSpeed, peer⟩ :: state.sockets }, [⟨peer, bound.1⟩])

def step (speeds : Speeds) (state : Handshake) :
    HandshakeAction → Option (Handshake × List Accepted)
  | .connectAddr client =>
      match state.calls client with
      | .idle => some (state.sendCreate speeds client (.waiting 0), [])
      | _ => none
  | .timeout client =>
      match state.calls client with
      | .waiting count =>
          some (state.sendCreate speeds client
            -- The fifth timeout sends a request too, whose reply is not waited for.
            (if count + 1 < 5 then .waiting (count + 1) else .failed), [])
      | _ => none
  | .receive client datagram binded =>
      match state.calls client with
      | .waiting _ =>
          -- The network may deliver a datagram again.
          if (client, datagram) ∈ state.replies then
            some ({ state with
              calls :=
                Function.update state.calls client (receiveReply speeds client datagram binded) },
              [])
          else none
      | _ => none
  | .arrive peer downloadSpeed =>
      if (peer, downloadSpeed) ∈ state.requests then
        some ({ state with
          arrived := (peer, downloadSpeed) :: state.arrived
          queue := (peer, downloadSpeed) :: state.queue }, [])
      else none
  | .accept peer downloadSpeed foreign =>
      if (peer, downloadSpeed) ∈ state.queue then
        { state with queue := state.queue.erase (peer, downloadSpeed) }.acceptConnection speeds
          peer downloadSpeed foreign
      else none
  | .stop port =>
      some ({ state with sockets := state.sockets.filter fun socket => socket.port != port }, [])
  | .clientSender client =>
      match state.calls client with
      | .connected port _ =>
          some ({ state with packages := (client, port) :: state.packages }, [])
      | _ => none
  | .clientReceiver client source =>
      match state.calls client with
      | .connected _ sendSpeed =>
          -- `recvfrom` writes the address before the type of the datagram is looked at.
          if (client, source) ∈ state.datagrams then
            some ({ state with
              calls := Function.update state.calls client (.connected source sendSpeed) }, [])
          else none
      | _ => none
  | .serverSender port =>
      (state.sockets.find? fun socket => socket.port == port).map fun socket =>
        ({ state with datagrams := (socket.connectedAddr, socket.port) :: state.datagrams }, [])
  | .serverReceiver port client =>
      if (client, port) ∈ state.packages then
        some ({ state with sockets := state.sockets.map fun socket =>
          if socket.port = port then { socket with connectedAddr := client } else socket }, [])
      else none

end Handshake

/-- Clients, server and network together. -/
def handshakeMachine (speeds : Speeds) : Machine Handshake HandshakeAction Accepted where
  step := Handshake.step speeds

section Ports

variable {taken : Nat → Bool} {tries freePortNow port next : Nat}

/-- The port bound is a free one of the hundred. -/
theorem of_bindFreePort (hnow : freePortNow < 100)
    (hbound : bindFreePort taken tries freePortNow = some (port, next)) :
    taken port = false ∧ freePortStart ≤ port ∧ port < freePortStart + 100 ∧ next < 100 := by
  induction tries generalizing freePortNow with
  | zero => cases hbound
  | succ tries ih =>
      unfold bindFreePort at hbound
      split at hbound
      next => exact ih (Nat.mod_lt _ (by decide)) hbound
      next hfree =>
        simp only [Option.some.injEq, Prod.mk.injEq] at hbound
        obtain ⟨rfl, rfl⟩ := hbound
        exact ⟨by simpa using hfree, Nat.le_add_left _ _, by omega, Nat.mod_lt _ (by decide)⟩

theorem taken_of_bindFreePort (hnow : freePortNow < 100)
    (hnone : bindFreePort taken tries freePortNow = none) (i : Nat) (hi : i < tries) :
    taken ((freePortNow + i) % 100 + freePortStart) = true := by
  induction tries generalizing freePortNow i with
  | zero => omega
  | succ tries ih =>
      unfold bindFreePort at hnone
      split at hnone
      next htaken =>
        cases i with
        | zero =>
            rw [Nat.add_zero, Nat.mod_eq_of_lt hnow]
            exact htaken
        | succ i =>
            have hrest := ih (Nat.mod_lt _ (by decide)) hnone i (by omega)
            rw [Nat.mod_add_mod, Nat.add_assoc, Nat.add_comm 1] at hrest
            exact hrest
      next => cases hnone

/-- A hundred tries find a free port if there is one. -/
theorem bindFreePort_isSome (hnow : freePortNow < 100) (hlow : freePortStart ≤ port)
    (hhigh : port < freePortStart + 100) (hfree : taken port = false) :
    (bindFreePort taken 100 freePortNow).isSome := by
  by_contra hnone
  have htaken := taken_of_bindFreePort hnow (by simpa using hnone)
    ((port - freePortStart + 100 - freePortNow) % 100) (Nat.mod_lt _ (by decide))
  have hport : (freePortNow + (port - freePortStart + 100 - freePortNow) % 100) % 100 +
      freePortStart = port := by omega
  rw [hport, hfree] at htaken
  cases htaken

end Ports

namespace Handshake

/-- Everything a step of the handshake can do. -/
inductive Transition (speeds : Speeds) (state : Handshake) :
    HandshakeAction → Handshake → List Accepted → Prop
  | sent {action client call} (hcall : ∀ port sendSpeed, call ≠ .connected port sendSpeed) :
      Transition speeds state action (state.sendCreate speeds client call) []
  | received {client datagram binded} (hmem : (client, datagram) ∈ state.replies) :
      Transition speeds state (.receive client datagram binded)
        { state with
          calls := Function.update state.calls client
            (receiveReply speeds client datagram binded) } []
  | arrived {peer downloadSpeed} (hmem : (peer, downloadSpeed) ∈ state.requests) :
      Transition speeds state (.arrive peer downloadSpeed)
        { state with
          arrived := (peer, downloadSpeed) :: state.arrived
          queue := (peer, downloadSpeed) :: state.queue } []
  | accepted {peer downloadSpeed foreign port next} (hmem : (peer, downloadSpeed) ∈ state.queue)
      (hbound : bindFreePort (state.taken foreign) 100 state.freePortNow = some (port, next)) :
      Transition speeds state (.accept peer downloadSpeed foreign)
        { state with
          queue := state.queue.erase (peer, downloadSpeed)
          freePortNow := next
          replies := (peer, .ping) ::
            (peer, .createR ⟨port, min downloadSpeed speeds.serverUploadSpeed⟩) :: state.replies
          datagrams := (peer, port) :: (peer, state.localPort) :: state.datagrams
          sockets := ⟨peer, port, min downloadSpeed speeds.serverUploadSpeed, peer⟩ ::
            state.sockets }
        [⟨peer, port⟩]
  | stopped {port} :
      Transition speeds state (.stop port)
        { state with sockets := state.sockets.filter fun socket => socket.port != port } []
  | clientSent {client port sendSpeed} (hcall : state.calls client = .connected port sendSpeed) :
      Transition speeds state (.clientSender client)
        { state with packages := (client, port) :: state.packages } []
  | clientReceived {client source port sendSpeed}
      (hcall : state.calls client = .connected port sendSpeed)
      (hmem : (client, source) ∈ state.datagrams) :
      Transition speeds state (.clientReceiver client source)
        { state with
          calls := Function.update state.calls client (.connected source sendSpeed) } []
  | serverSent {port socket} (hmem : socket ∈ state.sockets) :
      Transition speeds state (.serverSender port)
        { state with datagrams := (socket.connectedAddr, socket.port) :: state.datagrams } []
  | serverReceived {port client} (hmem : (client, port) ∈ state.packages) :
      Transition speeds state (.serverReceiver port client)
        { state with sockets := state.sockets.map fun socket =>
            if socket.port = port then { socket with connectedAddr := client } else socket } []

variable {speeds : Speeds} {state next : Handshake} {action : HandshakeAction}
  {trace events : List Accepted} {localPort : Nat}

theorem step_transition (hstep : state.step speeds action = some (next, events)) :
    state.Transition speeds action next events := by
  cases action with
  | connectAddr client =>
      simp only [step] at hstep
      split at hstep
      next =>
        cases hstep
        exact .sent (by rintro _ _ ⟨⟩)
      next => cases hstep
  | timeout client =>
      simp only [step] at hstep
      split at hstep
      next =>
        cases hstep
        refine .sent fun port sendSpeed => ?_
        split <;> rintro ⟨⟩
      next => cases hstep
  | receive client datagram binded =>
      simp only [step] at hstep
      split at hstep
      next =>
        split at hstep
        next hmem =>
          cases hstep
          exact .received hmem
        next => cases hstep
      next => cases hstep
  | arrive peer downloadSpeed =>
      simp only [step] at hstep
      split at hstep
      next hmem =>
        cases hstep
        exact .arrived hmem
      next => cases hstep
  | accept peer downloadSpeed foreign =>
      simp only [step] at hstep
      split at hstep
      next hmem =>
        obtain ⟨⟨port, now⟩, hbound, heq⟩ := Option.map_eq_some_iff.mp hstep
        cases heq
        exact .accepted hmem hbound
      next => cases hstep
  | stop port =>
      cases hstep
      exact .stopped
  | clientSender client =>
      simp only [step] at hstep
      split at hstep
      next hcall =>
        cases hstep
        exact .clientSent hcall
      next => cases hstep
  | clientReceiver client source =>
      simp only [step] at hstep
      split at hstep
      next hcall =>
        split at hstep
        next hmem =>
          cases hstep
          exact .clientReceived hcall hmem
        next => cases hstep
      next => cases hstep
  | serverSender port =>
      obtain ⟨socket, hfind, heq⟩ := Option.map_eq_some_iff.mp hstep
      cases heq
      exact .serverSent (List.mem_of_find?_eq_some hfind)
  | serverReceiver port client =>
      simp only [step] at hstep
      split at hstep
      next hmem =>
        cases hstep
        exact .serverReceived hmem
      next => cases hstep

/-- Live sockets have different ports among the hundred. -/
structure Ported (state : Handshake) : Prop where
  now_lt : state.freePortNow < 100
  distinct : (state.sockets.map (·.port)).Nodup
  range : ∀ socket ∈ state.sockets,
    freePortStart ≤ socket.port ∧ socket.port < freePortStart + 100

/-- A datagram that reaches a socket of the server leaves the ports as they are. -/
theorem map_port_received (sockets : List ServerSocket) (port : Nat) (client : SockaddrIn) :
    (sockets.map fun socket =>
        if socket.port = port then { socket with connectedAddr := client } else socket).map
      (·.port) = sockets.map (·.port) := by
  rw [List.map_map]
  refine List.map_congr_left fun socket _ => ?_
  rw [Function.comp_apply]
  split <;> rfl

theorem Ported.step (hported : state.Ported)
    (htransition : state.Transition speeds action next events) : next.Ported := by
  cases htransition with
  | sent | received | arrived | clientSent | clientReceived | serverSent =>
      exact ⟨hported.now_lt, hported.distinct, hported.range⟩
  | @accepted peer _ foreign port now _ hbound =>
      obtain ⟨hfree, hlow, hhigh, hnow⟩ := of_bindFreePort hported.now_lt hbound
      refine ⟨hnow, ?_, ?_⟩
      · rw [List.map_cons, List.nodup_cons]
        refine ⟨fun hmem => ?_, hported.distinct⟩
        obtain ⟨socket, hsocket, hport⟩ := List.mem_map.mp hmem
        have htaken : state.taken foreign port = true := by
          rw [taken, Bool.or_eq_true, List.any_eq_true]
          exact .inr ⟨socket, hsocket, beq_iff_eq.mpr hport⟩
        rw [hfree] at htaken
        cases htaken
      · intro socket hsocket
        rcases List.mem_cons.mp hsocket with rfl | hold
        · exact ⟨hlow, hhigh⟩
        · exact hported.range socket hold
  | stopped =>
      refine ⟨hported.now_lt, ?_, fun socket hsocket => hported.range socket ?_⟩
      · exact hported.distinct.sublist (List.filter_sublist.map _)
      · exact List.mem_of_mem_filter hsocket
  | @serverReceived port client =>
      refine ⟨hported.now_lt, by rw [map_port_received]; exact hported.distinct, ?_⟩
      intro socket hsocket
      obtain ⟨old, hold, rfl⟩ := List.mem_map.mp hsocket
      split
      next => exact hported.range old hold
      next => exact hported.range old hold

/-- The sockets the server holds at any time have different ports among the hundred. -/
theorem reach_ported {allowed : Machine.StepCondition Handshake HandshakeAction Accepted}
    (hreach : (handshakeMachine speeds).Reach allowed { localPort } state trace) : state.Ported :=
  hreach.invariant (fun state _ => state.Ported)
    ⟨Nat.succ_pos 99, List.nodup_nil, by rintro _ ⟨⟩⟩
    fun _ _ _ _ _ hported hstep _ => hported.step (step_transition hstep)

/-- No request reaches the server from a peer whose id an earlier one had. No ping overtakes
the reply, and no reply comes after it has been taken. -/
def AcceptsOnce (state : Handshake) : HandshakeAction → Prop
  | .arrive peer _ => peer.uniqueId ∉ state.arrived.map fun request => request.1.uniqueId
  | .receive _ datagram _ => datagram ≠ .ping
  | .clientReceiver _ source => source ≠ state.localPort
  | _ => True

instance (state : Handshake) (action : HandshakeAction) :
    Decidable (AcceptsOnce state action) := by
  unfold AcceptsOnce
  split <;> infer_instance

/-- At most one socket has been created for each call of `connect_addr`. Those for whom a live
socket has been created, and those to whom it sends, send to its port. -/
structure OneSocketEach (state : Handshake) (trace : List Accepted) : Prop where
  created : ∀ client, (trace.map (·.peer)).count client ≤ 1
  held : ∀ socket ∈ state.sockets, ∀ client,
    client = socket.peer ∨ client = socket.connectedAddr → ∀ port sendSpeed,
      state.calls client = .connected port sendSpeed → port = socket.port

/-- Whatever the ends send and know goes back to sockets created for them. -/
structure Answered (state : Handshake) (trace : List Accepted) : Prop where
  replies : ∀ client reply, (client, .createR reply) ∈ state.replies →
    ⟨client, reply.port⟩ ∈ trace
  datagrams : ∀ client source, (client, source) ∈ state.datagrams →
    source = state.localPort ∨ ⟨client, source⟩ ∈ trace
  calls : ∀ client port sendSpeed, state.calls client = .connected port sendSpeed →
    ⟨client, port⟩ ∈ trace
  packages : ∀ client port, (client, port) ∈ state.packages → ⟨client, port⟩ ∈ trace
  sockets : ∀ socket ∈ state.sockets,
    ⟨socket.peer, socket.port⟩ ∈ trace ∧ ⟨socket.connectedAddr, socket.port⟩ ∈ trace

/-- Every request that has arrived has been accepted or waits for it, and none has come from
where another one has. -/
structure Taken (state : Handshake) (trace : List Accepted) : Prop where
  arrived : (trace.map (·.peer) ++ state.queue.map (·.1)).Perm (state.arrived.map (·.1))
  once : (state.arrived.map (·.1)).Nodup

/-- What is known of the clients that are connected, when the call of one of them goes on. -/
theorem forall_connected_update {P : SockaddrIn → Nat → Int → Prop}
    {calls : SockaddrIn → ConnectCall} {client : SockaddrIn} {call : ConnectCall}
    (hcalls : ∀ other port sendSpeed, calls other = .connected port sendSpeed →
      P other port sendSpeed)
    (hcall : ∀ port sendSpeed, call = .connected port sendSpeed → P client port sendSpeed) :
    ∀ other port sendSpeed, Function.update calls client call other = .connected port sendSpeed →
      P other port sendSpeed :=
  (Function.forall_update_iff calls fun other call => ∀ port sendSpeed,
    call = .connected port sendSpeed → P other port sendSpeed).mpr
      ⟨hcall, fun other _ => hcalls other⟩

/-- A client that takes a reply has its port and its speed. -/
theorem receiveReply_eq_connected {client : SockaddrIn} {datagram : ToClient} {binded : Bool}
    {port : Nat} {sendSpeed : Int} (hdatagram : datagram ≠ .ping)
    (hconnected : receiveReply speeds client datagram binded = .connected port sendSpeed) :
    ∃ reply, datagram = .createR reply ∧ port = reply.port ∧
      sendSpeed = min reply.downloadSpeed (speeds.uploadSpeed client) := by
  cases datagram with
  | createR reply =>
      simp only [receiveReply] at hconnected
      split at hconnected
      next =>
        cases hconnected
        exact ⟨reply, rfl, rfl, rfl⟩
      next => cases hconnected
  | ping => exact absurd rfl hdatagram

/-- The ids tell the peers apart. -/
theorem uniqueId_mem_iff {peer : SockaddrIn} {requests : List (SockaddrIn × Int)} :
    peer.uniqueId ∈ requests.map (fun request => request.1.uniqueId) ↔
      peer ∈ requests.map (·.1) := by
  simp [SockaddrIn.uniqueId_injective.eq_iff]

theorem Taken.step (htaken : state.Taken trace)
    (htransition : state.Transition speeds action next events)
    (honce : AcceptsOnce state action) : next.Taken (trace ++ events) := by
  cases htransition with
  | sent | received | stopped | clientSent | clientReceived | serverSent | serverReceived =>
      rw [List.append_nil]
      exact ⟨htaken.arrived, htaken.once⟩
  | @arrived peer =>
      rw [List.append_nil]
      refine ⟨List.perm_middle.trans (htaken.arrived.cons peer), ?_⟩
      exact List.nodup_cons.mpr ⟨fun hmem => honce (uniqueId_mem_iff.mpr hmem), htaken.once⟩
  | @accepted peer downloadSpeed _ port _ hmem =>
      refine ⟨?_, htaken.once⟩
      have hqueue := (List.perm_cons_erase hmem).map Prod.fst
      rw [List.map_append, List.append_assoc]
      exact (hqueue.symm.append_left _).trans htaken.arrived

theorem Answered.step (hanswered : state.Answered trace)
    (htransition : state.Transition speeds action next events)
    (honce : AcceptsOnce state action) : next.Answered (trace ++ events) := by
  cases htransition with
  | arrived =>
      rw [List.append_nil]
      exact ⟨hanswered.replies, hanswered.datagrams, hanswered.calls, hanswered.packages,
        hanswered.sockets⟩
  | @sent _ client call hcall =>
      rw [List.append_nil]
      exact ⟨hanswered.replies, hanswered.datagrams,
        forall_connected_update hanswered.calls fun port sendSpeed hconnected =>
          absurd hconnected (hcall port sendSpeed),
        hanswered.packages, hanswered.sockets⟩
  | @received client datagram binded hmem =>
      rw [List.append_nil]
      refine ⟨hanswered.replies, hanswered.datagrams,
        forall_connected_update hanswered.calls fun port sendSpeed hconnected => ?_,
        hanswered.packages, hanswered.sockets⟩
      obtain ⟨reply, rfl, rfl, -⟩ := receiveReply_eq_connected honce hconnected
      exact hanswered.replies client reply hmem
  | @accepted peer _ _ port =>
      have hnew : ⟨peer, port⟩ ∈ trace ++ [⟨peer, port⟩] :=
        List.mem_append_right _ (List.mem_singleton_self _)
      refine ⟨?_, ?_, fun client port sendSpeed hclient =>
        List.mem_append_left _ (hanswered.calls client port sendSpeed hclient),
        fun client port hpackage =>
          List.mem_append_left _ (hanswered.packages client port hpackage), ?_⟩
      · intro client reply hmem
        simp only [List.mem_cons, Prod.mk.injEq, reduceCtorEq, and_false, false_or,
          ToClient.createR.injEq] at hmem
        rcases hmem with ⟨rfl, rfl⟩ | hold
        · exact hnew
        · exact List.mem_append_left _ (hanswered.replies client reply hold)
      · intro client source hmem
        simp only [List.mem_cons, Prod.mk.injEq] at hmem
        rcases hmem with ⟨rfl, rfl⟩ | ⟨-, hlocal⟩ | hold
        · exact .inr hnew
        · exact .inl hlocal
        · exact (hanswered.datagrams client source hold).imp_right (List.mem_append_left _)
      · intro socket hsocket
        rcases List.mem_cons.mp hsocket with rfl | hold
        · exact ⟨hnew, hnew⟩
        · obtain ⟨hpeer, hconnected⟩ := hanswered.sockets socket hold
          exact ⟨List.mem_append_left _ hpeer, List.mem_append_left _ hconnected⟩
  | stopped =>
      rw [List.append_nil]
      exact ⟨hanswered.replies, hanswered.datagrams, hanswered.calls, hanswered.packages,
        fun socket hsocket => hanswered.sockets socket (List.mem_of_mem_filter hsocket)⟩
  | @clientSent client port sendSpeed hcall =>
      rw [List.append_nil]
      refine ⟨hanswered.replies, hanswered.datagrams, hanswered.calls, ?_, hanswered.sockets⟩
      intro other destination hmem
      rcases List.mem_cons.mp hmem with hnew | hold
      · obtain ⟨rfl, rfl⟩ := Prod.mk.inj hnew
        exact hanswered.calls _ _ sendSpeed hcall
      · exact hanswered.packages other destination hold
  | @clientReceived client source port sendSpeed hcall hmem =>
      rw [List.append_nil]
      refine ⟨hanswered.replies, hanswered.datagrams,
        forall_connected_update hanswered.calls fun port sendSpeed hconnected => ?_,
        hanswered.packages, hanswered.sockets⟩
      cases hconnected
      exact (hanswered.datagrams client source hmem).resolve_left honce
  | @serverSent _ socket hmem =>
      rw [List.append_nil]
      refine ⟨hanswered.replies, ?_, hanswered.calls, hanswered.packages, hanswered.sockets⟩
      intro client source hdatagram
      rcases List.mem_cons.mp hdatagram with hnew | hold
      · obtain ⟨rfl, rfl⟩ := Prod.mk.inj hnew
        exact .inr (hanswered.sockets socket hmem).2
      · exact hanswered.datagrams client source hold
  | @serverReceived port client hmem =>
      rw [List.append_nil]
      refine ⟨hanswered.replies, hanswered.datagrams, hanswered.calls, hanswered.packages, ?_⟩
      intro socket hsocket
      obtain ⟨old, hold, rfl⟩ := List.mem_map.mp hsocket
      obtain ⟨hpeer, hconnected⟩ := hanswered.sockets old hold
      split
      next hport =>
        subst hport
        exact ⟨hpeer, hanswered.packages client _ hmem⟩
      next => exact ⟨hpeer, hconnected⟩

/-- One server socket for each call, in every run in which one request of each call reaches the
server and the reply is the first datagram to come back, and comes back once. -/
theorem one_socket_each
    (hreach : (handshakeMachine speeds).Reach (fun state _ action _ => AcceptsOnce state action)
      { localPort } state trace) : state.OneSocketEach trace := by
  obtain ⟨hanswered, htaken⟩ := hreach.invariant
    (fun state trace => state.Answered trace ∧ state.Taken trace)
    ⟨⟨by rintro _ _ ⟨⟩, by rintro _ _ ⟨⟩, by rintro _ _ _ ⟨⟩, by rintro _ _ ⟨⟩, by rintro _ ⟨⟩⟩,
      ⟨.refl _, List.nodup_nil⟩⟩
    fun _ _ _ _ _ ⟨hanswered, htaken⟩ hstep honce =>
      ⟨hanswered.step (step_transition hstep) honce, htaken.step (step_transition hstep) honce⟩
  have hpeers : (trace.map (·.peer)).Nodup :=
    (List.nodup_append.mp (htaken.arrived.nodup_iff.mpr htaken.once)).1
  refine ⟨fun client => List.nodup_iff_count_le_one.mp hpeers client, ?_⟩
  intro socket hsocket client hclient port sendSpeed hconnected
  have hcall := hanswered.calls client port sendSpeed hconnected
  have hheld : ⟨client, socket.port⟩ ∈ trace := by
    rcases hclient with rfl | rfl
    · exact (hanswered.sockets socket hsocket).1
    · exact (hanswered.sockets socket hsocket).2
  exact congrArg Accepted.port (List.inj_on_of_nodup_map hpeers hcall hheld rfl)

/-- The speeds of the default arguments. -/
def standardSpeeds : Speeds := ⟨fun _ => 100, fun _ => 100, 100⟩

/-- Two clients are accepted, one of them after a retry whose request is lost, and talk to
their sockets. -/
theorem one_socket_each_two : ∃ state trace,
    (handshakeMachine standardSpeeds).Reach (fun state _ action _ => AcceptsOnce state action)
      { localPort := 50010 } state trace ∧
    trace = [⟨⟨1, 7⟩, 50020⟩, ⟨⟨2, 7⟩, 50021⟩] ∧
    state.sockets = [⟨⟨2, 7⟩, 50021, 100, ⟨2, 7⟩⟩, ⟨⟨1, 7⟩, 50020, 100, ⟨1, 7⟩⟩] ∧
    state.calls ⟨1, 7⟩ = .connected 50020 100 ∧ state.calls ⟨2, 7⟩ = .connected 50021 100 ∧
    state.OneSocketEach trace := by
  obtain ⟨state, trace, hreach, hview⟩ := Machine.reach_of_exec
    (fun (state : Handshake) (trace : List Accepted) =>
      (trace, state.sockets, state.calls ⟨1, 7⟩, state.calls ⟨2, 7⟩))
    (show ((handshakeMachine standardSpeeds).exec
      (fun state _ action _ => AcceptsOnce state action) { localPort := 50010 } []
      [.connectAddr ⟨1, 7⟩, .connectAddr ⟨2, 7⟩, .timeout ⟨1, 7⟩, .arrive ⟨1, 7⟩ 100,
        .arrive ⟨2, 7⟩ 100, .accept ⟨1, 7⟩ 100 [], .accept ⟨2, 7⟩ 100 [],
        .receive ⟨2, 7⟩ (.createR ⟨50021, 100⟩) true, .receive ⟨1, 7⟩ (.createR ⟨50020, 100⟩) true,
        .clientReceiver ⟨1, 7⟩ 50020, .clientSender ⟨1, 7⟩, .serverReceiver 50020 ⟨1, 7⟩,
        .serverSender 50021, .clientReceiver ⟨2, 7⟩ 50021]).map _ =
      some ([⟨⟨1, 7⟩, 50020⟩, ⟨⟨2, 7⟩, 50021⟩],
        [⟨⟨2, 7⟩, 50021, 100, ⟨2, 7⟩⟩, ⟨⟨1, 7⟩, 50020, 100, ⟨1, 7⟩⟩],
        .connected 50020 100, .connected 50021 100) by decide)
  simp only [Prod.mk.injEq] at hview
  obtain ⟨htrace, hsockets, hfirst, hsecond⟩ := hview
  exact ⟨state, trace, hreach, htrace, hsockets, hfirst, hsecond, one_socket_each hreach⟩

/-- A request is repeated because the reply is late, and the server accepts both: the client
takes the first reply, and moves on to the port of the second socket with its ping. The first
socket keeps the other port. -/
theorem two_sockets_one_call : ∃ state trace,
    (handshakeMachine standardSpeeds).Reach Machine.always { localPort := 50010 } state trace ∧
    (trace.map (·.peer)).count ⟨1, 7⟩ = 2 ∧
    state.sockets = [⟨⟨1, 7⟩, 50021, 100, ⟨1, 7⟩⟩, ⟨⟨1, 7⟩, 50020, 100, ⟨1, 7⟩⟩] ∧
    state.calls ⟨1, 7⟩ = .connected 50021 100 ∧ ¬state.OneSocketEach trace := by
  obtain ⟨state, trace, hreach, hview⟩ := Machine.reach_of_exec
    (fun (state : Handshake) (trace : List Accepted) =>
      ((trace.map (·.peer)).count ⟨1, 7⟩, state.sockets, state.calls ⟨1, 7⟩))
    (show ((handshakeMachine standardSpeeds).exec Machine.always { localPort := 50010 } []
      [.connectAddr ⟨1, 7⟩, .timeout ⟨1, 7⟩, .arrive ⟨1, 7⟩ 100, .arrive ⟨1, 7⟩ 100,
        .accept ⟨1, 7⟩ 100 [], .accept ⟨1, 7⟩ 100 [],
        .receive ⟨1, 7⟩ (.createR ⟨50020, 100⟩) true, .clientReceiver ⟨1, 7⟩ 50021]).map _ =
      some (2, [⟨⟨1, 7⟩, 50021, 100, ⟨1, 7⟩⟩, ⟨⟨1, 7⟩, 50020, 100, ⟨1, 7⟩⟩],
        .connected 50021 100) by decide)
  simp only [Prod.mk.injEq] at hview
  obtain ⟨hcount, hsockets, hcall⟩ := hview
  refine ⟨state, trace, hreach, hcount, hsockets, hcall, fun hone => ?_⟩
  have hport := hone.held ⟨⟨1, 7⟩, 50020, 100, ⟨1, 7⟩⟩ (by simp [hsockets]) _ (.inl rfl) _ _ hcall
  cases hport

end Handshake

end Sharpvpn
