import Sharpvpn.Rudp.Handshake

/-!
# The negotiated speeds

A request carries what its client can take. The reply has a field for what the server can
take, but the server writes there how fast it is going to send; what it can take nobody reads.
-/

namespace Sharpvpn

open Foundation

namespace Handshake

variable {speeds : Speeds} {state next : Handshake} {action : HandshakeAction}
  {trace events : List Accepted} {client : SockaddrIn} {localPort : Nat}

/-- The first datagram that comes back to a client is its reply. -/
def ReplyIntact : HandshakeAction → Prop
  | .receive _ datagram _ => datagram ≠ .ping
  | _ => True

instance : (action : HandshakeAction) → Decidable (ReplyIntact action)
  | .receive .. => inferInstanceAs (Decidable (_ ≠ _))
  | .connectAddr _ | .timeout _ | .arrive .. | .accept .. | .stop _ | .clientSender _
  | .clientReceiver .. | .serverSender _ | .serverReceiver .. => instDecidableTrue

/-- Each end sends as fast as it can and the other end can take. -/
structure Negotiated (speeds : Speeds) (serverDownloadSpeed : Int) (client : SockaddrIn)
    (state : Handshake) : Prop where
  server : ∀ socket ∈ state.sockets, socket.peer = client →
    socket.sendSpeed = min speeds.serverUploadSpeed (speeds.downloadSpeed client)
  client : ∀ port sendSpeed, state.calls client = .connected port sendSpeed →
    sendSpeed = min (speeds.uploadSpeed client) serverDownloadSpeed

/-- What the speeds in the messages and in the sockets are made of. -/
structure Rated (speeds : Speeds) (state : Handshake) : Prop where
  requests : ∀ peer downloadSpeed, (peer, downloadSpeed) ∈ state.requests →
    downloadSpeed = speeds.downloadSpeed peer
  queue : ∀ request ∈ state.queue, request ∈ state.requests
  replies : ∀ peer reply, (peer, .createR reply) ∈ state.replies →
    reply.downloadSpeed = min (speeds.downloadSpeed peer) speeds.serverUploadSpeed
  sockets : ∀ socket ∈ state.sockets,
    socket.sendSpeed = min (speeds.downloadSpeed socket.peer) speeds.serverUploadSpeed
  calls : ∀ peer port sendSpeed, state.calls peer = .connected port sendSpeed →
    sendSpeed = min (min (speeds.downloadSpeed peer) speeds.serverUploadSpeed)
      (speeds.uploadSpeed peer)

theorem Rated.step (hrated : state.Rated speeds)
    (htransition : state.Transition speeds action next events) (hintact : ReplyIntact action) :
    next.Rated speeds := by
  cases htransition with
  | clientSent | serverSent =>
      exact ⟨hrated.requests, hrated.queue, hrated.replies, hrated.sockets, hrated.calls⟩
  | @sent _ sender call hcall =>
      refine ⟨?_, fun request hmem => List.mem_cons_of_mem _ (hrated.queue request hmem),
        hrated.replies, hrated.sockets,
        forall_connected_update hrated.calls fun port sendSpeed hconnected =>
          absurd hconnected (hcall port sendSpeed)⟩
      intro peer downloadSpeed hmem
      rcases List.mem_cons.mp hmem with hnew | hold
      · obtain ⟨rfl, rfl⟩ := Prod.mk.inj hnew
        rfl
      · exact hrated.requests peer downloadSpeed hold
  | @received receiver datagram binded hmem =>
      refine ⟨hrated.requests, hrated.queue, hrated.replies, hrated.sockets,
        forall_connected_update hrated.calls fun port sendSpeed hconnected => ?_⟩
      obtain ⟨reply, rfl, -, rfl⟩ := receiveReply_eq_connected hintact hconnected
      rw [hrated.replies receiver reply hmem]
  | @arrived peer downloadSpeed hmem =>
      refine ⟨hrated.requests, ?_, hrated.replies, hrated.sockets, hrated.calls⟩
      intro request hrequest
      rcases List.mem_cons.mp hrequest with rfl | hold
      · exact hmem
      · exact hrated.queue request hold
  | @accepted peer downloadSpeed foreign port now hmem =>
      obtain rfl := hrated.requests peer downloadSpeed (hrated.queue _ hmem)
      refine ⟨hrated.requests,
        fun request hrequest => hrated.queue request (List.mem_of_mem_erase hrequest), ?_, ?_,
        hrated.calls⟩
      · intro other reply hmem
        simp only [List.mem_cons, Prod.mk.injEq, reduceCtorEq, and_false, false_or,
          ToClient.createR.injEq] at hmem
        rcases hmem with ⟨rfl, rfl⟩ | hold
        · rfl
        · exact hrated.replies other reply hold
      · intro socket hsocket
        rcases List.mem_cons.mp hsocket with rfl | hold
        · rfl
        · exact hrated.sockets socket hold
  | stopped =>
      exact ⟨hrated.requests, hrated.queue, hrated.replies,
        fun socket hsocket => hrated.sockets socket (List.mem_of_mem_filter hsocket), hrated.calls⟩
  | @clientReceived receiver source port sendSpeed hcall =>
      refine ⟨hrated.requests, hrated.queue, hrated.replies, hrated.sockets,
        forall_connected_update hrated.calls fun port sendSpeed hconnected => ?_⟩
      cases hconnected
      exact hrated.calls receiver _ _ hcall
  | serverReceived =>
      refine ⟨hrated.requests, hrated.queue, hrated.replies, ?_, hrated.calls⟩
      intro socket hsocket
      obtain ⟨old, hold, rfl⟩ := List.mem_map.mp hsocket
      split
      next => exact hrated.sockets old hold
      next => exact hrated.sockets old hold

/-- The server's socket has the speed of both ends. The client's has it when what the server
writes is what it can take, or when the client is the slowest of all. -/
theorem speeds_negotiated_iff {port : Nat} {sendSpeed : Int} (serverDownloadSpeed : Int)
    (hreach : (handshakeMachine speeds).Reach (fun _ _ action _ => ReplyIntact action)
      { localPort } state trace)
    (hconnected : state.calls client = .connected port sendSpeed) :
    state.Negotiated speeds serverDownloadSpeed client ↔
      serverDownloadSpeed = min (speeds.downloadSpeed client) speeds.serverUploadSpeed ∨
        speeds.uploadSpeed client ≤ min (min (speeds.downloadSpeed client)
          speeds.serverUploadSpeed) serverDownloadSpeed := by
  have hrated := hreach.invariant (fun state _ => state.Rated speeds)
    ⟨by rintro _ _ ⟨⟩, by rintro _ ⟨⟩, by rintro _ _ ⟨⟩, by rintro _ ⟨⟩, by rintro _ _ _ ⟨⟩⟩
    fun _ _ _ _ _ hrated hstep hintact => hrated.step (step_transition hstep) hintact
  have hspeed := hrated.calls client port sendSpeed hconnected
  constructor
  · intro hnegotiated
    have hagreed := hnegotiated.client port sendSpeed hconnected
    omega
  · intro hcondition
    constructor
    · rintro socket hsocket rfl
      rw [hrated.sockets socket hsocket]
      exact Int.min_comm _ _
    · intro otherPort otherSpeed hother
      have hother := hrated.calls client otherPort otherSpeed hother
      omega

/-- A client with the slowest upload of all. -/
theorem speeds_negotiated_slow : ∃ state trace,
    (handshakeMachine ⟨fun _ => 100, fun _ => 20, 50⟩).Reach
      (fun _ _ action _ => ReplyIntact action) { localPort := 50010 } state trace ∧
    state.calls ⟨1, 7⟩ = .connected 50020 20 ∧
    state.sockets = [⟨⟨1, 7⟩, 50020, 50, ⟨1, 7⟩⟩] ∧
    state.Negotiated ⟨fun _ => 100, fun _ => 20, 50⟩ 30 ⟨1, 7⟩ := by
  obtain ⟨state, trace, hreach, hview⟩ := Machine.reach_of_exec
    (fun (state : Handshake) (_ : List Accepted) => (state.calls ⟨1, 7⟩, state.sockets))
    (show ((handshakeMachine ⟨fun _ => 100, fun _ => 20, 50⟩).exec
      (fun _ _ action _ => ReplyIntact action) { localPort := 50010 } []
      [.connectAddr ⟨1, 7⟩, .arrive ⟨1, 7⟩ 100, .accept ⟨1, 7⟩ 100 [],
        .receive ⟨1, 7⟩ (.createR ⟨50020, 50⟩) true]).map _ =
      some (.connected 50020 20, [⟨⟨1, 7⟩, 50020, 50, ⟨1, 7⟩⟩]) by decide)
  simp only [Prod.mk.injEq] at hview
  obtain ⟨hcall, hsockets⟩ := hview
  exact ⟨state, trace, hreach, hcall, hsockets,
    (speeds_negotiated_iff 30 hreach hcall).mpr (.inr (by decide))⟩

/-- A server that can take 30 and sends with 100: its client sends with 50. -/
theorem server_overrun : ∃ state trace,
    (handshakeMachine ⟨fun _ => 100, fun _ => 50, 100⟩).Reach
      (fun _ _ action _ => ReplyIntact action) { localPort := 50010 } state trace ∧
    state.calls ⟨1, 7⟩ = .connected 50020 50 ∧
    ¬state.Negotiated ⟨fun _ => 100, fun _ => 50, 100⟩ 30 ⟨1, 7⟩ := by
  obtain ⟨state, trace, hreach, hcall⟩ := Machine.reach_of_exec
    (fun (state : Handshake) (_ : List Accepted) => state.calls ⟨1, 7⟩)
    (show ((handshakeMachine ⟨fun _ => 100, fun _ => 50, 100⟩).exec
      (fun _ _ action _ => ReplyIntact action) { localPort := 50010 } []
      [.connectAddr ⟨1, 7⟩, .arrive ⟨1, 7⟩ 100, .accept ⟨1, 7⟩ 100 [],
        .receive ⟨1, 7⟩ (.createR ⟨50020, 100⟩) true]).map _ =
      some (.connected 50020 50) by decide)
  refine ⟨state, trace, hreach, hcall, fun hnegotiated => ?_⟩
  have hspeed := hnegotiated.client 50020 50 hcall
  exact absurd hspeed (by decide)

end Handshake

end Sharpvpn
