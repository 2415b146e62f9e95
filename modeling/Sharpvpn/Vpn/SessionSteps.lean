import Sharpvpn.Rudp.Transfer
import Sharpvpn.Vpn.Session

/-!
# The steps of a session

What the programs see of their sockets, and everything that a step of a server or a client can
do.
-/

namespace Sharpvpn

open Foundation

namespace ReliableSocket

variable {config : Config} {crypto : SharpCrypto} {socket next : ReliableSocket}
  {action : Action} {events : List Event}

/-- A socket that has stopped stays so. -/
theorem workerRunning_of_step (hstep : socket.step config crypto action = some (next, events))
    (hrunning : next.workerRunning = true) : socket.workerRunning = true := by
  cases step_transition hstep with
  | receiver hreceiving => cases hreceiving <;> exact hrunning
  | close | connectionClose => cases hrunning
  | pushed | refused | segment | unpacked | assigned | sender | ackSender | ackHandler | data | ack
  | recvPackage => exact hrunning

/-- Only `send_package` gives a socket a segment. -/
theorem Transition.pushedSegments_eq_nil
    (htransition : socket.Transition config crypto action next events)
    (haction : ∀ segment, action ≠ .sendPackage segment) : pushedSegments events = [] := by
  cases htransition with
  | pushed | refused => exact absurd rfl (haction _)
  | close | segment | unpacked | ack | connectionClose => rfl
  | assigned => exact (pushedSegments_ofSend (SendSide.filter_assignEvents _ _)).1
  | ackSender hsending => cases hsending <;> simp [pushedSegments, Event.pushedSegment?]
  | sender hstep => exact (pushedSegments_ofSend (SendSide.senderStep_transition hstep).ofSend).1
  | ackHandler hstep =>
      exact (pushedSegments_ofSend (SendSide.ackHandlerStep_transition hstep).ofSend).1
  | data _ hcaller =>
      exact (pushedSegments_ofRecv (@RecvSide.Transition.data crypto _ _ _ _ hcaller).ofRecv).1
  | recvPackage hstep =>
      have hmove : socket.recv.step crypto (.recvPackage socket.workerRunning) = _ := hstep
      exact (pushedSegments_ofRecv (RecvSide.step_transition hmove).ofRecv).1
  | receiver hreceiving =>
      cases hreceiving with
      | fastResend =>
          unfold SendSide.fastResendEvents
          split <;> rfl
      | head | queueAck | recvUna | ackRecv | fastResent => rfl

/-- Only `recv_package` returns one. -/
theorem Transition.returnedSegments_eq_nil
    (htransition : socket.Transition config crypto action next events)
    (haction : action ≠ .recvPackage) : returnedSegments events = [] := by
  rw [← returnedSegments_filter]
  cases htransition.halves with
  | still _ _ _ hofRecv | closed _ _ _ _ hofRecv => rw [hofRecv]; rfl
  | send _ hstep => rw [(filter_ofSend hstep).2]; rfl
  | recv hmoves hstep =>
      rw [(filter_ofRecv hstep).1]
      generalize next.recv = recv at hstep
      cases hmoves with
      | recvPackage => exact absurd rfl haction
      | receive =>
          cases RecvSide.step_transition hstep with
          | ack | connectionClose => rfl
          | data =>
              unfold RecvSide.receiveDataEvents
              split <;> rfl
      | close | receiver =>
          cases RecvSide.step_transition hstep
          rfl

/-- A call of `recv_package` is over with a segment, or with -1 on a socket that has stopped. -/
theorem returnedSegments_of_recvPackage
    (hstep : socket.step config crypto .recvPackage = some (next, events)) :
    next.workerRunning = socket.workerRunning ∧
      if next.recv.caller = .idle then
        (∃ segment, returnedSegments events = [segment]) ∨
          (returnedSegments events = [] ∧ socket.workerRunning = false)
      else returnedSegments events = [] := by
  obtain ⟨⟨recv, events⟩, hrecv, heq⟩ := Option.map_eq_some_iff.mp hstep
  cases heq
  refine ⟨rfl, ?_⟩
  have hmove : socket.recv.step crypto (.recvPackage socket.workerRunning) = _ := hrecv
  have htransition := RecvSide.step_transition hmove
  generalize socket.workerRunning = running at htransition ⊢
  cases htransition with
  | buffered hcaller => exact (if_pos hcaller).mpr (.inl ⟨_, rfl⟩)
  | finish => exact (if_pos rfl).mpr (.inl ⟨_, rfl⟩)
  | stop => exact (if_pos rfl).mpr (.inr ⟨rfl, rfl⟩)
  | skip hcaller => exact (if_neg (by simp [hcaller])).mpr rfl
  | enter | wait | take | wake | load => exact (if_neg (by simp)).mpr rfl

end ReliableSocket

section Ends

variable {config : Side → Config} {crypto : SharpCrypto}
  {pair next : Duplex.State ReliableSocket Datagram} {side : Side} {action : Action}
  {events : List (Side × Event)}

namespace connection

/-- What the ends of a connection show of a step: the step of one end. -/
theorem advance_step (hadvance : (connection config crypto).advance pair side action =
      some (next, events)) :
    (pair.ends side).step (config side) crypto action =
        some (next.ends side, Duplex.at_ side events) ∧
      next.ends side.peer = pair.ends side.peer ∧ Duplex.at_ side.peer events = [] := by
  obtain ⟨moved, inner, hinner, -, rfl, rfl⟩ := Duplex.advance_eq_some hadvance
  refine ⟨?_, ?_, Duplex.at_map_ne (Side.ne_peer side) inner⟩
  · rw [Duplex.at_map_self]
    dsimp only
    rw [Function.update_self]
    exact hinner
  · exact Function.update_of_ne (Side.peer_ne side) _ _

theorem alive_of_advance (hadvance : (connection config crypto).advance pair side action =
      some (next, events)) (other : Side) (hrunning : (next.ends other).workerRunning = true) :
    (pair.ends other).workerRunning = true := by
  obtain ⟨hstep, hpeer, -⟩ := advance_step hadvance
  rcases Side.eq_or_eq_peer side other with rfl | rfl
  · exact ReliableSocket.workerRunning_of_step hstep hrunning
  · rwa [hpeer] at hrunning

theorem pushed_of_advance (hadvance : (connection config crypto).advance pair side action =
      some (next, events)) (haction : ∀ segment, action ≠ .sendPackage segment) (other : Side) :
    pushedSegments (Duplex.at_ other events) = [] := by
  obtain ⟨hstep, -, hpeer⟩ := advance_step hadvance
  rcases Side.eq_or_eq_peer side other with rfl | rfl
  · exact (ReliableSocket.step_transition hstep).pushedSegments_eq_nil haction
  · rw [hpeer]
    rfl

theorem returned_of_advance (hadvance : (connection config crypto).advance pair side action =
      some (next, events)) (haction : action ≠ .recvPackage) (other : Side) :
    returnedSegments (Duplex.at_ other events) = [] := by
  obtain ⟨hstep, -, hpeer⟩ := advance_step hadvance
  rcases Side.eq_or_eq_peer side other with rfl | rfl
  · exact (ReliableSocket.step_transition hstep).returnedSegments_eq_nil haction
  · rw [hpeer]
    rfl

end connection

end Ends

/-- The token has come. -/
def FuncSocket.named {Token : Type} : FuncSocket Token → Bool
  | .connected | .cleaning _ | .checking .. | .deleting .. | .erasing .. | .dropping _ | .passing _
  | .stale | .receiving => false
  | .finding _ | .proposing _ | .assigning .. | .binding .. | .recalling _ | .closing ..
  | .disposing .. | .replacing .. | .served => true

/-- The iterator is for the cleanup, before the token. -/
theorem FuncSocket.named_of_itr {Token : Type} {thread : FuncSocket Token} {token : Token}
    (hitr : thread.itr = some token) : thread.named = false := by
  cases thread with
  | cleaning | checking | deleting | erasing | dropping | passing => rfl
  | _ => cases hitr

/-- What a change of the tables leaves as it is, unless it binds an address. -/
structure UserTable.Frame {Token : Type} (table next : UserTable Token) : Prop where
  named : ∀ link, (next.threads link).named = (table.threads link).named
  bound : ∀ ip link, next.ipMap ip = some (some link) → table.ipMap ip = some (some link)

namespace UserTable

variable {Token : Type} [DecidableEq Token] {localTunnelIp : UInt32}
  {table next : UserTable Token} {link : Nat} {events : List (TableEvent Token)}

omit [DecidableEq Token] in
theorem named_goto {thread : FuncSocket Token}
    (hsame : thread.named = (table.threads link).named) (other : Nat) :
    ((table.goto link thread).threads other).named = (table.threads other).named := by
  unfold goto
  by_cases hother : other = link
  · subst hother
    simp [hsame]
  · simp [Function.update_of_ne hother]

omit [DecidableEq Token] in
theorem Frame.goto {thread : FuncSocket Token}
    (hsame : thread.named = (table.threads link).named)
    (hthreads : next.threads = (table.goto link thread).threads)
    (hbound : ∀ ip link, next.ipMap ip = some (some link) → table.ipMap ip = some (some link)) :
    table.Frame next where
  named other := by
    rw [hthreads]
    exact named_goto hsame other
  bound := hbound

omit [DecidableEq Token] in
theorem lookup_bound {ip other : UInt32} {bound : Nat}
    (hbound : (table.lookup ip).ipMap other = some (some bound)) :
    table.ipMap other = some (some bound) := by
  unfold lookup at hbound
  by_cases hother : other = ip
  · subst hother
    simp only [Function.update_self, Option.some.injEq] at hbound
    cases hentry : table.ipMap other with
    | none => simp [hentry] at hbound
    | some entry => simpa [hentry] using hbound
  · simpa [Function.update_of_ne hother] using hbound

/-- A thread that binds no address. -/
theorem run_frame (hrun : table.run localTunnelIp link = some (next, events))
    (hbinding : ∀ token ip, table.threads link ≠ .binding token ip)
    (hreplacing : ∀ token ip, table.threads link ≠ .replacing token ip) :
    table.Frame next := by
  unfold run at hrun
  cases hthread : table.threads link with
  | cleaning itr =>
      cases itr with
      | none =>
          simp only [hthread] at hrun
          cases hrun
          exact .goto (by rw [hthread]; rfl) rfl fun _ _ hbound => hbound
      | some token =>
          simp only [hthread] at hrun
          obtain ⟨ip, -, heq⟩ := Option.map_eq_some_iff.mp hrun
          cases heq
          exact .goto (by rw [hthread]; rfl) rfl fun _ _ hbound => hbound
  | proposing | assigning | recalling =>
      simp only [hthread] at hrun
      cases hrun
      exact .goto (by rw [hthread]; rfl) rfl fun _ _ hbound => hbound
  | deleting | disposing =>
      simp only [hthread] at hrun
      cases hrun
      exact .goto (by rw [hthread]; rfl) rfl fun _ _ hbound => lookup_bound hbound
  | stale =>
      simp only [hthread] at hrun
      cases hrun
      exact ⟨fun _ => rfl, fun _ _ hbound => hbound⟩
  | finding token =>
      simp only [hthread] at hrun
      cases hrun
      refine .goto ?_ rfl fun _ _ hbound => hbound
      rw [hthread]
      split <;> rfl
  | erasing token ip =>
      simp only [hthread] at hrun
      cases hrun
      refine .goto (by rw [hthread]; rfl) rfl fun other link hbound => ?_
      by_cases hother : other = ip
      · subst hother
        simp [UserTable.goto] at hbound
      · simpa [UserTable.goto, Function.update_of_ne hother] using hbound
  | checking token ip =>
      simp only [hthread] at hrun
      split at hrun
      next =>
        cases hrun
        refine .goto ?_ rfl fun _ _ hbound => hbound
        rw [hthread]
        split <;> rfl
      next =>
        cases hrun
        exact ⟨fun _ => rfl, fun _ _ hbound => hbound⟩
  | closing token ip =>
      simp only [hthread] at hrun
      split at hrun
      next =>
        cases hrun
        exact .goto (by rw [hthread]; rfl) rfl fun _ _ hbound => hbound
      next =>
        cases hrun
        exact ⟨fun _ => rfl, fun _ _ hbound => hbound⟩
  | binding token ip => exact absurd hthread (hbinding token ip)
  | replacing token ip => exact absurd hthread (hreplacing token ip)
  | connected | dropping | passing | receiving | served =>
      simp only [hthread] at hrun
      cases hrun

/-- A thread that binds its address to its socket. -/
theorem run_bound {token : Token} {ip : UInt32}
    (hthread : table.threads link = .binding token ip ∨ table.threads link = .replacing token ip)
    (hrun : table.run localTunnelIp link = some (next, events)) :
    (table.threads link).named = true ∧
      (∀ other, (next.threads other).named = (table.threads other).named) ∧
      next.ipMap = Function.update table.ipMap ip (some (some link)) := by
  have hnamed : (table.threads link).named = true := by
    rcases hthread with hthread | hthread <;> rw [hthread] <;> rfl
  have hnext : next = UserTable.goto link .served
      { table with ipMap := Function.update table.ipMap ip (some (some link)) } := by
    unfold run at hrun
    rcases hthread with hthread | hthread <;> simp only [hthread] at hrun <;> cases hrun <;> rfl
  subst hnext
  exact ⟨hnamed, named_goto hnamed.symm, rfl⟩

omit [DecidableEq Token] in
theorem Frame.trans {between : UserTable Token} (hfirst : table.Frame between)
    (hsecond : between.Frame next) : table.Frame next where
  named link := (hsecond.named link).trans (hfirst.named link)
  bound ip link hbound := hfirst.bound ip link (hsecond.bound ip link hbound)

theorem erase_frame (token : Token) : table.Frame (table.erase token) where
  named link := by
    dsimp only [erase]
    split
    next hitr => exact (FuncSocket.named_of_itr hitr).symm
    next => rfl
  bound _ _ hbound := hbound

omit [DecidableEq Token] in
theorem place_frame {itr : Option Token} (hplace : table.place link itr = some (next, events))
    (hnamed : (table.threads link).named = false) : table.Frame next := by
  obtain ⟨-, rfl, -⟩ := place_eq hplace
  refine .goto ?_ rfl fun _ _ hbound => hbound
  exact hnamed.symm

theorem seek_frame {itr : Option Token} (hseek : table.seek link itr = some (next, events)) :
    table.Frame next := by
  unfold seek at hseek
  cases hthread : table.threads link with
  | connected | passing =>
      simp only [hthread] at hseek
      exact place_frame hseek (by rw [hthread]; rfl)
  | dropping token =>
      simp only [hthread] at hseek
      refine (erase_frame token).trans (place_frame hseek ?_)
      rw [(erase_frame token).named, hthread]
      rfl
  | _ => simp [hthread] at hseek

end UserTable

def RecvCall.segments : RecvCall → List Bytes
  | .returned segment => [segment]
  | .pending | .failed => []

namespace VpnNet

def setLink (net : VpnNet) (link : Nat) (pair : Duplex.State ReliableSocket Datagram) : VpnNet :=
  { net with links := Function.update net.links link pair }

/-- The thread at an end of a link is in the loop of `func_socket`. -/
def InLoop (net : VpnNet) (link : Nat) (ip : UInt32) (loop : SocketLoop) : Side → Prop
  | .a => net.joining link = .looping ip loop
  | .b => net.serving link = .looping ip loop

def setLoop (net : VpnNet) (link : Nat) (ip : UInt32) (loop : SocketLoop) : Side → VpnNet
  | .a => net.join link (.looping ip loop)
  | .b => net.serve link (.looping ip loop)

section Loops

variable (net : VpnNet) (link : Nat) (ip : UInt32) (loop : SocketLoop) (side : Side)

@[simp] theorem links_setLoop : (net.setLoop link ip loop side).links = net.links := by
  cases side <;> rfl

@[simp] theorem table_setLoop : (net.setLoop link ip loop side).table = net.table := by
  cases side <;> rfl

@[simp] theorem hosts_setLoop : (net.setLoop link ip loop side).hosts = net.hosts := by
  cases side <;> rfl

theorem InLoop.setLink {net : VpnNet} {link other : Nat} {ip : UInt32} {loop : SocketLoop}
    {side : Side} {pair : Duplex.State ReliableSocket Datagram}
    (hloop : net.InLoop link ip loop side) : (net.setLink other pair).InLoop link ip loop side := by
  cases side <;> exact hloop

end Loops

/-- The forwarder of a host goes on, in silence. -/
inductive ForwarderMove (net : VpnNet) (host : Host) : Forwarder → Forwarder → Prop
  | enter (hstarted : net.started host = true) : ForwarderMove net host .testing .reading
  | exit (hstarted : net.started host = true) : ForwarderMove net host .testing .exited
  | nothing : ForwarderMove net host .reading .testing
  | find {r} : ForwarderMove net host (.finding r) (.looking r)
  | unknown {r} : ForwarderMove net host (.finding r) .testing
  | look {r link} (hbound : net.table.ipMap
      (SharpPackageParser.parsePackage (net.hosts host).tunBuf).daddr = some (some link)) :
      ForwarderMove net host (.looking r) (.checking link r)
  | check {r link} : ForwarderMove net host (.checking link r) (.sending link r)
  | dead {r link} : ForwarderMove net host (.checking link r) .testing

variable (setup : VpnSetup) (net : VpnNet)

/-- A call of `recv_package` at an end of a link is over. -/
structure CallEnds (link : Nat) (side : Side) (pair : Duplex.State ReliableSocket Datagram)
    (events : List (Side × Event)) (call : RecvCall) : Prop where
  advance : (connection (setup.config link) setup.crypto).advance (net.links link) side
    .recvPackage = some (pair, events)
  ended : call ≠ .pending
  returned : returnedSegments (Duplex.at_ side events) = call.segments
  failed : call.segments = [] → (pair.ends side).workerRunning = false

/-- A call of `send_package` at an end of a link. -/
def Sends (link : Nat) (side : Side) (segment : Bytes)
    (pair : Duplex.State ReliableSocket Datagram) (events : List (Side × Event)) : Prop :=
  (connection (setup.config link) setup.crypto).advance (net.links link) side
    (.sendPackage segment) = some (pair, events)

/-- What follows a call of `recv_package` in the loop. -/
def RecvCall.loop : RecvCall → SocketLoop
  | .pending => .receiving
  | .failed => .failed
  | .returned segment => if segment = [] then .testing else .writing segment

/-- Everything a step of a server or a client can do. -/
inductive Transition : VpnNet → List VpnEvent → Prop
  /-- A socket takes a step that gives nothing to the programs, and takes nothing from them. -/
  | socket {link side action pair events}
      (hadvance : (connection (setup.config link) setup.crypto).advance (net.links link) side
        action = some (pair, events))
      (hpushed : ∀ other, pushedSegments (Duplex.at_ other events) = [])
      (hreturned : ∀ other, returnedSegments (Duplex.at_ other events) = []) :
      Transition (net.setLink link pair) (events.map (.socket link))
  | tables {table deleted accepting events} (hframe : net.table.Frame table)
      (hevents : ∀ event ∈ events, event = .nullDereferenced ∨ ∃ inner, event = .table inner) :
      Transition { net with table, deleted, accepting } events
  /-- The old socket of a token is closed. -/
  | closing {old table pair closed} {events : List (TableEvent Bytes)}
      (hframe : net.table.Frame table)
      (hadvance : (connection (setup.config old) setup.crypto).advance (net.links old) .b
        .close = some (pair, closed)) :
      Transition { net.setLink old pair with table }
        (events.map .table ++ closed.map (.socket old))
  /-- A thread receives its token. -/
  | named {link pair events call token} (hserving : net.serving link = .registering)
      (hthread : net.table.threads link = .receiving)
      (hcall : net.CallEnds setup link .b pair events call) :
      Transition { net.setLink link pair with table := net.table.goto link (.finding token) }
        (events.map (.socket link) ++ call.events link .b)
  /-- An address is bound to the socket of a thread. -/
  | bound {link ip table} {events : List (TableEvent Bytes)}
      (hserving : net.serving link = .registering)
      (hnamed : (net.table.threads link).named = true)
      (hthreads : ∀ other, (table.threads other).named = (net.table.threads other).named)
      (hipMap : table.ipMap = Function.update net.table.ipMap ip (some (some link))) :
      Transition (VpnNet.serve { net with table } link (.replying ip)) (events.map .table)
  | replied {link ip pair events} (hserving : net.serving link = .replying ip)
      (hsends : net.Sends setup link .b (infoBytes ip) pair events) :
      Transition ((net.setLink link pair).serve link (.looping ip .testing))
        (events.map (.socket link) ++
          if net.isAlive link .b then [.program link (.b, .greeted (infoBytes ip))] else [])
  /-- A client sends its token. -/
  | asked {link pair events} (hjoining : net.joining link = .connected)
      (hsends : net.Sends setup link .a (setup.token link) pair events) :
      Transition ((net.setLink link pair).join link .awaiting)
        (events.map (.socket link) ++
          if net.isAlive link .a then [.program link (.a, .greeted (setup.token link))]
          else [])
  /-- A client receives its address. -/
  | joined {link pair events call info} (memory : Bytes) (hjoining : net.joining link = .awaiting)
      (hcall : net.CallEnds setup link .a pair events call)
      (hlength : memory.length = dhcpInfoBytes) (hinfo : call.fill memory = some info) :
      Transition ((net.setLink link pair).join link (.looping (infoAt info) .testing))
        (events.map (.socket link) ++ call.events link .a)
  | tested {link side ip} (hloop : net.InLoop link ip .testing side) :
      Transition (net.setLoop link ip
        (if net.isAlive link side then .receiving else .finished) side) []
  | took {link side ip pair events call} (hloop : net.InLoop link ip .receiving side)
      (hcall : net.CallEnds setup link side pair events call) :
      Transition ((net.setLink link pair).setLoop link ip (RecvCall.loop call) side)
        (events.map (.socket link))
  | written {link side ip package} (hloop : net.InLoop link ip (.writing package) side) :
      Transition (net.setLoop link ip .testing side)
        (if (net.hosts (.of link side)).tunnelOpen then [.program link (side, .wrote package)]
          else [])
  | failed {link side ip loop} (hloop : net.InLoop link ip .failed side)
      (hnext : loop = .testing ∨ loop = .finished) :
      Transition (net.setLoop link ip loop side) []
  | read {host package forwarder} (hreading : (net.hosts host).forwarder = .reading)
      (hpositive : 0 < package.length)
      (hnext : forwarder = if passes (readInto (net.hosts host).tunBuf package) then
        host.onward package.length else .testing) :
      Transition (net.setHost host { net.hosts host with
        tunBuf := readInto (net.hosts host).tunBuf package, forwarder }) [.read host package]
  | moved {host forwarder} (hmove : net.ForwarderMove host (net.hosts host).forwarder forwarder) :
      Transition (net.setHost host { net.hosts host with forwarder }) []
  | forwarded {host link r pair events}
      (hsending : (net.hosts host).forwarder = .sending link r)
      (hsends : net.Sends setup link host.side ((net.hosts host).tunBuf.take r) pair events) :
      Transition
        ((net.setLink link pair).setHost host { net.hosts host with forwarder := .testing })
        (events.map (.socket link) ++
          if net.isAlive link host.side then
            [.program link (host.side, .forwarded ((net.hosts host).tunBuf.take r))] else [])
  | stopping {host stopping}
      (hopen : { net.hosts host with stopping }.tunnelOpen = true →
        (net.hosts host).tunnelOpen = true) :
      Transition (net.setHost host { net.hosts host with stopping }) []
  /-- `stop` of a client closes its socket. -/
  | stopped {link pair events}
      (hadvance : (connection (setup.config link) setup.crypto).advance (net.links link) .a
        .close = some (pair, events)) :
      Transition ((net.setLink link pair).setHost (.client link)
        { net.hosts (.client link) with stopping := .closed }) (events.map (.socket link))

variable {setup : VpnSetup} {net next : VpnNet} {link : Nat} {side : Side} {action : Action}
  {events : List VpnEvent}

theorem socketStep_eq (hstep : net.socketStep setup link side action = some (next, events)) :
    ∃ pair inner, (connection (setup.config link) setup.crypto).advance (net.links link) side
        action = some (pair, inner) ∧
      next = net.setLink link pair ∧ events = inner.map (.socket link) := by
  obtain ⟨⟨pair, inner⟩, hadvance, heq⟩ := Option.map_eq_some_iff.mp hstep
  cases heq
  exact ⟨pair, inner, hadvance, rfl, rfl⟩

theorem Transition.ofThread (hthread : action.ofThread = true)
    (hstep : net.socketStep setup link side action = some (next, events)) :
    net.Transition setup next events := by
  obtain ⟨pair, inner, hadvance, rfl, rfl⟩ := socketStep_eq hstep
  refine .socket hadvance (connection.pushed_of_advance hadvance ?_)
    (connection.returned_of_advance hadvance ?_)
  · rintro segment rfl
    cases hthread
  · rintro rfl
    cases hthread

theorem sendPackage_eq {segment : Bytes} {event : ProgramEvent}
    (hstep : net.sendPackage setup link side segment event = some (next, events)) :
    ∃ pair inner, net.Sends setup link side segment pair inner ∧ next = net.setLink link pair ∧
      events = inner.map (.socket link) ++
        if net.isAlive link side then [.program link (side, event)] else [] := by
  obtain ⟨⟨sent, inner⟩, hsocket, heq⟩ := Option.map_eq_some_iff.mp hstep
  cases heq
  obtain ⟨pair, inner, hadvance, rfl, rfl⟩ := socketStep_eq hsocket
  exact ⟨pair, inner, hadvance, rfl, rfl⟩

/-- A step of `recv_package` ends the call, or nothing comes of it. -/
theorem recvPackage_eq {call : RecvCall}
    (hstep : net.recvPackage setup link side = some (next, events, call)) :
    ∃ pair inner, next = net.setLink link pair ∧ events = inner.map (.socket link) ∧
      ((call = .pending ∧ net.Transition setup next events) ∨
        (call ≠ .pending ∧ net.CallEnds setup link side pair inner call)) := by
  obtain ⟨⟨pair, inner⟩, hadvance, heq⟩ := Option.map_eq_some_iff.mp hstep
  cases heq
  obtain ⟨hlocal, -, hpeer⟩ := connection.advance_step hadvance
  obtain ⟨hrunning, hreturned⟩ := ReliableSocket.returnedSegments_of_recvPackage hlocal
  have hlist : inner.map Prod.snd = Duplex.at_ side inner := by
    obtain ⟨moved, local', -, -, -, rfl⟩ := Duplex.advance_eq_some hadvance
    simp
  refine ⟨pair, inner, rfl, rfl, ?_⟩
  dsimp only
  rw [hlist]
  split at hreturned
  next hidle =>
    rw [if_pos hidle]
    right
    rcases hreturned with ⟨segment, hsegment⟩ | ⟨hnone, hdead⟩
    · simp only [hsegment]
      exact ⟨nofun, hadvance, nofun, hsegment, nofun⟩
    · simp only [hnone]
      exact ⟨nofun, hadvance, nofun, hnone, fun _ => hrunning.trans hdead⟩
  next hbusy =>
    rw [if_neg hbusy]
    refine .inl ⟨rfl, .socket hadvance (connection.pushed_of_advance hadvance nofun) ?_⟩
    intro other
    rcases Side.eq_or_eq_peer side other with rfl | rfl
    · exact hreturned
    · rw [hpeer]
      rfl

theorem setLoop_self {ip : UInt32} {loop : SocketLoop} (hloop : net.InLoop link ip loop side) :
    net.setLoop link ip loop side = net := by
  cases side with
  | a =>
      have hsame : net.joining link = .looping ip loop := hloop
      simp [setLoop, join, ← hsame]
  | b =>
      have hsame : net.serving link = .looping ip loop := hloop
      simp [setLoop, serve, ← hsame]

theorem loopStep_transition {ip : UInt32} {loop moved : SocketLoop} {again : Bool}
    (hloop : net.InLoop link ip loop side)
    (hstep : net.loopStep setup link side again loop = some (next, events, moved)) :
    net.Transition setup (next.setLoop link ip moved side) events := by
  cases loop with
  | testing =>
      cases hstep
      exact .tested hloop
  | receiving =>
      obtain ⟨⟨called, inner, call⟩, hrecv, heq⟩ := Option.map_eq_some_iff.mp hstep
      cases heq
      obtain ⟨pair, inner, rfl, rfl, ⟨rfl, hpending⟩ | ⟨hover, hcall⟩⟩ := recvPackage_eq hrecv
      · rwa [setLoop_self hloop.setLink]
      · have htook := Transition.took hloop hcall
        cases call with
        | pending => exact absurd rfl hover
        | failed | returned => exact htook
  | writing package =>
      cases hstep
      exact .written hloop
  | failed =>
      cases hstep
      refine .failed hloop ?_
      cases again with
      | true => exact .inl rfl
      | false => exact .inr rfl
  | finished => cases hstep

theorem forall_mem_map_table {inner : List (TableEvent Bytes)} :
    ∀ event ∈ inner.map VpnEvent.table,
      event = .nullDereferenced ∨ ∃ inner, event = .table inner := by
  intro event hevent
  obtain ⟨inner, -, rfl⟩ := List.mem_map.mp hevent
  exact .inr ⟨inner, rfl⟩

theorem runTable_eq (hrun : net.runTable setup link = some (next, events)) :
    ∃ table inner, net.tables.run setup.localTunnelIp link = some (table, inner) ∧
      next = { net with table } ∧ events = inner.map .table := by
  obtain ⟨⟨table, inner⟩, htable, heq⟩ := Option.map_eq_some_iff.mp hrun
  cases heq
  exact ⟨table, inner, htable, rfl, rfl⟩

/-- A thread that binds no address works on the tables. -/
theorem runTable_transition (hrun : net.runTable setup link = some (next, events))
    (hbinding : ∀ token ip, net.table.threads link ≠ .binding token ip)
    (hreplacing : ∀ token ip, net.table.threads link ≠ .replacing token ip) :
    net.Transition setup next events := by
  obtain ⟨table, inner, htable, rfl, rfl⟩ := runTable_eq hrun
  have hframe := UserTable.run_frame htable hbinding hreplacing
  exact .tables ⟨hframe.named, hframe.bound⟩ forall_mem_map_table

theorem discard_eq (net : VpnNet) (socket : Option Nat) :
    ∃ deleted, net.discard socket = { net with deleted } := by
  cases socket with
  | none => exact ⟨net.deleted, rfl⟩
  | some link => exact ⟨_, rfl⟩

theorem register_transition {memory : Bytes} (hserving : net.serving link = .registering)
    (hstep : net.register setup link memory = some (next, events)) :
    net.Transition setup next events := by
  unfold register at hstep
  cases hthread : net.table.threads link with
  | receiving =>
      simp only [hthread] at hstep
      obtain ⟨⟨called, inner, call⟩, hrecv, hcontinue⟩ := Option.bind_eq_some_iff.mp hstep
      obtain ⟨pair, inner, rfl, rfl, ⟨rfl, hpending⟩ | ⟨hended, hcall⟩⟩ := recvPackage_eq hrecv
      · cases hcontinue
        exact hpending
      · cases call with
        | pending => exact absurd rfl hended
        | failed | returned =>
            dsimp only at hcontinue
            split at hcontinue
            next =>
              obtain ⟨token, -, heq⟩ := Option.map_eq_some_iff.mp hcontinue
              cases heq
              exact .named hserving hthread hcall
            next => cases hcontinue
  | closing token ip =>
      simp only [hthread] at hstep
      obtain ⟨ran, hrun, hcontinue⟩ := Option.bind_eq_some_iff.mp hstep
      split at hcontinue
      next old hold =>
        obtain ⟨closed, hclosed, heq⟩ := Option.map_eq_some_iff.mp hcontinue
        cases heq
        obtain ⟨table, inner, htable, hran, hinner⟩ := runTable_eq hrun
        have hframe := UserTable.run_frame htable (by simp [tables, hthread])
          (by simp [tables, hthread])
        obtain ⟨ran, ranEvents⟩ := ran
        dsimp only at hran hinner hclosed
        subst hran hinner
        obtain ⟨pair, local', hadvance, hnext, hevents⟩ := socketStep_eq hclosed
        rw [hnext, hevents]
        exact .closing ⟨hframe.named, hframe.bound⟩ hadvance
      next =>
        cases hcontinue
        exact runTable_transition hrun (by simp [hthread]) (by simp [hthread])
  | binding token ip | replacing token ip =>
      simp only [hthread] at hstep
      obtain ⟨⟨ran, ranEvents⟩, hrun, heq⟩ := Option.map_eq_some_iff.mp hstep
      cases heq
      obtain ⟨table, inner, htable, rfl, rfl⟩ := runTable_eq hrun
      obtain ⟨hnamed, hthreads, hipMap⟩ :=
        @UserTable.run_bound _ _ _ _ _ _ _ token ip (by simp [tables, hthread]) htable
      exact .bound hserving hnamed hthreads hipMap
  | deleting token ip | disposing token ip =>
      simp only [hthread] at hstep
      obtain ⟨⟨ran, ranEvents⟩, hrun, heq⟩ := Option.map_eq_some_iff.mp hstep
      cases heq
      obtain ⟨table, inner, htable, rfl, rfl⟩ := runTable_eq hrun
      have hframe := UserTable.run_frame htable (by simp [tables, hthread])
        (by simp [tables, hthread])
      obtain ⟨deleted, hdeleted⟩ := discard_eq { net with table } (net.table.ipMap ip).join
      rw [hdeleted]
      exact .tables ⟨hframe.named, hframe.bound⟩ forall_mem_map_table
  | connected | cleaning | checking | erasing | dropping | passing | stale | finding | proposing
  | assigning | recalling | served =>
      simp only [hthread] at hstep
      exact runTable_transition hstep (by simp [hthread]) (by simp [hthread])

theorem serverStep_transition {memory : Bytes} {again : Bool}
    (hstep : net.serverStep setup link memory again = some (next, events)) :
    net.Transition setup next events := by
  unfold serverStep at hstep
  split at hstep
  next hserving => exact register_transition hserving hstep
  next ip hserving =>
    obtain ⟨⟨sent, inner⟩, hsend, heq⟩ := Option.map_eq_some_iff.mp hstep
    cases heq
    obtain ⟨pair, inner, hsends, rfl, rfl⟩ := sendPackage_eq hsend
    exact .replied hserving hsends
  next ip loop hserving =>
    obtain ⟨⟨turned, inner, moved⟩, hloop, heq⟩ := Option.map_eq_some_iff.mp hstep
    cases heq
    exact @loopStep_transition _ _ _ _ .b _ _ _ _ _ hserving hloop

theorem clientStep_transition {memory : Bytes} {again : Bool}
    (hstep : net.clientStep setup link memory again = some (next, events)) :
    net.Transition setup next events := by
  unfold clientStep at hstep
  split at hstep
  next hjoining =>
    obtain ⟨⟨sent, inner⟩, hsend, heq⟩ := Option.map_eq_some_iff.mp hstep
    cases heq
    obtain ⟨pair, inner, hsends, rfl, rfl⟩ := sendPackage_eq hsend
    exact .asked hjoining hsends
  next hjoining =>
    obtain ⟨⟨called, inner, call⟩, hrecv, hcontinue⟩ := Option.bind_eq_some_iff.mp hstep
    obtain ⟨pair, inner, rfl, rfl, ⟨rfl, hpending⟩ | ⟨hended, hcall⟩⟩ := recvPackage_eq hrecv
    · cases hcontinue
      exact hpending
    · cases call with
      | pending => exact absurd rfl hended
      | failed | returned =>
          dsimp only at hcontinue
          split at hcontinue
          next hlength =>
            obtain ⟨info, hinfo, heq⟩ := Option.map_eq_some_iff.mp hcontinue
            cases heq
            exact .joined memory hjoining hcall hlength hinfo
          next => cases hcontinue
  next ip loop hjoining =>
    obtain ⟨⟨turned, inner, moved⟩, hloop, heq⟩ := Option.map_eq_some_iff.mp hstep
    cases heq
    exact @loopStep_transition _ _ _ _ .a _ _ _ _ _ hjoining hloop

theorem readStep_transition {host : Host} {package : Bytes}
    (hstep : net.readStep host package = some (next, events)) :
    net.Transition setup next events := by
  unfold readStep at hstep
  dsimp only at hstep
  split at hstep
  next hread =>
    cases hstep
    exact .read hread.1 hread.2.2.1 rfl
  next => cases hstep

theorem forwardStep_transition {host : Host}
    (hstep : net.forwardStep setup host = some (next, events)) :
    net.Transition setup next events := by
  unfold forwardStep at hstep
  dsimp only at hstep
  cases hforwarder : (net.hosts host).forwarder with
  | testing =>
      simp only [hforwarder] at hstep
      split at hstep
      next hstarted =>
        cases hstep
        refine .moved ?_
        rw [hforwarder]
        split
        next => exact .enter hstarted
        next => exact .exit hstarted
      next => cases hstep
  | reading =>
      simp only [hforwarder] at hstep
      cases hstep
      refine .moved ?_
      rw [hforwarder]
      exact .nothing
  | finding r =>
      simp only [hforwarder] at hstep
      cases hstep
      refine .moved ?_
      rw [hforwarder]
      split
      next => exact .find
      next => exact .unknown
  | looking r =>
      simp only [hforwarder] at hstep
      split at hstep
      next link hbound =>
        cases hstep
        refine .moved ?_
        rw [hforwarder]
        exact .look hbound
      next =>
        cases hstep
        refine .tables ⟨fun _ => rfl, fun other link hbound => ?_⟩ fun event hevent =>
          .inl (List.mem_singleton.mp hevent)
        by_cases hother : other = (SharpPackageParser.parsePackage (net.hosts host).tunBuf).daddr
        · simp [hother] at hbound
        · simpa [Function.update_of_ne hother] using hbound
  | checking link r =>
      simp only [hforwarder] at hstep
      cases hstep
      refine .moved ?_
      rw [hforwarder]
      split
      next => exact .check
      next => exact .dead
  | sending link r =>
      simp only [hforwarder] at hstep
      obtain ⟨⟨sent, inner⟩, hsend, heq⟩ := Option.map_eq_some_iff.mp hstep
      cases heq
      obtain ⟨pair, inner, hsends, rfl, rfl⟩ := sendPackage_eq hsend
      exact .forwarded hforwarder hsends
  | exited =>
      simp only [hforwarder] at hstep
      cases hstep

theorem stopStep_transition {host : Host}
    (hstep : net.stopStep setup host = some (next, events)) :
    net.Transition setup next events := by
  unfold stopStep at hstep
  dsimp only at hstep
  split at hstep
  next hstopping =>
    cases hstep
    exact .stopping fun _ => by simp [SharpVpn.tunnelOpen, hstopping]
  next =>
    cases hstep
    exact .stopping nofun
  next =>
    cases hstep
    exact .stopping nofun
  next link hstopping =>
    obtain ⟨⟨closed, inner⟩, hclose, heq⟩ := Option.map_eq_some_iff.mp hstep
    cases heq
    obtain ⟨pair, inner, hadvance, rfl, rfl⟩ := socketStep_eq hclose
    exact .stopped hadvance
  next => cases hstep

theorem step_transition {action : VpnAction}
    (hstep : (vpnMachine setup).step net action = some (next, events)) :
    net.Transition setup next events := by
  unfold vpnMachine at hstep
  dsimp only at hstep
  split at hstep
  next => cases hstep
  next =>
    cases action with
    | socket link side action =>
        simp only [step] at hstep
        split at hstep
        next hthread => exact .ofThread hthread hstep
        next => cases hstep
    | accept =>
        simp only [step] at hstep
        split at hstep
        next =>
          cases hstep
          exact .tables ⟨fun _ => rfl, fun _ _ hbound => hbound⟩ nofun
        next => cases hstep
    | seek link itr =>
        simp only [step] at hstep
        split at hstep
        next =>
          obtain ⟨⟨table, inner⟩, hseek, heq⟩ := Option.map_eq_some_iff.mp hstep
          cases heq
          have hframe := UserTable.seek_frame hseek
          exact .tables ⟨hframe.named, hframe.bound⟩ forall_mem_map_table
        next => cases hstep
    | serve link memory again =>
        simp only [step] at hstep
        split at hstep
        next => exact serverStep_transition hstep
        next => cases hstep
    | join link memory again => exact clientStep_transition hstep
    | read host package => exact readStep_transition hstep
    | forward host => exact forwardStep_transition hstep
    | stop host => exact stopStep_transition hstep

end VpnNet

end Sharpvpn
