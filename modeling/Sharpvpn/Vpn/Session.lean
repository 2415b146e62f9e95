import Sharpvpn.Rudp.Connection
import Sharpvpn.Vpn.PackageParser
import Sharpvpn.Vpn.Token
import Sharpvpn.Vpn.UserTable

/-!
# A server and its clients

The server accepts any number of clients, each over a link of its own. A client sends its token
and waits for an address. `func_socket` on the server receives the token, gives it an address in
the tables and sends this address. From then on a thread at each end of the link writes what it
receives to the tunnel, and the forwarder of each host sends what it reads from the tunnel: that
of a client over its link, that of the server over the link `ip_map` has for the destination.
Threads, network and tunnels take their steps in any order.

The server deletes a socket when a handshake finds it dead, or has closed it. The threads that
still work with it do not know.
-/

namespace Sharpvpn

open Foundation

inductive Host
  | server
  | client (link : Nat)
  deriving DecidableEq, Repr

/-- The host at an end of a link: the client's is `a`. -/
def Host.of (link : Nat) : Side → Host
  | .a => .client link
  | .b => .server

def Host.side : Host → Side
  | .server => .b
  | .client _ => .a

/-- The loop of `func_socket`. -/
inductive SocketLoop
  /-- At `is_alive`. -/
  | testing
  /-- In `recv_package`. -/
  | receiving
  | writing (package : Bytes)
  /-- `recv_package` has returned -1, and `errno` is looked at. -/
  | failed
  | finished
  deriving DecidableEq

/-- `func_socket` on the server. -/
inductive ServerThread
  /-- Before the reply, where the tables say. -/
  | registering
  /-- `send_package` of the address is next. -/
  | replying (ip : UInt32)
  | looping (ip : UInt32) (loop : SocketLoop)

/-- `run` of a client, and the `func_socket` it starts. -/
inductive ClientThread
  /-- `send_package` of the token is next. -/
  | connected
  /-- In the `recv_package` of the address. -/
  | awaiting
  | looping (ip : UInt32) (loop : SocketLoop)

/-- The loop `run` ends with. The package is the first `r` bytes of the buffer. -/
inductive Forwarder
  /-- At the test of `running`. -/
  | testing
  /-- In `read`. -/
  | reading
  /-- `ip_map.find` is next. -/
  | finding (r : Nat)
  /-- `ip_map[...]` is next. -/
  | looking (r : Nat)
  /-- `is_alive` is next. -/
  | checking (link r : Nat)
  /-- `send_package` is next. -/
  | sending (link r : Nat)
  | exited
  deriving DecidableEq

/-- What a forwarder does with a package it does not skip. -/
def Host.onward (r : Nat) : Host → Forwarder
  | .server => .finding r
  | .client link => .sending link r

/-- How far `stop` has got. -/
inductive Stopping
  | running
  /-- `running` is false. -/
  | stopped
  /-- The tunnel is shut down. -/
  | shut
  /-- The client's socket is closed. -/
  | closed
  deriving DecidableEq

/-- What a host has beside its sockets and tables. -/
structure SharpVpn where
  forwarder : Forwarder := .testing
  tunBuf : Bytes
  stopping : Stopping := .running

namespace SharpVpn

def running (vpn : SharpVpn) : Bool := vpn.stopping == .running

def tunnelOpen (vpn : SharpVpn) : Bool := vpn.stopping == .running || vpn.stopping == .stopped

end SharpVpn

/-- What is configured: the arguments of each host, and the key they share. -/
structure VpnSetup where
  config : Nat → Side → Config
  crypto : SharpCrypto
  token : Nat → Bytes
  localTunnelIp : UInt32

structure VpnNet where
  links : Nat → Duplex.State ReliableSocket Datagram
  /-- The tables of the server. What is alive is for the sockets to say. -/
  table : UserTable Bytes := {}
  /-- The links whose socket the server has deleted. -/
  deleted : Nat → Bool := fun _ => false
  /-- The accept thread is in `accept_connection`. -/
  accepting : Bool := true
  serving : Nat → ServerThread := fun _ => .registering
  joining : Nat → ClientThread := fun _ => .connected
  hosts : Host → SharpVpn

/-- What the program does with the socket at an end of a link. -/
inductive ProgramEvent
  /-- A token or an address has been put on the list of the socket. -/
  | greeted (segment : Bytes)
  /-- The call that waits for a token or an address has returned. -/
  | received (segment : Bytes)
  /-- The forwarder has put a package on the list of the socket. -/
  | forwarded (package : Bytes)
  /-- A package that has come has been written to the tunnel. -/
  | wrote (package : Bytes)
  deriving DecidableEq, Repr

inductive VpnEvent
  | socket (link : Nat) (event : Side × Event)
  | program (link : Nat) (event : Side × ProgramEvent)
  | table (event : TableEvent Bytes)
  | read (host : Host) (package : Bytes)
  /-- The forwarder of the server has dereferenced a null pointer. -/
  | nullDereferenced
  deriving DecidableEq

inductive VpnAction
  /-- A thread of a socket, which may take a datagram. -/
  | socket (link : Nat) (side : Side) (action : Action)
  | accept
  /-- The cleanup loop of `func_socket` puts its iterator on an entry, or at the end. -/
  | seek (link : Nat) (itr : Option Bytes)
  /-- Any other step of `func_socket` on the server. `memory` is what its buffer held; `again`
  says that `errno` is one that is passed over. -/
  | serve (link : Nat) (memory : Bytes) (again : Bool)
  /-- `run` or `func_socket` of a client. -/
  | join (link : Nat) (memory : Bytes) (again : Bool)
  | read (host : Host) (package : Bytes)
  | forward (host : Host)
  /-- The next step of `stop`, which other threads and `func_socket` of a client call. -/
  | stop (host : Host)

def VpnAction.host : VpnAction → Host
  | .socket link side _ => .of link side
  | .accept | .seek .. | .serve .. => .server
  | .join link .. => .client link
  | .read host _ | .forward host | .stop host => host

/-- The actions of a socket's own threads. -/
def Action.ofThread : Action → Bool
  | .sendPackage _ | .close | .recvPackage => false
  | .segment _ | .sender | .ackSender | .ackHandler _ | .receive _ | .receiver => true

/-- A `SharpDhcpInfo`, as it is sent. -/
def infoBytes (ip : UInt32) : Bytes := (octets ip).map UInt8.ofNat

/-- The `ip` of the `SharpDhcpInfo` at the start of a memory. -/
def infoAt (memory : Bytes) : UInt32 := SharpPackageParser.wordAt memory 0

/-- How a call of `recv_package` stands after one of its steps. -/
inductive RecvCall
  | pending
  | failed
  | returned (segment : Bytes)

/-- A buffer with a segment copied to its start. `none`: it is too long for the buffer. -/
def RecvCall.fill (buffer : Bytes) : RecvCall → Option Bytes
  | .returned segment =>
      if segment.length ≤ buffer.length then some (segment ++ buffer.drop segment.length) else none
  | .pending | .failed => some buffer

/-- The length of the array for the token. -/
def tokenBytes : Nat := 24

/-- `sizeof(SharpDhcpInfo)` -/
def dhcpInfoBytes : Nat := 4

def RecvCall.events (link : Nat) (side : Side) : RecvCall → List VpnEvent
  | .returned segment => [.program link (side, .received segment)]
  | .pending | .failed => []

namespace VpnNet

variable (setup : VpnSetup) (net : VpnNet)

def init (memory : Nat → Side → Memory) (buffers : Host → Bytes) : VpnNet where
  links link := connection.start (memory link)
  hosts host := { tunBuf := buffers host }

def isAlive (link : Nat) (side : Side) : Bool := ((net.links link).ends side).workerRunning

/-- The tables, with the sockets that are alive. -/
def tables : UserTable Bytes := { net.table with alive := fun link => net.isAlive link .b }

def setHost (host : Host) (vpn : SharpVpn) : VpnNet :=
  { net with hosts := Function.update net.hosts host vpn }

def serve (link : Nat) (thread : ServerThread) : VpnNet :=
  { net with serving := Function.update net.serving link thread }

def join (link : Nat) (thread : ClientThread) : VpnNet :=
  { net with joining := Function.update net.joining link thread }

/-- A step of the socket at an end of a link. -/
def socketStep (link : Nat) (side : Side) (action : Action) : Option (VpnNet × List VpnEvent) :=
  ((connection (setup.config link) setup.crypto).advance (net.links link) side action).map
    fun result =>
      ({ net with links := Function.update net.links link result.1 },
        result.2.map (.socket link))

/-- `send_package`; the event is that the socket has taken the segment. -/
def sendPackage (link : Nat) (side : Side) (segment : Bytes) (event : ProgramEvent) :
    Option (VpnNet × List VpnEvent) :=
  (net.socketStep setup link side (.sendPackage segment)).map fun sent =>
    (sent.1, sent.2 ++ if net.isAlive link side then [.program link (side, event)] else [])

/-- A step of `recv_package`. -/
def recvPackage (link : Nat) (side : Side) : Option (VpnNet × List VpnEvent × RecvCall) :=
  ((connection (setup.config link) setup.crypto).advance (net.links link) side .recvPackage).map
    fun result =>
      ({ net with links := Function.update net.links link result.1 },
        result.2.map (.socket link),
        if (result.1.ends side).recv.caller = .idle then
          match returnedSegments (result.2.map Prod.snd) with
          | segment :: _ => .returned segment
          | [] => .failed
        else .pending)

/-- A step of the loop of `func_socket`. -/
def loopStep (link : Nat) (side : Side) (again : Bool) :
    SocketLoop → Option (VpnNet × List VpnEvent × SocketLoop)
  | .testing => some (net, [], if net.isAlive link side then .receiving else .finished)
  | .receiving =>
      (net.recvPackage setup link side).map fun called =>
        (called.1, called.2.1,
          match called.2.2 with
          | .pending => .receiving
          | .failed => .failed
          | .returned segment => if segment = [] then .testing else .writing segment)
  | .writing package =>
      some (net,
        if (net.hosts (.of link side)).tunnelOpen then [.program link (side, .wrote package)]
        else [], .testing)
  -- if it goes on, it asks the tunnel to write -1 bytes, which it does not
  | .failed => some (net, [], if again then .testing else .finished)
  | .finished => none

/-- A step of `func_socket` on the tables. -/
def runTable (link : Nat) : Option (VpnNet × List VpnEvent) :=
  (net.tables.run setup.localTunnelIp link).map fun ran =>
    ({ net with table := ran.1 }, ran.2.map .table)

/-- The `delete` of a socket. -/
def discard : Option Nat → VpnNet
  | some link => { net with deleted := Function.update net.deleted link true }
  | none => net

/-- `func_socket` up to its reply. -/
def register (link : Nat) (memory : Bytes) : Option (VpnNet × List VpnEvent) :=
  match net.table.threads link with
  | .receiving =>
      (net.recvPackage setup link .b).bind fun called =>
        match called.2.2 with
        | .pending => some (called.1, called.2.1)
        | call =>
            if memory.length = tokenBytes then
              ((call.fill memory).bind stringAt).map fun token =>
                ({ called.1 with table := called.1.table.goto link (.finding token) },
                  called.2.1 ++ call.events link .b)
            else none
  | .closing _ ip =>
      (net.runTable setup link).bind fun ran =>
        match net.table.ipMap ip with
        | some (some old) =>
            (ran.1.socketStep setup old .b .close).map fun closed => (closed.1, ran.2 ++ closed.2)
        | _ => some ran
  | .deleting _ ip | .disposing _ ip =>
      (net.runTable setup link).map fun ran => (ran.1.discard (net.table.ipMap ip).join, ran.2)
  | .binding _ ip | .replacing _ ip =>
      (net.runTable setup link).map fun ran => (ran.1.serve link (.replying ip), ran.2)
  | .connected | .cleaning _ | .checking .. | .erasing .. | .dropping _ | .passing _ | .stale
  | .finding _ | .proposing _ | .assigning .. | .recalling _ | .served => net.runTable setup link

/-- The next step of `func_socket` on the server. -/
def serverStep (link : Nat) (memory : Bytes) (again : Bool) : Option (VpnNet × List VpnEvent) :=
  match net.serving link with
  | .registering => net.register setup link memory
  | .replying ip =>
      (net.sendPackage setup link .b (infoBytes ip) (.greeted (infoBytes ip))).map fun sent =>
        (sent.1.serve link (.looping ip .testing), sent.2)
  | .looping ip loop =>
      (net.loopStep setup link .b again loop).map fun turned =>
        (turned.1.serve link (.looping ip turned.2.2), turned.2.1)

/-- The next step of `run` or `func_socket` of a client. -/
def clientStep (link : Nat) (memory : Bytes) (again : Bool) : Option (VpnNet × List VpnEvent) :=
  match net.joining link with
  | .connected =>
      (net.sendPackage setup link .a (setup.token link) (.greeted (setup.token link))).map
        fun sent => (sent.1.join link .awaiting, sent.2)
  | .awaiting =>
      (net.recvPackage setup link .a).bind fun called =>
        match called.2.2 with
        | .pending => some (called.1, called.2.1)
        | call =>
            if memory.length = dhcpInfoBytes then
              (call.fill memory).map fun info =>
                (called.1.join link (.looping (infoAt info) .testing),
                  called.2.1 ++ call.events link .a)
            else none
  | .looping ip loop =>
      (net.loopStep setup link .a again loop).map fun turned =>
        (turned.1.join link (.looping ip turned.2.2), turned.2.1)

/-- The forwarder of a client starts when the address has come. -/
def started : Host → Bool
  | .server => true
  | .client link =>
      match net.joining link with
      | .looping .. => true
      | .connected | .awaiting => false

/-- `read` of a package, and `parse_package`. -/
def readStep (host : Host) (package : Bytes) : Option (VpnNet × List VpnEvent) :=
  let vpn := net.hosts host
  let tunBuf := readInto vpn.tunBuf package
  if vpn.forwarder = .reading ∧ vpn.tunnelOpen ∧ 0 < package.length ∧
      package.length ≤ maxMtu then
    some (net.setHost host { vpn with
      tunBuf
      forwarder := if passes tunBuf then host.onward package.length else .testing },
      [.read host package])
  else none

/-- The next step of a forwarder, other than to read a package. -/
def forwardStep (host : Host) : Option (VpnNet × List VpnEvent) :=
  let vpn := net.hosts host
  let goto (forwarder : Forwarder) : VpnNet := net.setHost host { vpn with forwarder }
  let daddr := (SharpPackageParser.parsePackage vpn.tunBuf).daddr
  match vpn.forwarder with
  | .testing =>
      if net.started host then some (goto (if vpn.running then .reading else .exited), [])
      else none
  -- an error, or nothing read
  | .reading => some (goto .testing, [])
  | .finding r => some (goto (if (net.table.ipMap daddr).isSome then .looking r else .testing), [])
  | .looking r =>
      match net.table.ipMap daddr with
      | some (some link) => some (goto (.checking link r), [])
      -- the entry is gone, or was never bound
      | _ =>
          some ({ net with table := { net.table with
            ipMap := Function.update net.table.ipMap daddr (some none)
            running := false } }, [.nullDereferenced])
  | .checking link r =>
      some (goto (if net.isAlive link host.side then .sending link r else .testing), [])
  | .sending link r =>
      (net.sendPackage setup link host.side (vpn.tunBuf.take r)
        (.forwarded (vpn.tunBuf.take r))).map fun sent =>
          (sent.1.setHost host { vpn with forwarder := .testing }, sent.2)
  | .exited => none

/-- The next step of `stop`. -/
def stopStep (host : Host) : Option (VpnNet × List VpnEvent) :=
  let vpn := net.hosts host
  match vpn.stopping, host with
  | .running, _ => some (net.setHost host { vpn with stopping := .stopped }, [])
  | .stopped, _ => some (net.setHost host { vpn with stopping := .shut }, [])
  -- the server closes the socket it accepts with
  | .shut, .server => some (net.setHost host { vpn with stopping := .closed }, [])
  | .shut, .client link =>
      (net.socketStep setup link .a .close).map fun closed =>
        (closed.1.setHost host { vpn with stopping := .closed }, closed.2)
  | .closed, _ => none

def step : VpnAction → Option (VpnNet × List VpnEvent)
  | .socket link side action =>
      if action.ofThread then net.socketStep setup link side action else none
  | .accept =>
      -- `running` is looked at when the call has returned
      if net.accepting then
        some ({ net with
          table := { net.table with accepted := net.table.accepted + 1 }
          accepting := (net.hosts .server).running }, [])
      else none
  | .seek link itr =>
      if link < net.table.accepted then
        (net.tables.seek link itr).map fun sought =>
          ({ net with table := sought.1 }, sought.2.map .table)
      else none
  | .serve link memory again =>
      if link < net.table.accepted then net.serverStep setup link memory again else none
  | .join link memory again => net.clientStep setup link memory again
  | .read host package => net.readStep host package
  | .forward host => net.forwardStep setup host
  | .stop host => net.stopStep setup host

/-- The link whose socket on the server a step works with. -/
def touched : VpnAction → Option Nat
  | .socket link .b _ => some link
  | .serve link .. =>
      match net.serving link, net.table.threads link with
      | .registering, .receiving => some link
      | .registering, .checking _ ip | .registering, .deleting _ ip | .registering, .closing _ ip
      | .registering, .disposing _ ip => (net.table.ipMap ip).join
      | .registering, _ => none
      | .replying _, _ | .looping _ .testing, _ | .looping _ .receiving, _ => some link
      | .looping .., _ => none
  | .forward .server =>
      match (net.hosts .server).forwarder with
      | .checking link _ | .sending link _ => some link
      | _ => none
  | .socket _ .a _ | .accept | .seek .. | .join .. | .read .. | .forward (.client _)
  | .stop _ => none

/-- A step works with a socket that has been deleted. -/
def dangling (action : VpnAction) : Bool := (net.touched action).any net.deleted

end VpnNet

/-- The server and its clients. Nothing runs on the server after a null pointer has been
dereferenced, or a stale iterator. What the program does from a step on that works with a deleted
socket, or overruns a buffer, nobody can say: no run goes on past it. -/
def vpnMachine (setup : VpnSetup) : Machine VpnNet VpnAction VpnEvent where
  step net action :=
    if action.host = .server ∧ (net.table.running = false ∨ net.dangling action) then none
    else net.step setup action

end Sharpvpn
