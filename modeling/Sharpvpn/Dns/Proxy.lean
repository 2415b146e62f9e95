import Sharpvpn.Dns.Filter
import Sharpvpn.Foundation.Heap
import Sharpvpn.Foundation.Machine
import Sharpvpn.Foundation.RingBuffer

/-!
# The DNS proxy

A query goes to every server under an identifier of the proxy's own. The last queries are kept
in a ring, in which a response finds the client and the client's identifier. A suspect response
waits in a second ring; a better one may take its place.

The functions that free or read a block answer `none` if the block is not in use, and the one
that writes the name of a question also if its block is too short.
-/

namespace Sharpvpn

open Foundation Foundation.Layout

/-- `ID_ADDR_QUEUE_LEN` -/
def idAddrQueueLen : Nat := 128

/-- `DELAY_QUEUE_LEN` -/
def delayQueueLen : Nat := 128

/-- `BUF_SIZE` -/
def bufSize : Nat := 512

/-- A `struct sockaddr` whose `sa_family` is `AF_INET`. -/
structure SockAddr where
  sinAddr : UInt32
  sinPort : UInt16
  deriving DecidableEq, Repr

/-- `id_addr_t` -/
structure IdAddr where
  id : UInt16 := 0
  oldId : UInt16 := 0
  /-- A block of the heap; `none` is the null pointer. -/
  addr : Option Nat := none
  deriving DecidableEq

/-- `delay_buf_t`; `buf` and `addr` are blocks of the heap. -/
structure DelayBuf where
  id : UInt16 := 0
  ts : Nat := 0
  buf : Option Nat := none
  addr : Option Nat := none
  deriving DecidableEq

structure DnsState where
  idAddrQueue : Nat → IdAddr := fun _ => {}
  idAddrQueuePos : Nat := 0
  delayQueue : Nat → DelayBuf := fun _ => {}
  delayQueueFirst : Nat := 0
  delayQueueLast : Nat := 0
  globalBuf : Octets
  /-- The blocks with a `struct sockaddr`. -/
  addrs : Heap SockAddr := {}
  /-- The blocks with a datagram. -/
  bufs : Heap Bytes := {}
  hostnameBuf : Option Nat := none
  hostnameBuflen : Nat := 0
  /-- The blocks for `hostname_buf`, by their lengths. -/
  hostnames : Heap Nat := {}
  faulted : Bool := false

/-- The bytes of a buffer from its start on. -/
def bytesIn (mem : Octets) (len : Nat) : Bytes := (List.range len).map mem

section Query

/-- Where the first name of a query ends: the loop of `dns_handle_local` over its labels. -/
def rootBehind (mem : Octets) (len off : Nat) : Option Nat :=
  if off < len - 4 then
    if mem off &&& 0xc0 ≠ 0 then none
    else if mem off = 0 then some (off + 1)
    else rootBehind mem len (off + 1 + (mem off).toNat)
  else none
termination_by len - off

/-- What stands in `compression_buf`: the first name ends with a pointer to the high byte of the
number of questions, where another root stands. -/
def mutatedQuery (mem : Octets) (len : Nat) : Option Bytes :=
  if len > 16 then
    (rootBehind mem len 12).map fun off =>
      bytesIn mem (off - 1) ++ [0xc0, 0x04] ++ bytesIn (fun i => mem (off + i)) (len - off)
  else none

/-- The datagrams sent for a query, each with the number of the server. -/
def sendQuery (config : DnsConfig) (mem : Octets) (len : Nat) : List (Nat × Bytes) :=
  let toAll := (List.range config.dnsServersLen).map fun i => (i, bytesIn mem len)
  let mutated := if config.compression then mutatedQuery mem len else none
  match mutated with
  | none => toAll
  | some mutated =>
      (List.range config.hasChnDns).map (fun i => (i, bytesIn mem len)) ++
        if config.hasChnDns < config.dnsServersLen then
          (List.range' config.hasChnDns (config.dnsServersLen - config.hasChnDns)).map
            fun i => (i, mutated)
        else toAll

end Query

/-- What the proxy does: take a query, take a response, send a datagram to a client, complain. -/
inductive DnsEvent
  | asked (client : SockAddr) (oldId newId : UInt16) (sent : List (Nat × Bytes))
  | received (server : SockAddr) (id : UInt16) (datagram : Bytes)
  | answered (client : SockAddr) (datagram : Bytes)
  /-- `ERR("recvfrom")` -/
  | noDatagram
  /-- `ERR("local_ns_initparse")` -/
  | refused
  /-- A block is read or freed that is not in use. -/
  | fault
  deriving DecidableEq

namespace DnsState

def queueAdd (idAddr : IdAddr) (state : DnsState) : Option DnsState :=
  let pos := (state.idAddrQueuePos + 1) % idAddrQueueLen
  -- free next hole
  (state.addrs.free (state.idAddrQueue pos).addr).map fun addrs =>
    { state with
      addrs
      idAddrQueue := Function.update state.idAddrQueue pos idAddr
      idAddrQueuePos := pos }

/-- The name of the first question is copied, for the log. `ns_msg` is passed by value. -/
def hostnameFromQuestion (dnExpand : DnExpand) (msg : NsMsg) (state : DnsState) :
    Option DnsState :=
  if msg.counts .qd = 0 then some state
  else
    match (msg.parserr dnExpand.expand state.globalBuf .qd 0).2 with
    | none => some state
    | some rr =>
        let resultLen := (cString rr.nsRrName).length + 1
        let grown :=
          if resultLen > state.hostnameBuflen then
            (state.hostnames.realloc state.hostnameBuf (2 * resultLen)).map fun hostnames =>
              { state with
                hostnames
                hostnameBuf := some state.hostnames.next
                hostnameBuflen := 2 * resultLen }
          else some state
        grown.bind fun state =>
          -- `memcpy` needs a block of this length.
          ((state.hostnameBuf.bind state.hostnames.read).filter (resultLen ≤ ·)).map fun _ => state

/-- The first entry with this identifier. -/
def queueLookup (id : UInt16) (state : DnsState) : Option Nat :=
  (List.range idAddrQueueLen).find? fun i => (state.idAddrQueue i).id = id

def freeDelay (pos : Nat) (state : DnsState) : Option DnsState :=
  (state.bufs.free (state.delayQueue pos).buf).bind fun bufs =>
    (state.addrs.free (state.delayQueue pos).addr).map fun addrs => { state with bufs, addrs }

/-- The part of `delay_queue` that is in use. -/
def delayCursor (state : DnsState) : Cursor where
  start := state.delayQueueFirst
  stop := state.delayQueueLast
  len := (state.delayQueueLast + delayQueueLen - state.delayQueueFirst) % delayQueueLen

/-- The places that a loop from `delay_queue_first` to `delay_queue_last` visits. -/
def delayPlaces (state : DnsState) : List Nat :=
  (List.range state.delayCursor.len).map fun i => (state.delayQueueFirst + i) % delayQueueLen

/-- The search for an entry with this identifier, which is freed. The last one found is given. -/
def freeSame (queryId : UInt16) : List Nat → DnsState → Option Nat → Option (DnsState × Option Nat)
  | [], state, found => some (state, found)
  | i :: rest, state, found =>
      if (state.delayQueue i).id = queryId then
        (state.freeDelay i).bind fun state => freeSame queryId rest state (some i)
      else freeSame queryId rest state found

def scheduleDelay (now : Nat) (queryId : UInt16) (buf : Bytes) (addr : Nat) (state : DnsState) :
    Option DnsState :=
  (freeSame queryId state.delayPlaces state none).bind fun (state, found) =>
    (state.addrs.read addr).bind fun client =>
      let delayBuf : DelayBuf :=
        { id := queryId, ts := now, buf := some state.bufs.next, addr := some state.addrs.next }
      let state := { state with
        bufs := state.bufs.malloc buf
        addrs := state.addrs.malloc client
        delayQueue := Function.update state.delayQueue (found.getD state.delayQueueLast) delayBuf }
      -- then append to queue
      if found.isSome then some state
      else
        let last := (state.delayQueueLast + 1) % delayQueueLen
        let state := { state with delayQueueLast := last }
        if last = state.delayQueueFirst then
          (state.freeDelay state.delayQueueFirst).map fun state =>
            { state with delayQueueFirst := (state.delayQueueFirst + 1) % delayQueueLen }
        else some state

/-- The loop of `check_and_send_delay`. `expired` compares the time passed with
`empty_result_delay`. -/
def sendExpired (expired : Nat → Nat → Bool) (now : Nat) :
    List Nat → DnsState → Option (DnsState × List DnsEvent)
  | [], state => some (state, [])
  | i :: rest, state =>
      if expired (state.delayQueue i).ts now then
        ((state.delayQueue i).buf.bind state.bufs.read).bind fun buf =>
          ((state.delayQueue i).addr.bind state.addrs.read).bind fun client =>
            (state.freeDelay i).bind fun state =>
              (sendExpired expired now rest
                { state with delayQueueFirst := (state.delayQueueFirst + 1) % delayQueueLen }).map
                fun (state, events) => (state, .answered client buf :: events)
      else some (state, [])

def checkAndSendDelay (expired : Nat → Nat → Bool) (now : Nat) (state : DnsState) :
    Option (DnsState × List DnsEvent) :=
  state.sendExpired expired now state.delayPlaces

/-- `new_id` is what the loop ends with that looks for an identifier not in use. -/
def dnsHandleLocal (config : DnsConfig) (dnExpand : DnExpand) (client : SockAddr)
    (datagram : Bytes) (newId : UInt16) (state : DnsState) : Option (DnsState × List DnsEvent) :=
  let srcAddr := state.addrs.next
  let state := { state with addrs := state.addrs.malloc client }
  let received := datagram.take bufSize
  -- Nothing frees `src_addr` here.
  if received = [] then some (state, [.noDatagram])
  else
    let buf := overwrite received state.globalBuf
    match NsMsg.initparse buf received.length with
    | none =>
        (state.addrs.free (some srcAddr)).map fun addrs =>
          ({ state with addrs, globalBuf := buf }, [.refused])
    | some msg =>
        ({ state with globalBuf := buf }.hostnameFromQuestion dnExpand msg).bind fun state =>
          let buf := overwrite (put16 newId) buf
          ({ state with globalBuf := buf }.queueAdd ⟨newId, msg.id, some srcAddr⟩).map fun state =>
            (state, [.asked client msg.id newId (sendQuery config buf received.length)])

/-- What `dns_handle_remote` does with a response that the parser accepts. -/
def handleResponse (config : DnsConfig) (dnExpand : DnExpand) (server : SockAddr)
    (received : Bytes) (now : Nat) (msg : NsMsg) (state : DnsState) :
    Option (DnsState × List DnsEvent) :=
  match state.queueLookup msg.id with
  | none => some (state, [])
  | some i =>
      (state.idAddrQueue i).addr.bind fun addr =>
        (state.addrs.read addr).bind fun client =>
          let buf := overwrite (put16 (state.idAddrQueue i).oldId) state.globalBuf
          let state := { state with globalBuf := buf }
          match config.shouldFilterQuery dnExpand buf msg server.sinAddr with
          | .pass => some (state, [.answered client (bytesIn buf received.length)])
          | .delay =>
              (state.scheduleDelay now msg.id (bytesIn buf received.length) addr).map
                fun state => (state, [])
          | .filter => some (state, [])

def dnsHandleRemote (config : DnsConfig) (dnExpand : DnExpand) (server : SockAddr)
    (datagram : Bytes) (now : Nat) (state : DnsState) : Option (DnsState × List DnsEvent) :=
  let srcAddr := state.addrs.next
  let state := { state with addrs := state.addrs.malloc server }
  let received := datagram.take bufSize
  -- Nothing frees `src_addr` here.
  if received = [] then some (state, [.noDatagram])
  else
    let state := { state with globalBuf := overwrite received state.globalBuf }
    match NsMsg.initparse state.globalBuf received.length with
    | none =>
        (state.addrs.free (some srcAddr)).map fun addrs => ({ state with addrs }, [.refused])
    | some msg =>
        (state.hostnameFromQuestion dnExpand msg).bind fun state =>
          (state.handleResponse config dnExpand server received now msg).bind
            fun (state, events) =>
              (state.addrs.free (some srcAddr)).map fun addrs =>
                ({ state with addrs }, .received server msg.id received :: events)

end DnsState

/-- A datagram arrives at one of the sockets, or time passes. -/
inductive DnsAction
  | localReady (client : SockAddr) (datagram : Bytes) (newId : UInt16)
  | remoteReady (server : SockAddr) (datagram : Bytes) (now : Nat)
  | check (now : Nat)

/-- The loop of `chinadns`, action after action. -/
def chinadns (config : DnsConfig) (dnExpand : DnExpand) (expired : Nat → Nat → Bool) :
    Machine DnsState DnsAction DnsEvent where
  step state action :=
    let handled : Option (Option (DnsState × List DnsEvent)) :=
      if state.faulted then none
      else
        match action with
        | .localReady client datagram newId =>
            if (state.queueLookup newId).isSome then none
            else some (state.dnsHandleLocal config dnExpand client datagram newId)
        | .remoteReady server datagram now =>
            some (state.dnsHandleRemote config dnExpand server datagram now)
        | .check now => some (state.checkAndSendDelay expired now)
    handled.map fun result => result.getD ({ state with faulted := true }, [.fault])

end Sharpvpn
