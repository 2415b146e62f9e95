import Sharpvpn.Dns.ProxyRefinement

/-!
# Runs of the proxy

Whatever datagrams arrive, and in whatever order, a client is given the responses to its own
queries, once at most, and the blocks of the rings stay in order. One kind of datagram ends the
program: a response with the identifier 0 before the first ring has been filled.
-/

namespace Sharpvpn

open Foundation Foundation.Layout
open scoped List

/-- A response arrives whose identifier is that of a cell never used. -/
def DnsAction.Stray (action : DnsAction) : Prop :=
  ∃ server datagram now, action = .remoteReady server datagram now ∧
    ∃ message : DnsMessage, message.bytes = datagram.take bufSize ∧ message.id = 0

variable {config : DnsConfig} {dnExpand : DnExpand} {expired : Nat → Nat → Bool}
  {state next : DnsState} {spec : ProxySpec} {trace events : List DnsEvent} {action : DnsAction}

theorem initparse_overwrite_iff {received : Bytes} {mem : Octets} {id : UInt16} :
    (∃ msg, NsMsg.initparse (overwrite received mem) received.length = some msg ∧ msg.id = id) ↔
      ∃ message : DnsMessage, message.bytes = received ∧ message.id = id := by
  constructor
  · rintro ⟨msg, hparse, hid⟩
    obtain ⟨message, hstands, hlength, rfl⟩ := NsMsg.initparse_eq_some_iff.mp hparse
    exact ⟨message, hstands.unique standsAt_overwrite hlength, hid⟩
  · rintro ⟨message, rfl, hid⟩
    exact ⟨message.handle,
      NsMsg.initparse_eq_some_iff.mpr ⟨message, standsAt_overwrite, rfl, rfl⟩, hid⟩

/-- A step of the program is one of the proxy. It ends in a fault if a stray response arrives
while a cell has not been used. -/
theorem chinadns_step (hrelated : Related state spec)
    (hstep : (chinadns config dnExpand expired).step state action = some (next, events)) :
    (next.faulted = true ↔ action.Stray ∧ spec.window.length < idAddrQueueLen) ∧
      ∃ move spec', (ProxySpec.machine expired).step spec move = some (spec', events) ∧
        Related next spec' := by
  obtain ⟨hfaulted, himplements⟩ := hrelated
  unfold chinadns at hstep
  dsimp only at hstep
  split at hstep
  next => cases hstep
  next hrunning =>
    have hsound : state.faulted = false := by simpa using hrunning
    obtain ⟨queries, delayed, others, himpl, hlost⟩ := himplements hsound
    cases action with
    | localReady client datagram newId =>
        dsimp only at hstep
        split at hstep
        next => cases hstep
        next hunused =>
          obtain ⟨next', events', move, spec', hlocal, hstill, hmove, hnext⟩ :=
            dnsHandleLocal_related expired hfaulted hsound himpl hlost config dnExpand client
              datagram (Option.not_isSome_iff_eq_none.mp hunused)
          rw [hlocal] at hstep
          obtain ⟨rfl, rfl⟩ := Prod.mk.inj (Option.some.inj hstep)
          refine ⟨iff_of_false (by simp [hstill]) ?_, move, spec', hmove, hnext⟩
          rintro ⟨⟨server, datagram, now, hcontra, -⟩, -⟩
          cases hcontra
    | remoteReady server datagram now =>
        obtain ⟨next', events', move, spec', hremote, hfault, hmove, hnext⟩ :=
          dnsHandleRemote_related expired hfaulted hsound himpl hlost config dnExpand
            server datagram now
        have hresult := (Option.some.inj hstep).symm.trans hremote
        obtain ⟨rfl, rfl⟩ := Prod.mk.inj hresult
        refine ⟨hfault.trans ?_, move, spec', hmove, hnext⟩
        have hmessage := @initparse_overwrite_iff (datagram.take bufSize) state.globalBuf 0
        constructor
        · rintro ⟨msg, hparse, hid, hroom⟩
          exact ⟨⟨server, datagram, now, rfl, hmessage.mp ⟨msg, hparse, hid⟩⟩, hroom⟩
        · rintro ⟨⟨_, _, _, hsame, hstray⟩, hroom⟩
          cases hsame
          obtain ⟨msg, hparse, hid⟩ := hmessage.mpr hstray
          exact ⟨msg, hparse, hid, hroom⟩
    | check now =>
        obtain ⟨next', events', move, spec', hcheck, hstill, hmove, hnext⟩ :=
          checkAndSendDelay_related expired hfaulted hsound himpl hlost now
        dsimp only at hstep
        rw [hcheck] at hstep
        obtain ⟨rfl, rfl⟩ := Prod.mk.inj (Option.some.inj hstep)
        refine ⟨iff_of_false (by simp [hstill]) ?_, move, spec', hmove, hnext⟩
        rintro ⟨⟨server, datagram, now, hcontra, -⟩, -⟩
        cases hcontra

/-- The rings as they are at the start, when no cell has been used. -/
theorem related_start (mem : Octets) : Related { globalBuf := mem } {} := by
  refine ⟨rfl, fun _ => ⟨[], [], [], ?_, rfl⟩⟩
  exact {
    window_eq := rfl
    pending_eq := rfl
    idEntries := by
      unfold Cursor.contents
      rw [List.map_const', List.length_range]
      simp [DnsState.idCursor]
    newIds := List.nodup_nil
    zero_free := by simp
    first_lt := Nat.zero_lt_succ _
    last_lt := Nat.zero_lt_succ _
    delayEntries := by simp [DnsState.delayPlaces, DnsState.delayCursor]
    pendingIds := List.nodup_nil
    addrs_perm := .refl _
    bufs_perm := .refl _
    hostname_null := fun _ => rfl
    hostname_live := rfl }

/-- A query on the root, under the identifier 9. -/
def rootQuery : Bytes := [0, 9, 1, 0, 0, 1, 0, 0, 0, 0, 0, 0] ++ [0, 0, 1, 0, 1]

/-- A response on the root with a name in place of an address. -/
def pointerResponse : Bytes :=
  [0, 9, 0x81, 0x80, 0, 1, 0, 1, 0, 0, 0, 0] ++ [0, 0, 12, 0, 1] ++
    [0, 0, 12, 0, 1, 0, 0, 0, 60, 0, 1, 0]

def someClient : SockAddr := ⟨octetAddress 10 7 0 2, 4000⟩

def otherClient : SockAddr := ⟨octetAddress 10 7 0 3, 4001⟩

def someServer : SockAddr := ⟨octetAddress 8 8 8 8, 53⟩

/-- The time of a response has passed after three ticks. -/
def threeTicks (ts now : Nat) : Bool := ts + 3 < now

/-- Two clients ask, one of them also sends an empty datagram. The first response waits and is
given at a later check, the second is given at once, and a third one still waits. -/
def twoClients : List DnsAction :=
  [.localReady someClient rootQuery 5, .localReady otherClient rootQuery 6,
    .localReady someClient [] 7, .remoteReady someServer (renamed 5 rootResponse) 0,
    .remoteReady someServer (renamed 6 pointerResponse) 1, .check 2, .check 9,
    .remoteReady someServer (renamed 6 rootResponse) 9]

theorem exists_run : ∃ state trace,
    (chinadns twoServers .root threeTicks).Reach Machine.always { globalBuf := octetsOf [] } state
      trace ∧
    state.faulted = false ∧ state.delayCursor.len = 1 ∧ trace.count .noDatagram = 1 ∧
    answers trace = [(otherClient, pointerResponse), (someClient, rootResponse)] := by
  obtain ⟨state, trace, hreach, hview⟩ := Machine.reach_of_exec
    (fun (state : DnsState) (trace : List DnsEvent) =>
      decide (state.faulted = false ∧ state.delayCursor.len = 1 ∧ trace.count .noDatagram = 1 ∧
        answers trace = [(otherClient, pointerResponse), (someClient, rootResponse)]))
    (show ((chinadns twoServers .root threeTicks).exec Machine.always { globalBuf := octetsOf [] }
      [] twoClients).map _ = some true by decide +kernel)
  exact ⟨state, trace, hreach, of_decide_eq_true hview⟩

/-- The rings, the cursors and the blocks of the heap do what the proxy is for. -/
theorem chinadns_refines {mem : Octets}
    (hreach : (chinadns config dnExpand expired).Reach Machine.always { globalBuf := mem } state
      trace) :
    ∃ spec, (ProxySpec.machine expired).Reach Machine.always {} spec trace ∧ Related state spec :=
  hreach.refine Related (related_start mem) fun _ _ _ _ _ hrelated hstep =>
    (chinadns_step hrelated hstep).2

theorem chinadns_refines_run : ∃ state trace,
    (chinadns twoServers .root threeTicks).Reach Machine.always { globalBuf := octetsOf [] } state
      trace ∧
    answers trace = [(otherClient, pointerResponse), (someClient, rootResponse)] ∧
    ∃ spec, (ProxySpec.machine threeTicks).Reach Machine.always {} spec trace ∧
      Related state spec := by
  obtain ⟨state, trace, hreach, -, -, -, hanswers⟩ := exists_run
  exact ⟨state, trace, hreach, hanswers, chinadns_refines hreach⟩

/-- What clients have been given is owed to them: it can be matched one to one with responses
that have come, each with the identifier of a query among the last of the client. -/
theorem answers_owed {mem : Octets}
    (hreach : (chinadns config dnExpand expired).Reach Machine.always { globalBuf := mem } state
      trace) :
    answers trace <+~ owedAnswers [] trace := by
  obtain ⟨spec, hspec, -⟩ := chinadns_refines hreach
  exact (List.sublist_append_left _ _).subperm.trans (ProxySpec.reach_holds hspec).owed

theorem answers_owed_run : ∃ state trace,
    (chinadns twoServers .root threeTicks).Reach Machine.always { globalBuf := octetsOf [] } state
      trace ∧
    answers trace = [(otherClient, pointerResponse), (someClient, rootResponse)] ∧
    answers trace <+~ owedAnswers [] trace := by
  obtain ⟨state, trace, hreach, -, -, -, hanswers⟩ := exists_run
  exact ⟨state, trace, hreach, hanswers, answers_owed hreach⟩

/-- The program faults at a stray response, unless every cell of the first ring has been used. -/
theorem fault_iff {mem : Octets}
    (hreach : (chinadns config dnExpand expired).Reach Machine.always { globalBuf := mem } state
      trace)
    (hstep : (chinadns config dnExpand expired).step state action = some (next, events)) :
    DnsEvent.fault ∈ events ↔ action.Stray ∧ askedCount trace < idAddrQueueLen := by
  obtain ⟨spec, hspec, hrelated⟩ := chinadns_refines hreach
  have hlength := (ProxySpec.reach_holds hspec).length_eq
  obtain ⟨hfault, move, spec', hmove, hnext⟩ := chinadns_step hrelated hstep
  rw [ProxySpec.fault_mem_iff hmove, hnext.1, hfault, hlength]
  exact and_congr_right fun _ => by omega

/-- A response with the identifier 0 before any query. -/
theorem fault_iff_start : ∃ next events,
    (chinadns twoServers .root threeTicks).step { globalBuf := octetsOf [] }
      (.remoteReady someServer (renamed 0 rootResponse) 0) = some (next, events) ∧
    events = [.fault] ∧
    (DnsAction.remoteReady someServer (renamed 0 rootResponse) 0).Stray := by
  obtain ⟨⟨next, events⟩, hstep, hevents⟩ := Option.map_eq_some_iff.mp
    (show ((chinadns twoServers .root threeTicks).step { globalBuf := octetsOf [] }
      (.remoteReady someServer (renamed 0 rootResponse) 0)).map Prod.snd = some [.fault] by
        decide +kernel)
  refine ⟨next, events, hstep, hevents, ((fault_iff .start hstep).mp ?_).1⟩
  rw [show events = [.fault] from hevents]
  exact List.mem_singleton_self _

/-- The blocks with an address that the cells of the first ring and the responses that wait
point to. -/
def DnsState.ringAddrs (state : DnsState) : List Nat :=
  (List.range idAddrQueueLen).filterMap (fun i => (state.idAddrQueue i).addr) ++
    state.delayPlaces.filterMap fun i => (state.delayQueue i).addr

/-- The blocks with a datagram that the responses that wait point to. -/
def DnsState.ringBufs (state : DnsState) : List Nat :=
  state.delayPlaces.filterMap fun i => (state.delayQueue i).buf

namespace Implements

variable {queries : List (Nat × Query)} {delayed : List Held} {others : List (Nat × SockAddr)}

/-- A pointer of the responses that wait, cell by cell. -/
theorem delayPlaces_filterMap (himpl : Implements state spec queries delayed others)
    {field : DelayBuf → Option Nat} {block : Held → Nat}
    (hfield : ∀ held, field (Held.entry held) = some (block held)) :
    state.delayPlaces.filterMap (fun i => field (state.delayQueue i)) = delayed.map block := by
  calc
    state.delayPlaces.filterMap (fun i => field (state.delayQueue i)) =
        (state.delayPlaces.map state.delayQueue).filterMap field := List.filterMap_map.symm
    _ = (delayed.map Held.entry).filterMap field := by rw [himpl.delayEntries]
    _ = delayed.filterMap fun held => some (block held) := by
      rw [List.filterMap_map]
      exact List.filterMap_congr fun held _ => hfield held
    _ = delayed.map block := congrFun List.filterMap_eq_map' delayed

theorem ringAddrs_perm (himpl : Implements state spec queries delayed others) :
    state.ringAddrs ~ queries.map Prod.fst ++ delayed.map Held.addr := by
  have hids : (List.range idAddrQueueLen).filterMap (fun i => (state.idAddrQueue i).addr) ~
      queries.map Prod.fst := by
    have hperm := state.idEntries_perm.symm.filterMap IdAddr.addr
    rw [himpl.idEntries, List.filterMap_append, List.filterMap_replicate_of_none rfl,
      List.nil_append, List.filterMap_map, List.filterMap_map] at hperm
    rw [← List.filterMap_eq_map]
    exact hperm
  unfold DnsState.ringAddrs
  rw [himpl.delayPlaces_filterMap fun _ => rfl]
  exact hids.append_right _

theorem ringBufs_eq (himpl : Implements state spec queries delayed others) :
    state.ringBufs = delayed.map Held.buf :=
  himpl.delayPlaces_filterMap fun _ => rfl

end Implements

/-- The blocks in use: those of the rings, the one for a name, and one for each datagram that
was empty. No two pointers are to one block, as the blocks are listed once. -/
theorem blocks_in_use {mem : Octets}
    (hreach : (chinadns config dnExpand expired).Reach Machine.always { globalBuf := mem } state
      trace)
    (hsound : state.faulted = false) :
    (∃ lost, state.addrs.live.map Prod.fst ~ state.ringAddrs ++ lost ∧
      lost.length = trace.count .noDatagram) ∧
    state.bufs.live.map Prod.fst ~ state.ringBufs ∧
    state.hostnames.live.map Prod.fst = state.hostnameBuf.toList ∧
    state.ringAddrs.length = min idAddrQueueLen (askedCount trace) + state.delayCursor.len ∧
    state.ringBufs.length = state.delayCursor.len ∧ state.delayCursor.len < delayQueueLen := by
  obtain ⟨spec, hspec, hfaulted, himplements⟩ := chinadns_refines hreach
  have hholds := ProxySpec.reach_holds hspec
  obtain ⟨queries, delayed, others, himpl, hlost⟩ := himplements hsound
  have hrings := himpl.ringAddrs_perm
  have hqueries := congrArg List.length himpl.window_eq
  rw [List.length_map, hholds.length_eq] at hqueries
  refine ⟨⟨others.map Prod.fst, ?_, ?_⟩, ?_, ?_, ?_, ?_, Nat.mod_lt _ (by decide)⟩
  · have hlive := himpl.addrs_perm.map Prod.fst
    unfold addrBlocks at hlive
    simp only [List.map_append, List.map_map, ← List.append_assoc] at hlive
    exact hlive.trans (hrings.symm.append_right _)
  · rw [List.length_map, ← hlost, hholds.lost_eq]
  · have hlive := himpl.bufs_perm.map Prod.fst
    unfold bufBlocks at hlive
    rw [List.map_map] at hlive
    rw [himpl.ringBufs_eq]
    exact hlive
  · rw [himpl.hostname_live]
    cases state.hostnameBuf <;> rfl
  · rw [hrings.length_eq, List.length_append, List.length_map, List.length_map,
      himpl.length_delayed, hqueries]
  · rw [himpl.ringBufs_eq, List.length_map, himpl.length_delayed]

theorem blocks_in_use_run : ∃ state trace,
    (chinadns twoServers .root threeTicks).Reach Machine.always { globalBuf := octetsOf [] } state
      trace ∧
    state.delayCursor.len = 1 ∧ trace.count .noDatagram = 1 ∧
    (∃ lost, state.addrs.live.map Prod.fst ~ state.ringAddrs ++ lost ∧
      lost.length = trace.count .noDatagram) ∧
    state.bufs.live.map Prod.fst ~ state.ringBufs ∧
    state.hostnames.live.map Prod.fst = state.hostnameBuf.toList ∧
    state.ringAddrs.length = min idAddrQueueLen (askedCount trace) + state.delayCursor.len ∧
    state.ringBufs.length = state.delayCursor.len ∧ state.delayCursor.len < delayQueueLen := by
  obtain ⟨state, trace, hreach, hsound, hwaits, hempty, -⟩ := exists_run
  exact ⟨state, trace, hreach, hwaits, hempty, blocks_in_use hreach hsound⟩

end Sharpvpn
