import Sharpvpn.Vpn.SessionRuns

/-!
# The tables of a session

The threads of the server are the threads of `UserTable`, and its sockets die as those of a
session do. What holds of the tables on their own holds of them in a session, for as long as the
forwarder has not dereferenced a null pointer.
-/

namespace Sharpvpn

open Foundation

def VpnEvent.table? : VpnEvent → Option (TableEvent Bytes)
  | .table event => some event
  | .socket .. | .program .. | .read .. | .nullDereferenced => none

def tableTrace (trace : List VpnEvent) : List (TableEvent Bytes) := trace.filterMap VpnEvent.table?

@[simp] theorem tableTrace_append (first second : List VpnEvent) :
    tableTrace (first ++ second) = tableTrace first ++ tableTrace second :=
  List.filterMap_append

@[simp] theorem tableTrace_table (events : List (TableEvent Bytes)) :
    tableTrace (events.map .table) = events := by
  simp [tableTrace, List.filterMap_map, Function.comp_def, VpnEvent.table?]

@[simp] theorem tableTrace_socket (link : Nat) (events : List (Side × Event)) :
    tableTrace (events.map (.socket link)) = [] := by
  simp [tableTrace, List.filterMap_map, Function.comp_def, VpnEvent.table?]

theorem tableTrace_program (link : Nat) (event : Side × ProgramEvent) (condition : Prop)
    [Decidable condition] :
    tableTrace (if condition then [.program link event] else []) = [] := by
  split <;> rfl

theorem tableTrace_call (call : RecvCall) (link : Nat) (side : Side) :
    tableTrace (call.events link side) = [] := by
  cases call <;> rfl

namespace UserTable

variable {localTunnelIp : UInt32} {table next : UserTable Bytes} {link : Nat}
  {events : List (TableEvent Bytes)}

/-- A thread that closes no socket leaves them alive. -/
theorem alive_run (hrun : table.run localTunnelIp link = some (next, events))
    (hsockets : ∀ token ip, table.threads link = .closing token ip →
      ∀ old, table.ipMap ip ≠ some (some old)) : next.alive = table.alive := by
  unfold run at hrun
  cases hthread : table.threads link with
  | closing token ip =>
      simp only [hthread] at hrun
      split at hrun
      next old hold => exact absurd hold (hsockets token ip hthread old)
      next =>
        cases hrun
        rfl
  | cleaning itr =>
      cases itr with
      | none =>
          simp only [hthread] at hrun
          cases hrun
          rfl
      | some token =>
          simp only [hthread] at hrun
          obtain ⟨ip, -, heq⟩ := Option.map_eq_some_iff.mp hrun
          cases heq
          rfl
  | checking token ip =>
      simp only [hthread] at hrun
      split at hrun <;> cases hrun <;> rfl
  | connected | dropping | passing | receiving | served =>
      simp only [hthread] at hrun
      cases hrun
  | deleting | erasing | stale | finding | proposing | assigning | recalling | disposing | binding
  | replacing =>
      simp only [hthread] at hrun
      cases hrun
      rfl

theorem alive_seek {itr : Option Bytes} (hseek : table.seek link itr = some (next, events)) :
    next.alive = table.alive := by
  unfold seek at hseek
  cases hthread : table.threads link with
  | connected | passing | dropping =>
      simp only [hthread] at hseek
      obtain ⟨-, rfl, -⟩ := place_eq hseek
      rfl
  | _ => simp [hthread] at hseek

/-- Every entry is settled when no handshake is under way. -/
theorem Tabled.settled_of_quiet {trace : List (TableEvent Bytes)} {token : Bytes} {ip : UInt32}
    (htabled : table.Tabled trace) (hquiet : table.Quiet) (htoken : table.userMap token = some ip) :
    table.Settled token ip := by
  refine ⟨htoken, fun socket hunsettled => ?_⟩
  refine htabled.unheld (fun other hlt hother => ?_) socket
    (FuncSocket.held_of_unsettled hunsettled)
  rw [hquiet other hlt] at hother
  cases hother

end UserTable

namespace VpnNet

section Tables

variable {setup : VpnSetup} {net next : VpnNet} {link : Nat} {side : Side} {action : VpnAction}
  {table : UserTable Bytes} {events : List VpnEvent}

/-- No other thread is part-way through the token that a step begins to work on. -/
def Undisturbed (setup : VpnSetup) (net : VpnNet) : VpnAction → Prop
  | .seek link itr => net.tables.Undisturbed setup.localTunnelIp (.seek link itr)
  | .serve link .. => net.tables.Undisturbed setup.localTunnelIp (.run link)
  | .socket .. | .accept | .join .. | .read .. | .forward _ | .stop _ => True

instance (setup : VpnSetup) (net : VpnNet) (action : VpnAction) :
    Decidable (net.Undisturbed setup action) := by
  unfold Undisturbed
  split <;> infer_instance

/-- What a step does to the tables: nothing, or one step of them. -/
inductive Follows (setup : VpnSetup) (net : VpnNet) (action : VpnAction) (table : UserTable Bytes)
    (events : List VpnEvent) : Prop
  | still (htable : table = net.tables) (hevents : tableTrace events = [])
  | step (move : TableAction Bytes)
      (hstep : net.tables.step setup.localTunnelIp move = some (table, tableTrace events))
      (hundisturbed : net.Undisturbed setup action →
        net.tables.Undisturbed setup.localTunnelIp move)

@[simp] theorem running_tables : net.tables.running = net.table.running := rfl

theorem tables_setLink (pair : Duplex.State ReliableSocket Datagram) :
    (net.setLink link pair).tables = { net.tables with
      alive := Function.update net.tables.alive link (pair.ends .b).workerRunning } := by
  refine congrArg (fun alive => { net.table with alive }) (funext fun other => ?_)
  by_cases hother : other = link
  · subst hother
    simp [isAlive, setLink]
  · simp [isAlive, setLink, tables, Function.update_of_ne hother]

/-- A step of a socket is nothing to the tables, unless it is the end of one of the server's. -/
theorem Follows.socket {socketAction : Action} {pair : Duplex.State ReliableSocket Datagram}
    {inner : List (Side × Event)}
    (hadvance : (connection (setup.config link) setup.crypto).advance (net.links link) side
      socketAction = some (pair, inner))
    (hrunning : side = .b → net.table.running = true) (hevents : tableTrace events = []) :
    Follows setup net action (net.setLink link pair).tables events := by
  by_cases hsame : (pair.ends .b).workerRunning = net.tables.alive link
  · refine .still ?_ hevents
    rw [tables_setLink, hsame, Function.update_eq_self]
  · have hmonotone := connection.alive_of_advance hadvance .b
    have halive : net.tables.alive link = ((net.links link).ends .b).workerRunning := rfl
    have hdead : (pair.ends .b).workerRunning = false := by
      cases hpair : (pair.ends .b).workerRunning with
      | false => rfl
      | true => exact absurd (hpair.trans ((hmonotone hpair).symm.trans halive.symm)) hsame
    have hside : side = .b := by
      cases side with
      | a => exact absurd (congrArg (·.workerRunning) (connection.advance_step hadvance).2.1) hsame
      | b => rfl
    refine .step (.die link) ?_ fun _ => trivial
    rw [hevents, tables_setLink, hdead]
    exact if_neg (by simpa using hrunning hside)

@[simp] theorem tables_discard (socket : Option Nat) :
    (net.discard socket).tables = net.tables := by
  cases socket <;> rfl

theorem Follows.refl (hevents : tableTrace events = []) :
    Follows setup net action net.tables events :=
  .still rfl hevents

theorem tables_recvPackage {call : RecvCall}
    (hstep : net.recvPackage setup link side = some (next, events, call)) :
    next.tables = net.tables ∧ tableTrace events = [] := by
  obtain ⟨⟨pair, inner⟩, hadvance, heq⟩ := Option.map_eq_some_iff.mp hstep
  cases heq
  obtain ⟨hlocal, hpeer, -⟩ := connection.advance_step hadvance
  have hrunning := (ReliableSocket.returnedSegments_of_recvPackage hlocal).1
  have hsame : (pair.ends .b).workerRunning = net.tables.alive link := by
    cases side with
    | a => exact congrArg ReliableSocket.workerRunning hpeer
    | b => exact hrunning
  refine ⟨(tables_setLink pair).trans ?_, tableTrace_socket _ _⟩
  rw [hsame, Function.update_eq_self]

/-- A thread of the server works on the tables. -/
theorem runTable_follows {memory : Bytes} {again : Bool} (hlt : link < net.table.accepted)
    (hrunning : net.table.running = true)
    (hrun : net.runTable setup link = some (next, events))
    (hsockets : ∀ token ip, net.table.threads link = .closing token ip →
      ∀ old, net.table.ipMap ip ≠ some (some old)) :
    Follows setup net (.serve link memory again) next.tables events := by
  obtain ⟨table, inner, htable, rfl, rfl⟩ := runTable_eq hrun
  have halive := UserTable.alive_run htable hsockets
  have hsame : tables { net with table } = table := by
    show { table with alive := net.tables.alive } = table
    rw [← halive]
  refine .step (.run link) ?_ id
  rw [hsame, tableTrace_table]
  exact ((if_neg (by simpa using hrunning)).trans (if_pos hlt)).trans htable

/-- A thread of the server closes the old socket of a token. -/
theorem closing_follows {memory : Bytes} {again : Bool} {token : Bytes} {ip : UInt32} {old : Nat}
    {ran : VpnNet} {ranEvents closed : List VpnEvent}
    (hlt : link < net.table.accepted) (hrunning : net.table.running = true)
    (hthread : net.table.threads link = .closing token ip)
    (hold : net.table.ipMap ip = some (some old))
    (hrun : net.runTable setup link = some (ran, ranEvents))
    (hclose : ran.socketStep setup old .b .close = some (next, closed)) :
    Follows setup net (.serve link memory again) next.tables (ranEvents ++ closed) := by
  obtain ⟨table, inner, htable, rfl, rfl⟩ := runTable_eq hrun
  obtain ⟨pair, local', hadvance, rfl, rfl⟩ := socketStep_eq hclose
  have hlocal := Option.some.inj (connection.advance_step hadvance).1
  have hdead : (pair.ends .b).workerRunning = false :=
    (congrArg ReliableSocket.workerRunning (Prod.mk.inj hlocal).1).symm
  have hthread' : net.tables.threads link = .closing token ip := hthread
  have hold' : net.tables.ipMap ip = some (some old) := hold
  have hnext := htable
  unfold UserTable.run at hnext
  simp only [hthread', hold'] at hnext
  refine .step (.run link) ?_ id
  rw [tables_setLink, hdead, tableTrace_append, tableTrace_table, tableTrace_socket,
    List.append_nil]
  refine ((if_neg (by simpa using hrunning)).trans (if_pos hlt)).trans (htable.trans ?_)
  cases hnext
  rfl

theorem register_follows {memory : Bytes} {again : Bool} (hlt : link < net.table.accepted)
    (hrunning : net.table.running = true)
    (hstep : net.register setup link memory = some (next, events)) :
    Follows setup net (.serve link memory again) next.tables events := by
  unfold register at hstep
  cases hthread : net.table.threads link with
  | receiving =>
      simp only [hthread] at hstep
      obtain ⟨⟨called, inner, call⟩, hrecv, hcontinue⟩ := Option.bind_eq_some_iff.mp hstep
      obtain ⟨hcalled, hinner⟩ := tables_recvPackage hrecv
      cases call with
      | pending =>
          cases hcontinue
          exact .still hcalled hinner
      | failed | returned =>
          dsimp only at hcontinue
          split at hcontinue
          next =>
            obtain ⟨token, -, heq⟩ := Option.map_eq_some_iff.mp hcontinue
            cases heq
            refine .step (.token link token) ?_ fun _ => trivial
            have hgoto : tables { called with table := called.table.goto link (.finding token) } =
                called.tables.goto link (.finding token) := rfl
            rw [tableTrace_append, tableTrace_call, List.append_nil, hinner, hgoto, hcalled]
            refine (if_neg (by simpa using hrunning)).trans ?_
            have hthread' : net.tables.threads link = .receiving := hthread
            simp only [hthread']
          next => cases hcontinue
  | closing token ip =>
      simp only [hthread] at hstep
      obtain ⟨⟨ran, ranEvents⟩, hrun, hcontinue⟩ := Option.bind_eq_some_iff.mp hstep
      split at hcontinue
      next old hold =>
        obtain ⟨⟨closed, closedEvents⟩, hclosed, heq⟩ := Option.map_eq_some_iff.mp hcontinue
        cases heq
        exact closing_follows hlt hrunning hthread hold hrun hclosed
      next hnull =>
        cases hcontinue
        refine runTable_follows hlt hrunning hrun fun other ip' hother old hold => ?_
        rw [hthread] at hother
        cases hother
        exact hnull old hold
  | binding token ip | replacing token ip =>
      simp only [hthread] at hstep
      obtain ⟨⟨ran, ranEvents⟩, hrun, heq⟩ := Option.map_eq_some_iff.mp hstep
      cases heq
      exact @runTable_follows _ _ ran _ _ _ _ hlt hrunning hrun (by simp [hthread])
  | deleting token ip | disposing token ip =>
      simp only [hthread] at hstep
      obtain ⟨⟨ran, ranEvents⟩, hrun, heq⟩ := Option.map_eq_some_iff.mp hstep
      cases heq
      rw [tables_discard]
      exact runTable_follows hlt hrunning hrun (by simp [hthread])
  | connected | cleaning | checking | erasing | dropping | passing | stale | finding | proposing
  | assigning | recalling | served =>
      simp only [hthread] at hstep
      exact runTable_follows hlt hrunning hstep (by simp [hthread])

theorem loopStep_follows {again : Bool} {loop moved : SocketLoop}
    (hstep : net.loopStep setup link side again loop = some (next, events, moved)) :
    Follows setup net action next.tables events := by
  cases loop with
  | testing | failed =>
      cases hstep
      exact .refl rfl
  | receiving =>
      obtain ⟨⟨called, inner, call⟩, hrecv, heq⟩ := Option.map_eq_some_iff.mp hstep
      cases heq
      obtain ⟨hcalled, hinner⟩ := tables_recvPackage hrecv
      exact .still hcalled hinner
  | writing package =>
      cases hstep
      exact .refl (tableTrace_program _ _ _)
  | finished => cases hstep

theorem sendPackage_follows {segment : Bytes} {event : ProgramEvent}
    (hrunning : side = .b → net.table.running = true)
    (hstep : net.sendPackage setup link side segment event = some (next, events)) :
    Follows setup net action next.tables events := by
  obtain ⟨pair, inner, hsends, rfl, rfl⟩ := sendPackage_eq hstep
  refine .socket hsends hrunning ?_
  rw [tableTrace_append, tableTrace_socket, tableTrace_program, List.append_nil]

theorem serverStep_follows {memory : Bytes} {again : Bool} (hlt : link < net.table.accepted)
    (hrunning : net.table.running = true)
    (hstep : net.serverStep setup link memory again = some (next, events)) :
    Follows setup net (.serve link memory again) next.tables events := by
  unfold serverStep at hstep
  split at hstep
  next => exact register_follows hlt hrunning hstep
  next ip _ =>
    obtain ⟨⟨sent, inner⟩, hsend, heq⟩ := Option.map_eq_some_iff.mp hstep
    cases heq
    exact @sendPackage_follows _ _ sent _ _ _ _ _ _ (fun _ => hrunning) hsend
  next ip loop _ =>
    obtain ⟨⟨turned, inner, moved⟩, hloop, heq⟩ := Option.map_eq_some_iff.mp hstep
    cases heq
    exact @loopStep_follows _ _ turned _ _ _ _ _ _ _ hloop

theorem clientStep_follows {memory : Bytes} {again : Bool}
    (hstep : net.clientStep setup link memory again = some (next, events)) :
    Follows setup net action next.tables events := by
  unfold clientStep at hstep
  split at hstep
  next =>
    obtain ⟨⟨sent, inner⟩, hsend, heq⟩ := Option.map_eq_some_iff.mp hstep
    cases heq
    exact @sendPackage_follows _ _ sent _ .a _ _ _ _ nofun hsend
  next =>
    obtain ⟨⟨called, inner, call⟩, hrecv, hcontinue⟩ := Option.bind_eq_some_iff.mp hstep
    obtain ⟨hcalled, hinner⟩ := tables_recvPackage hrecv
    cases call with
    | pending =>
        cases hcontinue
        exact .still hcalled hinner
    | failed | returned =>
        dsimp only at hcontinue
        split at hcontinue
        next =>
          obtain ⟨info, -, heq⟩ := Option.map_eq_some_iff.mp hcontinue
          cases heq
          exact .still hcalled (by rw [tableTrace_append, hinner, tableTrace_call]; rfl)
        next => cases hcontinue
  next =>
    obtain ⟨⟨turned, inner, moved⟩, hloop, heq⟩ := Option.map_eq_some_iff.mp hstep
    cases heq
    exact @loopStep_follows _ _ turned _ _ _ _ _ _ _ hloop

theorem forwardStep_follows {host : Host} (hrunning : host = .server → net.table.running = true)
    (hsafe : .nullDereferenced ∉ events)
    (hstep : net.forwardStep setup host = some (next, events)) :
    Follows setup net action next.tables events := by
  unfold forwardStep at hstep
  dsimp only at hstep
  cases hforwarder : (net.hosts host).forwarder with
  | testing =>
      simp only [hforwarder] at hstep
      split at hstep
      next =>
        cases hstep
        exact .refl rfl
      next => cases hstep
  | reading | finding | checking =>
      simp only [hforwarder] at hstep
      cases hstep
      exact .refl rfl
  | looking r =>
      simp only [hforwarder] at hstep
      split at hstep
      next =>
        cases hstep
        exact .refl rfl
      next =>
        cases hstep
        exact absurd (List.mem_singleton_self _) hsafe
  | sending link r =>
      simp only [hforwarder] at hstep
      obtain ⟨⟨sent, inner⟩, hsend, heq⟩ := Option.map_eq_some_iff.mp hstep
      cases heq
      refine @sendPackage_follows _ _ sent _ _ _ _ _ _ (fun hside => hrunning ?_) hsend
      cases host with
      | server => rfl
      | client => cases hside
  | exited =>
      simp only [hforwarder] at hstep
      cases hstep

theorem stopStep_follows {host : Host} (hstep : net.stopStep setup host = some (next, events)) :
    Follows setup net action next.tables events := by
  unfold stopStep at hstep
  dsimp only at hstep
  split at hstep
  next =>
    cases hstep
    exact .refl rfl
  next =>
    cases hstep
    exact .refl rfl
  next =>
    cases hstep
    exact .refl rfl
  next link _ =>
    obtain ⟨⟨closed, inner⟩, hclose, heq⟩ := Option.map_eq_some_iff.mp hstep
    cases heq
    obtain ⟨pair, inner, hadvance, rfl, rfl⟩ := socketStep_eq hclose
    have hside : Side.a = .b → net.table.running = true := nofun
    exact .socket hadvance hside (tableTrace_socket _ _)
  next => cases hstep

/-- A step of the hosts is at most one step of the tables. -/
theorem step_follows (hsafe : .nullDereferenced ∉ events)
    (hstep : (vpnMachine setup).step net action = some (next, events)) :
    Follows setup net action next.tables events := by
  unfold vpnMachine at hstep
  dsimp only at hstep
  split at hstep
  next => cases hstep
  next hserver =>
    have hrunning : action.host = .server → net.table.running = true := fun hhost => by
      rw [not_and, not_or] at hserver
      simpa using (hserver hhost).1
    cases action with
    | socket link side socketAction =>
        simp only [step] at hstep
        split at hstep
        next =>
          obtain ⟨pair, inner, hadvance, rfl, rfl⟩ := socketStep_eq hstep
          refine .socket hadvance (fun hside => hrunning ?_) (tableTrace_socket _ _)
          rw [hside]
          rfl
        next => cases hstep
    | accept =>
        simp only [step] at hstep
        split at hstep
        next =>
          cases hstep
          exact .step .accept (if_neg (by simpa using hrunning rfl)) fun _ => trivial
        next => cases hstep
    | seek link itr =>
        simp only [step] at hstep
        split at hstep
        next hlt =>
          obtain ⟨⟨table, inner⟩, hseek, heq⟩ := Option.map_eq_some_iff.mp hstep
          cases heq
          have hsame : tables { net with table } = table := by
            show { table with alive := net.tables.alive } = table
            rw [← UserTable.alive_seek hseek]
          refine .step (.seek link itr) ?_ id
          rw [hsame, tableTrace_table]
          exact ((if_neg (by simpa using hrunning rfl)).trans (if_pos hlt)).trans hseek
        next => cases hstep
    | serve link memory again =>
        simp only [step] at hstep
        split at hstep
        next hlt => exact serverStep_follows hlt (hrunning rfl) hstep
        next => cases hstep
    | join link memory again => exact clientStep_follows hstep
    | read host package =>
        unfold step readStep at hstep
        dsimp only at hstep
        split at hstep
        next =>
          cases hstep
          exact .refl rfl
        next => cases hstep
    | forward host => exact forwardStep_follows hrunning hsafe hstep
    | stop host => exact stopStep_follows hstep

end Tables

section Runs

variable {setup : VpnSetup} {net : VpnNet} {memory : Nat → Side → Memory} {buffers : Host → Bytes}
  {trace : List VpnEvent}

/-- A session is a run of the tables. -/
theorem reach_tables
    (hreach : (vpnMachine setup).Reach (fun net _ action _ => net.Undisturbed setup action)
      (.init memory buffers) net trace)
    (hsafe : .nullDereferenced ∉ trace) :
    (tableMachine Bytes setup.localTunnelIp).Reach
      (fun table _ action _ => table.Undisturbed setup.localTunnelIp action) {} net.tables
      (tableTrace trace) := by
  induction hreach with
  | start => exact .start
  | step hprior hstep hallowed ih =>
      rw [List.mem_append, not_or] at hsafe
      rw [tableTrace_append]
      cases step_follows hsafe.2 hstep with
      | still htable hevents =>
          rw [htable, hevents, List.append_nil]
          exact ih hsafe.1
      | step move hmove hundisturbed => exact .step (ih hsafe.1) hmove (hundisturbed hallowed)

/-- While no handshake disturbs another one, none dereferences a null pointer or uses an iterator
whose entry is gone; and when none is under way, each token has an address of its own, which is
bound to the link of its latest handshake, and which is the address this link has been told. What
has been sent to the address has gone over links that had it. -/
theorem addresses_told
    (hreach : (vpnMachine setup).Reach (fun net _ action _ => net.Undisturbed setup action)
      (.init memory buffers) net trace)
    (hsafe : .nullDereferenced ∉ trace) :
    (.nullDereferenced ∉ tableTrace trace ∧ .staleIterator ∉ tableTrace trace) ∧
      (net.tables.Quiet → ∀ token ip, net.table.userMap token = some ip →
        (∀ other, net.table.userMap other = some ip → other = token) ∧
        (∃ link, latestSocket (tableTrace trace) token = some link ∧
          net.table.ipMap ip = some (some link) ∧ (net.serving link).ip = some ip) ∧
        ∀ link package, (link, package) ∈ dispatches trace → headerBytes ≤ package.length →
          (SharpPackageParser.parsePackage package).daddr = ip →
            (net.serving link).ip = some ip) := by
  have htabled : net.tables.Tabled (tableTrace trace) :=
    (reach_tables hreach hsafe).invariant UserTable.Tabled UserTable.Tabled.initial
      fun _ _ _ _ _ htabled hstep hallowed => htabled.step hallowed hstep
  refine ⟨htabled.faultless, fun hquiet token ip htoken => ?_⟩
  have hsettled : ∀ token ip, net.table.userMap token = some ip → net.tables.Settled token ip :=
    fun token ip htoken => htabled.settled_of_quiet hquiet htoken
  have hconsistent := htabled.consistent
  obtain ⟨link, hbound, hlatest⟩ := hconsistent.bound token ip (hsettled token ip htoken)
  refine ⟨fun other hother => hconsistent.distinct other token ip (hsettled other ip hother)
      (hsettled token ip htoken),
    ⟨link, hlatest, hbound, (reach_directed hreach).mapped ip link hbound⟩,
    fun link package hmem hlength hdaddr => ?_⟩
  obtain ⟨own, hown, haddressed⟩ := addressed_dispatches hreach link package hmem
  rw [hown, ← haddressed hlength, hdaddr]

/-- Two clients register and the first one leaves. The handshake of a third one deletes its
socket, drops its entry and takes over its address. -/
theorem addresses_told_reuse : ∃ net trace,
    (vpnMachine .standard).Reach (fun net _ action _ => net.Undisturbed .standard action)
      (.init (fun _ _ => .zeroed) fun _ => []) net trace ∧
    net.tables.Quiet ∧ net.deleted 0 = true ∧ net.table.userMap [97, 98, 99] = none ∧
    net.table.userMap [97, 98, 101] = some 0x0200070a ∧
    (∃ link, latestSocket (tableTrace trace) [97, 98, 101] = some link ∧
      net.table.ipMap 0x0200070a = some (some link) ∧
      (net.serving link).ip = some 0x0200070a) := by
  obtain ⟨net, trace, hreach, hview⟩ := Machine.reach_of_exec
    (fun (net : VpnNet) (trace : List VpnEvent) =>
      (decide (.nullDereferenced ∉ trace), decide net.tables.Quiet, net.deleted 0,
        net.table.userMap [97, 98, 99], net.table.userMap [97, 98, 101]))
    (show ((vpnMachine .standard).exec (fun net _ action _ => net.Undisturbed .standard action)
        (.init (fun _ _ => .zeroed) fun _ => []) []
        (registering 0 [] ++ registering 1 [([97, 98, 99], true)] ++
          List.replicate 3 (.stop (.client 0)) ++ List.replicate 3 (.socket 0 .b .receiver) ++
          .socket 0 .b (.receive .connectionClose) ::
          registering 2 [([97, 98, 99], false), ([97, 98, 100], true)])).map _ =
      some (true, true, true, none, some 0x0200070a) by decide +kernel)
  simp only [Prod.mk.injEq, decide_eq_true_eq] at hview
  obtain ⟨hsafe, hquiet, hdeleted, hdropped, htoken⟩ := hview
  obtain ⟨-, htold, -⟩ := (addresses_told hreach hsafe).2 hquiet _ _ htoken
  exact ⟨net, trace, hreach, hquiet, hdeleted, hdropped, htoken, htold⟩

end Runs

end VpnNet

end Sharpvpn
