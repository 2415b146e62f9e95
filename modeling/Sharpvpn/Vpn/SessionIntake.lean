import Sharpvpn.Vpn.SessionLinks

/-!
# What an end of a link makes of what it receives

The first call of `recv_package` is for the token or the address. What later calls return is
written to the tunnel, as long as it is open.
-/

namespace Sharpvpn

open Foundation

namespace ProgramEvent

def greeted? : ProgramEvent → Option Bytes
  | .greeted segment => some segment
  | .received _ | .forwarded _ | .wrote _ => none

def received? : ProgramEvent → Option Bytes
  | .received segment => some segment
  | .greeted _ | .forwarded _ | .wrote _ => none

def forwarded? : ProgramEvent → Option Bytes
  | .forwarded package => some package
  | .greeted _ | .received _ | .wrote _ => none

def wrote? : ProgramEvent → Option Bytes
  | .wrote package => some package
  | .greeted _ | .received _ | .forwarded _ => none

def given? : ProgramEvent → Option Bytes
  | .greeted segment | .forwarded segment => some segment
  | .received _ | .wrote _ => none

end ProgramEvent

/-- The token or the address a program has sent. -/
abbrev greetings (trace : List ProgramEvent) : List Bytes :=
  trace.filterMap ProgramEvent.greeted?

/-- The token or the address as it has come. -/
abbrev receipts (trace : List ProgramEvent) : List Bytes :=
  trace.filterMap ProgramEvent.received?

abbrev forwards (trace : List ProgramEvent) : List Bytes :=
  trace.filterMap ProgramEvent.forwarded?

/-- The packages written to the tunnel. -/
abbrev writes (trace : List ProgramEvent) : List Bytes :=
  trace.filterMap ProgramEvent.wrote?

/-- What a program has given to its socket. -/
abbrev given (trace : List ProgramEvent) : List Bytes :=
  trace.filterMap ProgramEvent.given?

/-- How far the program at an end of a link has got with what it receives. -/
inductive Intake
  /-- Before the end of its first call of `recv_package`. -/
  | waiting
  | taking (loop : SocketLoop)

/-- A package that has come and is not written yet. -/
def SocketLoop.held : SocketLoop → List Bytes
  | .writing package => [package]
  | .testing | .receiving | .failed | .finished => []

def ServerThread.intake (named : Bool) : ServerThread → Intake
  | .registering => if named then .taking .testing else .waiting
  | .replying _ => .taking .testing
  | .looping _ loop => .taking loop

def ClientThread.intake : ClientThread → Intake
  | .connected | .awaiting => .waiting
  | .looping _ loop => .taking loop

namespace VpnNet

def intake (net : VpnNet) (link : Nat) : Side → Intake
  | .a => (net.joining link).intake
  | .b => (net.serving link).intake (net.table.threads link).named

/-- The tunnel at an end of a link is open. -/
def opened (net : VpnNet) (link : Nat) (side : Side) : Bool :=
  (net.hosts (.of link side)).tunnelOpen

/-- What a step of the hosts does to the intake of an end of a link. The lists are what
`recv_package` returns and the events of the program. -/
inductive IntakeMove (net next : VpnNet) (link : Nat) (side : Side) :
    List Bytes → List ProgramEvent → Prop
  | still {events} (hintake : next.intake link side = net.intake link side)
      (hreceipts : receipts events = []) (hwrites : writes events = []) :
      IntakeMove net next link side [] events
  | first {call : RecvCall} {events} (hwaiting : net.intake link side = .waiting)
      (hnext : next.intake link side = .taking .testing)
      (hreceipts : receipts events = call.segments) (hwrites : writes events = [])
      (hfailed : call.segments = [] → next.isAlive link side = false) :
      IntakeMove net next link side call.segments events
  | tested (htesting : net.intake link side = .taking .testing)
      (hnext : next.intake link side =
        .taking (if net.isAlive link side then .receiving else .finished)) :
      IntakeMove net next link side [] []
  | took {call : RecvCall} (hreceiving : net.intake link side = .taking .receiving)
      (hended : call ≠ .pending) (hnext : next.intake link side = .taking (RecvCall.loop call)) :
      IntakeMove net next link side call.segments []
  | written {package} (hwriting : net.intake link side = .taking (.writing package))
      (hnext : next.intake link side = .taking .testing) :
      IntakeMove net next link side [] (if net.opened link side then [.wrote package] else [])
  | failed {loop : SocketLoop} (hfailed : net.intake link side = .taking .failed)
      (hnext : next.intake link side = .taking loop) (hheld : loop.held = []) :
      IntakeMove net next link side [] []

/-- What the program at an end of a link has made of what has been returned to it. -/
inductive Progress (alive opened : Bool) : Intake → List Bytes → List Bytes → List Bytes → Prop
  | waiting : Progress alive opened .waiting [] [] []
  /-- The first call has failed. -/
  | deaf {loop} (hdead : alive = false) (hloop : loop = .testing ∨ loop = .finished) :
      Progress alive opened (.taking loop) [] [] []
  | taking {loop first rest written} (hwritten : written.IsPrefix (positive rest))
      (hopened : opened = true → written ++ loop.held = positive rest) :
      Progress alive opened (.taking loop) (first :: rest) [first] written

variable {net next : VpnNet} {link : Nat} {side : Side} {returned segments received written :
  List Bytes} {events : List ProgramEvent}

/-- Nothing is received, and less may be alive and open. -/
theorem Progress.still {alive alive' opened opened' : Bool} {intake : Intake}
    (hprogress : Progress alive opened intake returned received written)
    (halive : alive' = true → alive = true) (hopened : opened' = true → opened = true) :
    Progress alive' opened' intake returned received written := by
  cases hprogress with
  | waiting => exact .waiting
  | deaf hdead hloop =>
      refine .deaf ?_ hloop
      cases alive' with
      | false => rfl
      | true => exact absurd (halive rfl) (by simp [hdead])
  | taking hprefix hshown => exact .taking hprefix fun hopen => hshown (hopened hopen)

theorem held_loop {call : RecvCall} (hended : call ≠ .pending) :
    (RecvCall.loop call).held = positive call.segments := by
  cases call with
  | pending => exact absurd rfl hended
  | failed => rfl
  | returned segment =>
      unfold RecvCall.loop RecvCall.segments
      dsimp only
      split
      next hnil => simp [hnil, SocketLoop.held, positive]
      next hne => simp [hne, SocketLoop.held, positive]

theorem Progress.step
    (hprogress : Progress (net.isAlive link side) (net.opened link side) (net.intake link side)
      returned received written)
    (hmove : IntakeMove net next link side segments events)
    (halive : next.isAlive link side = true → net.isAlive link side = true)
    (hopened : next.opened link side = true → net.opened link side = true) :
    Progress (next.isAlive link side) (next.opened link side) (next.intake link side)
      (returned ++ segments) (received ++ receipts events) (written ++ writes events) := by
  have hlater := hprogress.still halive hopened
  cases hmove with
  | still hintake hreceipts hwrites =>
      rw [hintake, hreceipts, hwrites]
      simpa using hlater
  | @first call _ hwaiting hnext hreceipts hwrites hfailed =>
      rw [hwaiting] at hprogress
      cases hprogress
      rw [hnext, hreceipts, hwrites]
      cases hsegments : call.segments with
      | nil => exact .deaf (hfailed hsegments) (.inl rfl)
      | cons segment rest =>
          obtain rfl : rest = [] := by
            cases call <;> simp_all [RecvCall.segments]
          exact .taking (List.prefix_refl _) fun _ => rfl
  | tested htesting hnext =>
      rw [htesting] at hlater hprogress
      rw [hnext]
      cases hlater with
      | deaf hdead hloop =>
          cases hprogress with
          | deaf hstill => exact .deaf hdead (.inr (by simp [hstill]))
      | taking hprefix hshown =>
          simp only [List.append_nil, List.filterMap_nil]
          refine .taking hprefix fun hopen => ?_
          rw [← hshown hopen]
          split <;> rfl
  | took hreceiving hended hnext =>
      rw [hreceiving] at hlater
      rw [hnext]
      cases hlater with
      | deaf _ hloop => rcases hloop with hloop | hloop <;> cases hloop
      | taking hprefix hshown =>
          simp only [List.append_nil, List.filterMap_nil, List.cons_append]
          refine .taking ?_ fun hopen => ?_
          · rw [positive_append]
            exact hprefix.trans (List.prefix_append _ _)
          · rw [positive_append, ← hshown hopen, held_loop hended]
            simp [SocketLoop.held]
  | @written package hwriting hnext =>
      rw [hwriting] at hlater hprogress
      rw [hnext]
      cases hlater with
      | deaf _ hloop => rcases hloop with hloop | hloop <;> cases hloop
      | taking hprefix hshown =>
          cases hprogress with
          | taking _ hbefore =>
              split
              next hopen =>
                have hall : written ++ writes [.wrote package] = positive _ := hbefore hopen
                rw [List.append_nil, hall]
                exact .taking (List.prefix_refl _) fun _ => List.append_nil _
              next hclosed =>
                simp only [List.append_nil, List.filterMap_nil]
                exact .taking hprefix fun hopen => absurd (hopened hopen) hclosed
  | failed hfailed hnext hheld =>
      rw [hfailed] at hlater
      rw [hnext]
      cases hlater with
      | deaf _ hloop => rcases hloop with hloop | hloop <;> cases hloop
      | taking hprefix hshown =>
          simp only [List.append_nil, List.filterMap_nil]
          refine .taking hprefix fun hopen => ?_
          rw [← hshown hopen, hheld]
          rfl

theorem Progress.received_eq_nil {alive opened : Bool} {intake : Intake}
    (hprogress : Progress alive opened intake returned received written)
    (hwaiting : intake = .waiting) : received = [] := by
  cases hprogress with
  | waiting => rfl
  | deaf | taking => cases hwaiting

/-- The first segment that is returned is for the program, the later ones for the tunnel. -/
theorem Progress.later {alive opened : Bool} {intake : Intake}
    (hprogress : Progress alive opened intake returned received written) :
    (received = [] ∧ returned = [] ∧ written = []) ∨
      ∃ first rest, received = [first] ∧ returned = first :: rest ∧
        written.IsPrefix (positive rest) := by
  cases hprogress with
  | waiting | deaf => exact .inl ⟨rfl, rfl, rfl⟩
  | taking hprefix => exact .inr ⟨_, _, rfl, rfl, hprefix⟩

section Threads

variable {other : Nat} {end_ : Side} {ip : UInt32} {loop : SocketLoop}

theorem intake_congr (hjoining : next.joining = net.joining) (hserving : next.serving = net.serving)
    (hnamed : (next.table.threads link).named = (net.table.threads link).named) :
    next.intake link side = net.intake link side := by
  cases side with
  | a => exact congrArg (fun joining => (joining link).intake) hjoining
  | b =>
      unfold intake
      rw [hserving, hnamed]

theorem intake_serve (thread : ServerThread) : (net.serve other thread).intake link side =
    if other = link ∧ .b = side then thread.intake (net.table.threads link).named
    else net.intake link side := by
  cases side with
  | a => simp [intake, serve]
  | b =>
      by_cases hlink : other = link
      · subst hlink
        simp [intake, serve]
      · simp [intake, serve, hlink, Function.update_of_ne (Ne.symm hlink)]

theorem intake_join (thread : ClientThread) : (net.join other thread).intake link side =
    if other = link ∧ .a = side then thread.intake else net.intake link side := by
  cases side with
  | a =>
      by_cases hlink : other = link
      · subst hlink
        simp [intake, join]
      · simp [intake, join, hlink, Function.update_of_ne (Ne.symm hlink)]
  | b => simp [intake, join]

theorem intake_setLoop : (net.setLoop other ip loop end_).intake link side =
    if other = link ∧ end_ = side then .taking loop else net.intake link side := by
  cases end_ with
  | a => exact intake_join _
  | b => exact intake_serve _

theorem InLoop.intake (hloop : net.InLoop link ip loop side) :
    net.intake link side = .taking loop := by
  cases side with
  | a => exact congrArg ClientThread.intake hloop
  | b => exact congrArg (ServerThread.intake _) hloop

end Threads

section Returned

variable {setup : VpnSetup} {other : Nat} {end_ : Side} {action : Action}
  {pair : Duplex.State ReliableSocket Datagram} {inner : List (Side × Event)}

theorem returnedAt_map :
    returnedAt link side (inner.map (.socket other)) =
      if other = link then returnedSegments (Duplex.at_ side inner) else [] := by
  unfold returnedAt
  split
  next hlink => rw [hlink, linkTrace_map_self]
  next hlink =>
    rw [linkTrace_map_ne link hlink]
    rfl

theorem returnedAt_offline {events : List VpnEvent} (hoffline : Offline events) :
    returnedAt link side events = [] := by
  unfold returnedAt
  rw [hoffline.linkTrace_eq_nil]
  rfl

theorem returnedAt_quiet (hreturned : ∀ other, returnedSegments (Duplex.at_ other inner) = []) :
    returnedAt link side (inner.map (.socket other)) = [] := by
  rw [returnedAt_map, hreturned, ite_self]

theorem returnedAt_call {call : RecvCall} (hcall : net.CallEnds setup other end_ pair inner call) :
    returnedAt link side (inner.map (.socket other)) =
      if other = link ∧ end_ = side then call.segments else [] := by
  rw [returnedAt_map]
  by_cases hlink : other = link
  · rw [if_pos hlink]
    rcases Side.eq_or_eq_peer end_ side with rfl | rfl
    · rw [if_pos ⟨hlink, rfl⟩, hcall.returned]
    · rw [if_neg (by simp), (connection.advance_step hcall.advance).2.2]
      rfl
  · rw [if_neg hlink, if_neg fun hsame => hlink hsame.1]

theorem Sends.returnedAt_eq_nil {segment : Bytes}
    (hsends : net.Sends setup other end_ segment pair inner) :
    returnedAt link side (inner.map (.socket other)) = [] :=
  returnedAt_quiet (connection.returned_of_advance hsends nofun)

end Returned

section Moves

variable {setup : VpnSetup} {events : List VpnEvent}

/-- A socket that has stopped stays so. -/
theorem Transition.alive (htransition : net.Transition setup next events) (link : Nat)
    (side : Side) (halive : next.isAlive link side = true) : net.isAlive link side = true := by
  unfold isAlive at *
  cases htransition.linkMove link with
  | still hlink => rwa [hlink] at halive
  | step hadvance => exact connection.alive_of_advance hadvance side halive

theorem tunnelOpen_setHost {host other : Host} {vpn : SharpVpn}
    (hnext : ((net.setHost host vpn).hosts other).tunnelOpen = true)
    (hopen : vpn.tunnelOpen = true → (net.hosts host).tunnelOpen = true) :
    (net.hosts other).tunnelOpen = true := by
  unfold setHost at hnext
  by_cases hother : other = host
  · subst hother
    exact hopen (by simpa using hnext)
  · simpa [Function.update_of_ne hother] using hnext

/-- A tunnel that has been shut down stays so. -/
theorem Transition.opened (htransition : net.Transition setup next events) (link : Nat)
    (side : Side) (hopened : next.opened link side = true) : net.opened link side = true := by
  unfold VpnNet.opened at *
  cases htransition with
  | read | moved | forwarded => exact tunnelOpen_setHost hopened id
  | stopping hopen => exact tunnelOpen_setHost hopened hopen
  | stopped => exact tunnelOpen_setHost hopened nofun
  | tested | took | written | failed =>
      rw [hosts_setLoop] at hopened
      exact hopened
  | socket | tables | closing | named | bound | replied | asked | joined => exact hopened

/-- The tables have no part in what links show. -/
theorem tables_events
    (hevents : ∀ event ∈ events, event = .nullDereferenced ∨ ∃ inner, event = .table inner) :
    Offline events ∧ programTrace link side events = [] := by
  constructor
  · intro other event hmem
    rcases hevents _ hmem with hsame | ⟨inner, hsame⟩ <;> cases hsame
  · unfold programTrace
    rw [List.filterMap_eq_nil_iff.mpr]
    · rfl
    · intro event hmem
      rcases hevents _ hmem with rfl | ⟨inner, rfl⟩ <;> rfl

theorem programTrace_call {other : Nat} {end_ : Side} (call : RecvCall) :
    programTrace link side (call.events other end_) =
      if other = link ∧ end_ = side then call.segments.map .received else [] := by
  cases call <;> simp [RecvCall.events, RecvCall.segments]

theorem receipts_call (call : RecvCall) :
    receipts (call.segments.map .received) = call.segments := by
  cases call <;> rfl

theorem writes_call (call : RecvCall) : writes (call.segments.map .received) = [] := by
  cases call <;> rfl

/-- A step of the hosts is a step of the intake of each end of a link. -/
theorem Transition.intakeMove (htransition : net.Transition setup next events) (link : Nat)
    (side : Side) :
    IntakeMove net next link side (returnedAt link side events)
      (programTrace link side events) := by
  cases htransition with
  | socket hadvance hpushed hreturned =>
      rw [returnedAt_quiet hreturned]
      exact .still rfl (by simp) (by simp)
  | tables hframe hevents =>
      obtain ⟨hoffline, hprogram⟩ := tables_events hevents
      rw [returnedAt_offline hoffline, hprogram]
      exact .still (intake_congr rfl rfl (hframe.named link)) rfl rfl
  | closing hframe hadvance =>
      obtain ⟨hoffline, hprogram⟩ := tables_events (@forall_mem_map_table _)
      rw [returnedAt_append, programTrace_append, hprogram, returnedAt_offline hoffline,
        returnedAt_quiet (connection.returned_of_advance hadvance nofun), programTrace_socket]
      exact .still (intake_congr rfl rfl (hframe.named link)) rfl rfl
  | @named other pair inner call token hserving hthread hcall =>
      rw [returnedAt_append, returnedAt_call hcall, returnedAt_offline (offline_call _ _ _),
        List.append_nil, programTrace_append, programTrace_socket, List.nil_append,
        programTrace_call]
      split
      next hat =>
        obtain ⟨rfl, rfl⟩ := hat
        refine .first ?_ ?_ (receipts_call call) (writes_call call) fun hnone => ?_
        · simp [intake, hserving, hthread, ServerThread.intake, FuncSocket.named]
        · simp [intake, setLink, hserving, ServerThread.intake, UserTable.goto, FuncSocket.named]
        · simpa [isAlive, setLink] using hcall.failed hnone
      next hat =>
        refine .still ?_ rfl rfl
        cases side with
        | a => rfl
        | b =>
            have hother : link ≠ other := fun hsame => hat ⟨hsame.symm, rfl⟩
            simp [intake, setLink, UserTable.goto, Function.update_of_ne hother]
  | @bound other ip table inner hserving hnamed hthreads hipMap =>
      obtain ⟨hoffline, hprogram⟩ := tables_events (@forall_mem_map_table inner)
      rw [returnedAt_offline hoffline, hprogram]
      refine .still ?_ rfl rfl
      rw [intake_serve]
      split
      next hat =>
        obtain ⟨rfl, rfl⟩ := hat
        simp [intake, hserving, hnamed, ServerThread.intake]
      next => exact intake_congr rfl rfl (hthreads link)
  | @replied other ip pair inner hserving hsends =>
      rw [returnedAt_append, hsends.returnedAt_eq_nil, returnedAt_offline (offline_program _ _),
        programTrace_append, programTrace_socket, List.nil_append, programTrace_if]
      refine .still ?_ (by split <;> rfl) (by split <;> rfl)
      rw [intake_serve]
      split
      next hat =>
        obtain ⟨rfl, rfl⟩ := hat
        simp [intake, hserving, ServerThread.intake]
      next => exact intake_congr rfl rfl rfl
  | @asked other pair inner hjoining hsends =>
      rw [returnedAt_append, hsends.returnedAt_eq_nil, returnedAt_offline (offline_program _ _),
        programTrace_append, programTrace_socket, List.nil_append, programTrace_if]
      refine .still ?_ (by split <;> rfl) (by split <;> rfl)
      rw [intake_join]
      split
      next hat =>
        obtain ⟨rfl, rfl⟩ := hat
        simp [intake, hjoining, ClientThread.intake]
      next => exact intake_congr rfl rfl rfl
  | @joined other pair inner call info memory hjoining hcall =>
      rw [returnedAt_append, returnedAt_call hcall, returnedAt_offline (offline_call _ _ _),
        List.append_nil, programTrace_append, programTrace_socket, List.nil_append,
        programTrace_call]
      split
      next hat =>
        obtain ⟨rfl, rfl⟩ := hat
        refine .first ?_ ?_ (receipts_call call) (writes_call call) fun hnone => ?_
        · simp [intake, hjoining, ClientThread.intake]
        · simp [intake, join, ClientThread.intake]
        · simpa [isAlive, setLink, join] using hcall.failed hnone
      next hat =>
        refine .still ?_ rfl rfl
        rw [intake_join, if_neg hat]
        exact intake_congr rfl rfl rfl
  | @tested other end_ ip hloop =>
      by_cases hat : other = link ∧ end_ = side
      · obtain ⟨rfl, rfl⟩ := hat
        exact .tested hloop.intake (by rw [intake_setLoop, if_pos ⟨rfl, rfl⟩])
      · exact .still (by rw [intake_setLoop, if_neg hat]) rfl rfl
  | @took other end_ ip pair inner call hloop hcall =>
      rw [returnedAt_call hcall, programTrace_socket]
      split
      next hat =>
        obtain ⟨rfl, rfl⟩ := hat
        exact .took hloop.intake hcall.ended (by rw [intake_setLoop, if_pos ⟨rfl, rfl⟩])
      next hat =>
        refine .still ?_ rfl rfl
        rw [intake_setLoop, if_neg hat]
        exact intake_congr rfl rfl rfl
  | @written other end_ ip package hloop =>
      rw [returnedAt_offline (offline_program _ _), programTrace_if]
      by_cases hat : other = link ∧ end_ = side
      · obtain ⟨rfl, rfl⟩ := hat
        simp only [and_self, true_and]
        exact .written hloop.intake (by rw [intake_setLoop, if_pos ⟨rfl, rfl⟩])
      · rw [if_neg fun hboth => hat hboth.1]
        exact .still (by rw [intake_setLoop, if_neg hat]) rfl rfl
  | @failed other end_ ip loop hloop hnext =>
      by_cases hat : other = link ∧ end_ = side
      · obtain ⟨rfl, rfl⟩ := hat
        refine .failed hloop.intake (by rw [intake_setLoop, if_pos ⟨rfl, rfl⟩]) ?_
        rcases hnext with rfl | rfl <;> rfl
      · exact .still (by rw [intake_setLoop, if_neg hat]) rfl rfl
  | read | moved | stopping => exact .still (intake_congr rfl rfl rfl) rfl rfl
  | forwarded _ hsends =>
      rw [returnedAt_append, hsends.returnedAt_eq_nil, returnedAt_offline (offline_program _ _),
        programTrace_append, programTrace_socket, List.nil_append, programTrace_if]
      exact .still (intake_congr rfl rfl rfl) (by split <;> rfl) (by split <;> rfl)
  | stopped hadvance =>
      rw [returnedAt_quiet (connection.returned_of_advance hadvance nofun), programTrace_socket]
      exact .still (intake_congr rfl rfl rfl) rfl rfl

variable {memory : Nat → Side → Memory} {buffers : Host → Bytes}
  {allowed : Machine.StepCondition VpnNet VpnAction VpnEvent} {trace : List VpnEvent}

/-- What an end of a link has made of what has been returned to it, in every run. -/
theorem reach_progress (link : Nat) (side : Side)
    (hreach : (vpnMachine setup).Reach allowed (.init memory buffers) net trace) :
    Progress (net.isAlive link side) (net.opened link side) (net.intake link side)
      (returnedAt link side trace) (receipts (programTrace link side trace))
      (writes (programTrace link side trace)) := by
  refine hreach.invariant (fun net trace => Progress (net.isAlive link side)
    (net.opened link side) (net.intake link side) (returnedAt link side trace)
    (receipts (programTrace link side trace)) (writes (programTrace link side trace))) ?_ ?_
  · cases side <;> exact .waiting
  · intro net trace action next events hprogress hstep _
    have htransition := step_transition hstep
    have hnext := hprogress.step (htransition.intakeMove link side) (htransition.alive link side)
      (htransition.opened link side)
    simpa using hnext

end Moves

end VpnNet

end Sharpvpn
