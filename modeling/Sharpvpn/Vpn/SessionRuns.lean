import Sharpvpn.Vpn.SessionAddresses

/-!
# Packages through the tunnel

What a client reads from its tunnel is written to that of the server, and what the server reads
is written to the tunnel of the client it is addressed to: in order, at most once, and nothing
else but the address that a client is waiting for.
-/

namespace Sharpvpn

open Foundation

section Views

variable (link : Nat) (trace : List VpnEvent)

/-- A client forwards over its own link. -/
theorem forwards_eq_sentBy :
    forwards (programTrace link .a trace) = sentBy (.client link) trace := by
  unfold forwards programTrace sentBy Duplex.at_
  rw [List.filterMap_filterMap, List.filterMap_filterMap]
  congr 1
  funext event
  cases event with
  | program other event =>
      obtain ⟨side, event⟩ := event
      by_cases hlink : other = link
      · cases side <;> cases event <;>
          simp [VpnEvent.program?, VpnEvent.sent?, ProgramEvent.forwarded?, Host.of, hlink]
      · cases side <;> cases event <;>
          simp [VpnEvent.program?, VpnEvent.sent?, Host.of, hlink]
  | socket | table | read | nullDereferenced => rfl

end Views

/-- The packages that the server has forwarded, with the links. -/
def VpnEvent.dispatch? : VpnEvent → Option (Nat × Bytes)
  | .program link (.b, .forwarded package) => some (link, package)
  | .program .. | .socket .. | .table _ | .read .. | .nullDereferenced => none

def dispatches (trace : List VpnEvent) : List (Nat × Bytes) :=
  trace.filterMap VpnEvent.dispatch?

theorem map_dispatches (trace : List VpnEvent) :
    (dispatches trace).map Prod.snd = sentBy .server trace := by
  unfold dispatches sentBy
  rw [List.map_filterMap]
  congr 1
  funext event
  cases event with
  | program link event =>
      obtain ⟨side, event⟩ := event
      cases side <;> cases event <;> simp [VpnEvent.dispatch?, VpnEvent.sent?, Host.of]
  | socket | table | read | nullDereferenced => rfl

theorem map_filter_dispatches (link : Nat) (trace : List VpnEvent) :
    ((dispatches trace).filter (·.1 == link)).map Prod.snd =
      forwards (programTrace link .b trace) := by
  unfold dispatches forwards programTrace Duplex.at_
  rw [List.filter_filterMap, List.map_filterMap, List.filterMap_filterMap, List.filterMap_filterMap]
  congr 1
  funext event
  cases event with
  | program other event =>
      obtain ⟨side, event⟩ := event
      by_cases hlink : other = link <;> cases side <;> cases event <;>
        simp [VpnEvent.dispatch?, VpnEvent.program?, ProgramEvent.forwarded?, hlink, Option.filter]
  | socket | table | read | nullDereferenced => rfl

/-- What the server forwards over one link is part of what it forwards. -/
theorem forwards_sublist_sentBy (link : Nat) (trace : List VpnEvent) :
    (forwards (programTrace link .b trace)).Sublist (sentBy .server trace) := by
  rw [← map_filter_dispatches, ← map_dispatches]
  exact List.filter_sublist.map _

/-- The packages forwarded before a greeting. -/
def overtaking (trace : List ProgramEvent) : List Bytes :=
  forwards (trace.takeWhile fun event => event.greeted?.isNone)

/-- The packages forwarded after it. -/
def following (trace : List ProgramEvent) : List Bytes :=
  forwards (trace.dropWhile fun event => event.greeted?.isNone)

theorem forwards_split (trace : List ProgramEvent) :
    forwards trace = overtaking trace ++ following trace := by
  unfold overtaking following
  rw [← List.filterMap_append, List.takeWhile_append_dropWhile]

theorem given_isPrefix {segment : Bytes} {trace : List ProgramEvent}
    (hgreetings : greetings trace = [] ∨ greetings trace = [segment]) :
    (given trace).IsPrefix (overtaking trace ++ segment :: following trace) := by
  induction trace with
  | nil => exact List.nil_prefix
  | cons event rest ih =>
      cases event with
      | greeted first =>
          obtain hnone | hone := hgreetings
          · cases hnone
          · obtain ⟨rfl, hnone⟩ := List.cons.inj hone
            have hgiven : given (.greeted first :: rest) = first :: forwards rest :=
              congrArg (first :: ·) (VpnNet.given_eq_forwards hnone)
            rw [hgiven]
            exact List.prefix_refl _
      | forwarded package => exact List.cons_prefix_cons.mpr ⟨rfl, ih hgreetings⟩
      | received | wrote => exact ih hgreetings

section Examples

/-- A server, and clients with tokens of three bytes. -/
def VpnSetup.standard : VpnSetup where
  config _ _ := .standard
  crypto := .marking
  token link := [97, 98, UInt8.ofNat (99 + link)]
  localTunnelIp := 0x0a070001

/-- A package from the first client to the server. -/
def outbound : Bytes := [69, 0, 0, 20, 0, 0, 0, 0, 0, 0, 0, 0, 10, 7, 0, 2, 10, 7, 0, 1]

/-- A package from the server to the first client. -/
def inbound : Bytes := [69, 0, 0, 20, 0, 0, 0, 0, 0, 0, 0, 0, 10, 7, 0, 1, 10, 7, 0, 2]

/-- Another one. -/
def answer : Bytes := [69, 0, 0, 20, 1, 0, 0, 0, 0, 0, 0, 0, 10, 7, 0, 1, 10, 7, 0, 2]

/-- A package to the second client. -/
def elsewhere : Bytes := [69, 0, 0, 20, 0, 0, 0, 0, 0, 0, 0, 0, 10, 7, 0, 1, 10, 7, 0, 3]

/-- A package to an address that nobody has. -/
def astray : Bytes := [69, 0, 0, 20, 0, 0, 0, 0, 0, 0, 0, 0, 10, 7, 0, 1, 10, 7, 0, 9]

/-- The threads of a socket make a package of the segments on its list, and send it. -/
def sending (link : Nat) (side : Side) (turns : Nat) : List VpnAction :=
  List.replicate 10 (.socket link side (.segment .zero)) ++
    List.replicate turns (.socket link side .sender)

/-- A socket takes a package. -/
def taking (link : Nat) (side : Side) (turns : Nat) (id una : UInt64) (segments : Bytes) :
    List VpnAction :=
  List.replicate turns (.socket link side .receiver) ++
    [.socket link side
      (.receive (.data id una (SharpCrypto.marking.encrypt .zero (segments ++ [0, 0]))))]

/-- The cleanup loop of a thread passes over the entries of sockets that are alive and drops the
others. -/
def cleaning (link : Nat) : List (Bytes × Bool) → List VpnAction
  | [] => [.seek link none, .serve link [] false]
  | (token, alive) :: entries =>
      .seek link (some token) :: List.replicate (if alive then 2 else 4) (.serve link [] false) ++
        cleaning link entries

/-- A client sends its token, and an address is bound to it. -/
def registering (link : Nat) (entries : List (Bytes × Bool)) : List VpnAction :=
  .join link [] false :: sending link .a 3 ++ .accept :: cleaning link entries ++
    taking link .b 1 1 0 ([3, 0] ++ VpnSetup.standard.token link) ++
    List.replicate 8 (.serve link (List.replicate 24 0) false)

/-- The server reads a package and sends it to the client. -/
def forwarding (package : Bytes) : List VpnAction :=
  [.forward .server, .read .server package] ++ List.replicate 4 (.forward .server)

/-- The client gets its address. -/
def replying : List VpnAction :=
  .serve 0 [] false :: sending 0 .b 3 ++ taking 0 .a 1 1 1 [4, 0, 10, 7, 0, 2] ++
    List.replicate 4 (.join 0 (List.replicate 4 0) false)

/-- The client gets its address, and a package goes either way. -/
def exchange : List VpnAction :=
  registering 0 [] ++ replying ++
    [.forward (.client 0), .read (.client 0) outbound, .forward (.client 0)] ++ sending 0 .a 4 ++
    taking 0 .b 3 2 1 ([20, 0] ++ outbound) ++ List.replicate 7 (.serve 0 [] false) ++
    forwarding inbound ++ sending 0 .b 4 ++ taking 0 .a 3 2 2 ([20, 0] ++ inbound) ++
    List.replicate 7 (.join 0 [] false)

/-- Two packages arrive in the wrong order, and one of them twice. -/
def reordered : List VpnAction :=
  registering 0 [] ++ replying ++ forwarding inbound ++ sending 0 .b 4 ++ forwarding answer ++
    sending 0 .b 4 ++ taking 0 .a 3 3 1 ([20, 0] ++ answer) ++
    taking 0 .a 3 2 1 ([20, 0] ++ inbound) ++ taking 0 .a 3 3 1 ([20, 0] ++ answer) ++
    List.replicate 14 (.join 0 [] false)

/-- Neither end overruns its list or goes too far ahead. -/
def Steady (net : VpnNet) : Prop :=
  ∀ side ∈ [Side.a, .b], connection.Fits side (net.links 0) ∧ connection.Paced side (net.links 0)

instance (net : VpnNet) : Decidable (Steady net) :=
  inferInstanceAs (Decidable (∀ side ∈ _, _ ∧ _))

theorem exchange_run : ∃ net trace,
    (vpnMachine .standard).Reach (fun _ _ _ next => Steady next)
      (.init (fun _ _ => .zeroed) fun _ => []) net trace ∧
    (∀ side ∈ [Side.a, .b], droppedIds (Duplex.at_ side (linkTrace 0 trace)) = []) ∧
    (net.serving 0).ip = some 0x0200070a ∧
    programTrace 0 .a trace = [.greeted [97, 98, 99], .received [10, 7, 0, 2],
      .forwarded outbound, .wrote inbound] ∧
    programTrace 0 .b trace = [.received [97, 98, 99], .greeted [10, 7, 0, 2],
      .wrote outbound, .forwarded inbound] := by
  obtain ⟨net, trace, hreach, hview⟩ := Machine.reach_of_exec
    (fun (net : VpnNet) (trace : List VpnEvent) =>
      (decide (∀ side ∈ [Side.a, .b], droppedIds (Duplex.at_ side (linkTrace 0 trace)) = []),
        (net.serving 0).ip, programTrace 0 .a trace, programTrace 0 .b trace))
    (show ((vpnMachine .standard).exec (fun _ _ _ next => Steady next)
        (.init (fun _ _ => .zeroed) fun _ => []) [] exchange).map _ =
      some (true, some 0x0200070a,
        [.greeted [97, 98, 99], .received [10, 7, 0, 2], .forwarded outbound, .wrote inbound],
        [.received [97, 98, 99], .greeted [10, 7, 0, 2], .wrote outbound, .forwarded inbound])
      by decide +kernel)
  simp only [Prod.mk.injEq, decide_eq_true_eq] at hview
  exact ⟨net, trace, hreach, hview⟩

theorem reordered_run : ∃ net trace,
    (vpnMachine .standard).Reach (fun _ _ _ next => Steady next)
      (.init (fun _ _ => .zeroed) fun _ => []) net trace ∧
    (net.serving 0).ip = some 0x0200070a ∧ reads .server trace = [inbound, answer] ∧
    programTrace 0 .a trace =
      [.greeted [97, 98, 99], .received [10, 7, 0, 2], .wrote inbound, .wrote answer] ∧
    programTrace 0 .b trace = [.received [97, 98, 99], .greeted [10, 7, 0, 2],
      .forwarded inbound, .forwarded answer] := by
  obtain ⟨net, trace, hreach, hview⟩ := Machine.reach_of_exec
    (fun (net : VpnNet) (trace : List VpnEvent) =>
      ((net.serving 0).ip, reads .server trace, programTrace 0 .a trace, programTrace 0 .b trace))
    (show ((vpnMachine .standard).exec (fun _ _ _ next => Steady next)
        (.init (fun _ _ => .zeroed) fun _ => []) [] reordered).map _ =
      some (some 0x0200070a, [inbound, answer],
        [.greeted [97, 98, 99], .received [10, 7, 0, 2], .wrote inbound, .wrote answer],
        [.received [97, 98, 99], .greeted [10, 7, 0, 2], .forwarded inbound, .forwarded answer])
      by decide +kernel)
  simp only [Prod.mk.injEq] at hview
  exact ⟨net, trace, hreach, hview⟩

end Examples

namespace VpnNet

section Runs

variable {setup : VpnSetup} {net : VpnNet} {memory : Nat → Side → Memory}
  {buffers : Host → Bytes} {allowed : Machine.StepCondition VpnNet VpnAction VpnEvent}
  {trace : List VpnEvent} {link : Nat}

theorem reach_pushed (side : Side)
    (hreach : (vpnMachine setup).Reach allowed (.init memory buffers) net trace) :
    pushedAt link side trace = given (programTrace link side trace) := by
  refine hreach.invariant (fun _ trace =>
    pushedAt link side trace = given (programTrace link side trace)) rfl ?_
  intro net trace action next events hsame hstep _
  rw [pushedAt_append, programTrace_append, given, List.filterMap_append, hsame,
    (step_transition hstep).pushedAt_eq]

theorem reach_routed
    (hreach : (vpnMachine setup).Reach allowed (.init memory buffers) net trace) : net.Routed :=
  hreach.invariant (fun net _ => net.Routed) (fun _ => trivial)
    fun _ _ _ _ _ hrouted hstep _ => hrouted.step (step_transition hstep)

theorem reach_forwarding (host : Host)
    (hreach : (vpnMachine setup).Reach allowed (.init memory buffers) net trace) :
    Forwarding (buffers host) (net.hosts host) (reads host trace) (sentBy host trace) := by
  induction hreach with
  | start => exact ⟨rfl, nofun, List.nil_sublist _⟩
  | step hprior hstep _ ih =>
      rw [reads_append, sentBy_append]
      exact ih.step ((step_transition hstep).forwardMove (reach_routed hprior) host)

theorem reach_faithful
    (hreach : (vpnMachine setup).Reach allowed (.init memory buffers) net trace) :
    Faithful (net.isAlive link .a) (buffers (.client link)) (net.hosts (.client link))
      (reads (.client link) trace) (sentBy (.client link) trace) := by
  induction hreach with
  | start => exact ⟨List.nil_prefix, fun _ => rfl⟩
  | step hprior hstep _ ih =>
      have hrouted := reach_routed hprior
      have htransition := step_transition hstep
      rw [reads_append, sentBy_append]
      exact Faithful.step (reach_forwarding _ hprior) ih (hrouted link)
        (htransition.forwardMove hrouted _) (htransition.alive link .a)

theorem reach_asked (link : Nat)
    (hreach : (vpnMachine setup).Reach allowed (.init memory buffers) net trace) :
    Asked setup net link (programTrace link .a trace) := by
  induction hreach with
  | start => exact ⟨fun _ => ⟨rfl, rfl, rfl⟩, fun hne => absurd rfl hne⟩
  | step hprior hstep _ ih =>
      have hrouted := reach_routed hprior
      have htransition := step_transition hstep
      rw [programTrace_append]
      exact ih.step (htransition.giveMove hrouted link .a) (htransition.forwardMove hrouted _)
        (htransition.alive link .a)

theorem reach_directed
    (hreach : (vpnMachine setup).Reach allowed (.init memory buffers) net trace) :
    net.Directed := by
  induction hreach with
  | start => exact ⟨nofun, nofun⟩
  | step hprior hstep _ ih => exact ih.step (reach_routed hprior) (step_transition hstep)

theorem reach_attended (link : Nat)
    (hreach : (vpnMachine setup).Reach allowed (.init memory buffers) net trace) :
    net.Attended link (programTrace link .b trace) := by
  induction hreach with
  | start => exact ⟨.inl rfl, nofun⟩
  | step hprior hstep _ ih =>
      have htransition := step_transition hstep
      rw [programTrace_append]
      exact ih.step (reach_directed hprior) (reach_forwarding .server hprior)
        (htransition.giveMove (reach_routed hprior) link .b) fun _ hip => htransition.ip_eq hip

/-- No empty package is read. -/
theorem reach_reads (host : Host)
    (hreach : (vpnMachine setup).Reach allowed (.init memory buffers) net trace) :
    [] ∉ reads host trace := by
  induction hreach with
  | start => exact nofun
  | step hprior hstep _ ih =>
      rw [reads_append, List.mem_append, not_or]
      refine ⟨ih, ?_⟩
      have hmove := (step_transition hstep).forwardMove (reach_routed hprior) host
      generalize reads host _ = packages at hmove ⊢
      generalize sentBy host _ = sent at hmove
      cases hmove with
      | still | moved | sent => exact nofun
      | read _ hpositive =>
          rw [List.mem_singleton]
          rintro rfl
          cases hpositive

theorem sentBy_sublist (host : Host)
    (hreach : (vpnMachine setup).Reach allowed (.init memory buffers) net trace) :
    (sentBy host trace).Sublist (carried (buffers host) (reads host trace)) :=
  (List.sublist_append_left _ _).trans (reach_forwarding host hreach).sent

theorem nil_notMem_sentBy (host : Host)
    (hreach : (vpnMachine setup).Reach allowed (.init memory buffers) net trace) :
    [] ∉ sentBy host trace := fun hmem =>
  reach_reads host hreach ((carried_sublist _ _).subset ((sentBy_sublist host hreach).subset hmem))

/-- What a client has given to its socket: its token, and what has been read from its tunnel. -/
theorem reach_given
    (hreach : (vpnMachine setup).Reach allowed (.init memory buffers) net trace) :
    pushedAt link .a trace = [] ∨
      pushedAt link .a trace = setup.token link :: sentBy (.client link) trace := by
  have hasked := reach_asked link hreach
  rw [reach_pushed .a hreach, ← forwards_eq_sentBy]
  by_cases hjoining : net.joining link = .connected
  · exact .inl (hasked.quiet hjoining).2.1
  · exact (hasked.asked hjoining).symm.imp_left And.left

/-- What follows a token, whatever has become of it. -/
theorem positive_sublist {token first : Bytes} {rest packages : List Bytes}
    (hsublist : (positive (first :: rest)).Sublist (token :: packages))
    (hpositive : [] ∉ token :: packages → [] ∉ first :: rest) (hpackages : [] ∉ packages) :
    (positive rest).Sublist packages := by
  cases token with
  | nil =>
      have hrest : (positive rest).Sublist ([] :: packages) :=
        ((List.sublist_cons_self first rest).filter _).trans hsublist
      have hfiltered : (positive (positive rest)).Sublist (positive packages) := hrest.filter _
      rwa [positive_eq_self (by simp [positive]), positive_eq_self hpackages] at hfiltered
  | cons byte token =>
      have hnone : [] ∉ first :: rest := hpositive (by simpa using hpackages)
      rw [positive_eq_self hnone] at hsublist
      rw [positive_eq_self fun hmem => hnone (List.mem_cons_of_mem first hmem)]
      exact hsublist.of_cons_cons

/-- What has come from a client is written to the tunnel of the server in the order it was read
from the tunnel of the client, and nothing else is, whatever is lost on the way. -/
theorem uplink_sublist
    (hreach : (vpnMachine setup).Reach
      (fun _ _ _ next => connection.Fits .a (next.links link)) (.init memory buffers) net trace) :
    (writes (programTrace link .b trace)).Sublist
      (carried (buffers (.client link)) (reads (.client link) trace)) := by
  have hcarries := carries_link link .a (fun _ _ _ _ hfits => hfits) hreach
  have hnone := nil_notMem_sentBy (.client link) hreach
  refine List.Sublist.trans ?_ (sentBy_sublist (.client link) hreach)
  obtain ⟨-, -, hwrites⟩ | ⟨first, rest, -, hreturned, hwrites⟩ :=
    (reach_progress link .b hreach).later
  · rw [hwrites]
    exact List.nil_sublist _
  · refine hwrites.sublist.trans ?_
    obtain ⟨hsublist, hpositive, -⟩ := hcarries
    simp only [Side.peer, hreturned] at hsublist hpositive
    obtain hgiven | hgiven := reach_given hreach
    · rw [hgiven] at hsublist
      exact (((List.sublist_cons_self first rest).filter _).trans hsublist).trans
        (List.nil_sublist _)
    · rw [hgiven] at hsublist hpositive
      exact positive_sublist hsublist hpositive hnone

theorem uplink_sublist_exchange : ∃ net trace,
    (vpnMachine .standard).Reach (fun _ _ _ next => connection.Fits .a (next.links 0))
      (.init (fun _ _ => .zeroed) fun _ => []) net trace ∧
    writes (programTrace 0 .b trace) = [outbound] ∧
    (writes (programTrace 0 .b trace)).Sublist (carried [] (reads (.client 0) trace)) := by
  obtain ⟨net, trace, hsteady, -, -, -, hserver⟩ := exchange_run
  have hreach : (vpnMachine .standard).Reach
      (fun _ _ _ next => connection.Fits .a (next.links 0)) _ net trace :=
    hsteady.weaken fun _ _ _ _ _ _ _ hallowed => (hallowed .a (by decide)).1
  exact ⟨net, trace, hreach, by rw [hserver]; rfl, uplink_sublist hreach⟩

/-- While a client's socket drops nothing and keeps pace with the server's, what has come is
the token, and all that was read up to some package. -/
theorem uplink_prefix
    (hreach : (vpnMachine setup).Reach
      (fun _ _ _ next => connection.Fits .a (next.links link) ∧
        connection.Paced .a (next.links link)) (.init memory buffers) net trace)
    (hdropped : droppedIds (Duplex.at_ .a (linkTrace link trace)) = [])
    (htoken : setup.token link ≠ []) :
    (receipts (programTrace link .b trace)).IsPrefix [setup.token link] ∧
      (writes (programTrace link .b trace)).IsPrefix
        (carried (buffers (.client link)) (reads (.client link) trace)) := by
  have hcarries := carries_link link .a (fun _ _ _ _ hallowed => hallowed.1) hreach
  have hnone := nil_notMem_sentBy (.client link) hreach
  obtain ⟨hreceipts, -, hwrites⟩ | ⟨first, rest, hreceipts, hreturned, hwrites⟩ :=
    (reach_progress link .b hreach).later
  · rw [hreceipts, hwrites]
    exact ⟨List.nil_prefix, List.nil_prefix⟩
  · have hleading := hcarries.isPrefix ⟨fun _ _ _ _ hallowed => hallowed.2, hdropped⟩
    have hpositive := hcarries.positive_
    simp only [Side.peer, hreturned] at hleading hpositive
    obtain hgiven | hgiven := reach_given hreach
    · rw [hgiven] at hleading
      exact absurd (hleading List.not_mem_nil) (by simp)
    · rw [hgiven] at hleading hpositive
      have hpushed : [] ∉ setup.token link :: sentBy (.client link) trace := by
        rw [List.mem_cons, not_or]
        exact ⟨htoken.symm, hnone⟩
      obtain ⟨rfl, hrest⟩ := List.cons_prefix_cons.mp (hleading hpushed)
      rw [positive_eq_self fun hmem => hpositive hpushed (List.mem_cons_of_mem _ hmem)] at hwrites
      rw [hreceipts]
      exact ⟨List.prefix_refl _, (hwrites.trans hrest).trans (reach_faithful hreach).isPrefix⟩

theorem uplink_prefix_exchange : ∃ net trace,
    (vpnMachine .standard).Reach
      (fun _ _ _ next => connection.Fits .a (next.links 0) ∧ connection.Paced .a (next.links 0))
      (.init (fun _ _ => .zeroed) fun _ => []) net trace ∧
    receipts (programTrace 0 .b trace) = [[97, 98, 99]] ∧
    writes (programTrace 0 .b trace) = [outbound] ∧
    (receipts (programTrace 0 .b trace)).IsPrefix [[97, 98, 99]] ∧
    (writes (programTrace 0 .b trace)).IsPrefix (carried [] (reads (.client 0) trace)) := by
  obtain ⟨net, trace, hsteady, hdropped, -, -, hserver⟩ := exchange_run
  have hreach : (vpnMachine .standard).Reach (fun _ _ _ next => connection.Fits .a (next.links 0) ∧
      connection.Paced .a (next.links 0)) _ net trace :=
    hsteady.weaken fun _ _ _ _ _ _ _ hallowed => hallowed .a (by decide)
  refine ⟨net, trace, hreach, by rw [hserver]; rfl, by rw [hserver]; rfl, ?_⟩
  exact uplink_prefix hreach (hdropped .a (by decide)) (by decide)

/-- What the server has given to the socket of a link: the address of the link, and packages
addressed to it. -/
theorem reach_replied {ip : UInt32} (hip : (net.serving link).ip = some ip)
    (hreach : (vpnMachine setup).Reach allowed (.init memory buffers) net trace) :
    (pushedAt link .b trace).IsPrefix (overtaking (programTrace link .b trace) ++
        infoBytes ip :: following (programTrace link .b trace)) ∧
      ∀ package ∈ forwards (programTrace link .b trace), AddressedTo ip package := by
  have hattended := reach_attended link hreach
  rw [reach_pushed .b hreach]
  constructor
  · refine given_isPrefix (hattended.greeted.imp_right ?_)
    rintro ⟨other, -, hother, hgreetings⟩
    rw [hip] at hother
    cases hother
    exact hgreetings
  · intro package hmem
    obtain ⟨other, hother, haddressed⟩ := hattended.addressed package hmem
    rw [hip] at hother
    cases hother
    exact haddressed

/-- Before a link has an address, the server has given nothing to its socket. -/
theorem reach_unreplied (hip : (net.serving link).ip = none)
    (hreach : (vpnMachine setup).Reach allowed (.init memory buffers) net trace) :
    pushedAt link .b trace = [] := by
  have hattended := reach_attended link hreach
  rw [reach_pushed .b hreach, given_eq_forwards]
  · refine List.eq_nil_iff_forall_not_mem.mpr fun package hmem => ?_
    obtain ⟨ip, hsome, -⟩ := hattended.addressed package hmem
    rw [hip] at hsome
    cases hsome
  · obtain hnone | ⟨ip, -, hsome, -⟩ := hattended.greeted
    · exact hnone
    · rw [hip] at hsome
      cases hsome

theorem nil_notMem_pushed
    (hreach : (vpnMachine setup).Reach allowed (.init memory buffers) net trace) :
    [] ∉ pushedAt link .b trace := by
  cases hip : (net.serving link).ip with
  | none =>
      rw [reach_unreplied hip hreach]
      exact List.not_mem_nil
  | some ip =>
      intro hmem
      have hnone : [] ∉ forwards (programTrace link .b trace) := fun hforwarded =>
        nil_notMem_sentBy .server hreach ((forwards_sublist_sentBy link trace).subset hforwarded)
      rw [forwards_split, List.mem_append, not_or] at hnone
      have hgiven := (reach_replied hip hreach).1.subset hmem
      rw [List.mem_append, List.mem_cons] at hgiven
      obtain hbefore | hinfo | hafter := hgiven
      · exact hnone.1 hbefore
      · cases hinfo
      · exact hnone.2 hafter

/-- What a client makes of what is returned to it. -/
theorem received_isPrefix (hpositive : [] ∉ returnedAt link .a trace)
    (hreach : (vpnMachine setup).Reach allowed (.init memory buffers) net trace) :
    (receipts (programTrace link .a trace) ++ writes (programTrace link .a trace)).IsPrefix
      (returnedAt link .a trace) := by
  obtain ⟨hreceipts, -, hwrites⟩ | ⟨first, rest, hreceipts, hreturned, hwrites⟩ :=
    (reach_progress link .a hreach).later
  · rw [hreceipts, hwrites]
    exact List.nil_prefix
  · rw [hreturned] at hpositive ⊢
    rw [positive_eq_self fun hmem => hpositive (List.mem_cons_of_mem first hmem)] at hwrites
    rw [hreceipts]
    exact List.cons_prefix_cons.mpr ⟨rfl, hwrites⟩

theorem reach_looping {own : UInt32} {loop : SocketLoop}
    (hreach : (vpnMachine setup).Reach allowed (.init memory buffers) net trace)
    (hjoining : net.joining link = .looping own loop) :
    ∀ segment ∈ receipts (programTrace link .a trace),
      segment.length ≤ dhcpInfoBytes ∧ ∃ rest, own = infoAt (segment ++ rest) := by
  induction hreach generalizing loop with
  | start => cases hjoining
  | @step net next trace events action hprior hstep _ ih =>
      have htransition := step_transition hstep
      rw [programTrace_append, receipts, List.filterMap_append]
      obtain ⟨before, hbefore⟩ | ⟨hawaiting, memory, info, call, hlength, hinfo, rfl, hreceipts⟩ :=
        htransition.own_eq hjoining
      · have hnone := (htransition.intakeMove link .a).receipts_eq_nil
          (congrArg ClientThread.intake hbefore)
        rw [receipts] at hnone
        rw [hnone, List.append_nil]
        exact ih hbefore
      · have hnone := (reach_progress link .a hprior).received_eq_nil
          (congrArg ClientThread.intake hawaiting)
        rw [receipts] at hnone hreceipts
        rw [hnone, List.nil_append, hreceipts]
        cases call with
        | pending | failed => exact nofun
        | returned first =>
            obtain ⟨hfits, rest, rfl⟩ := RecvCall.fill_returned hinfo
            intro segment hmem
            obtain rfl := List.mem_singleton.mp hmem
            exact ⟨hlength ▸ hfits, rest, rfl⟩

/-- The address of a client is the one it has received. -/
theorem reach_own
    (hreach : (vpnMachine setup).Reach allowed (.init memory buffers) net trace) :
    ∀ segment ∈ receipts (programTrace link .a trace), ∃ own, (net.joining link).own = some own ∧
      segment.length ≤ dhcpInfoBytes ∧ ∃ rest, own = infoAt (segment ++ rest) := by
  cases hjoining : net.joining link with
  | connected | awaiting =>
      rw [(reach_progress link .a hreach).received_eq_nil (congrArg ClientThread.intake hjoining)]
      exact nofun
  | looping own loop =>
      exact fun segment hmem => ⟨own, rfl, reach_looping hreach hjoining segment hmem⟩

theorem sublist_of_notMem {α : Type} {first : α} {rest before after : List α}
    (hsublist : (first :: rest).Sublist (before ++ after)) (hfirst : first ∉ before) :
    (first :: rest).Sublist after := by
  induction before with
  | nil => exact hsublist
  | cons other before ih =>
      rw [List.mem_cons, not_or] at hfirst
      exact ih (hsublist.of_cons_of_ne hfirst.1) hfirst.2

/-- A client whose link carries its address and longer packages takes the address for it. -/
theorem told {ip : UInt32}
    (hlonger : ∀ package ∈ forwards (programTrace link .b trace), dhcpInfoBytes < package.length)
    (hsublist : (receipts (programTrace link .a trace) ++
      writes (programTrace link .a trace)).Sublist (overtaking (programTrace link .b trace) ++
        infoBytes ip :: following (programTrace link .b trace)))
    (hreach : (vpnMachine setup).Reach allowed (.init memory buffers) net trace) :
    (receipts (programTrace link .a trace)).IsPrefix [infoBytes ip] ∧
      (writes (programTrace link .a trace)).Sublist (following (programTrace link .b trace)) ∧
      (receipts (programTrace link .a trace) ≠ [] → (net.joining link).own = some ip) := by
  obtain ⟨hreceipts, -, hwrites⟩ | ⟨first, -, hreceipts, -, -⟩ :=
    (reach_progress link .a hreach).later
  · rw [hreceipts, hwrites]
    exact ⟨List.nil_prefix, List.nil_sublist _, absurd rfl⟩
  · obtain ⟨own, hown, hshort, rest, heq⟩ := reach_own hreach first (by
      rw [hreceipts]
      exact List.mem_singleton_self _)
    rw [hreceipts, List.singleton_append] at hsublist
    rw [forwards_split, List.forall_mem_append] at hlonger
    have hafter := sublist_of_notMem hsublist fun hmem =>
      absurd (hlonger.1 first hmem) (Nat.not_lt.mpr hshort)
    have hfirst : first = infoBytes ip := by
      by_contra hne
      have hmem := (hafter.of_cons_of_ne hne).subset List.mem_cons_self
      exact absurd (hlonger.2 first hmem) (Nat.not_lt.mpr hshort)
    subst hfirst
    refine ⟨by rw [hreceipts], List.cons_sublist_cons.mp hafter, fun _ => ?_⟩
    rw [hown, heq, infoAt_infoBytes]

/-- A client gets nothing before its link has an address. From then on it gets this address and
packages that were read from the tunnel of the server and are addressed to it, in order. It
takes the address for its own, and writes what was forwarded after it, unless packages are as
short as an address. -/
theorem downlink_sublist
    (hreach : (vpnMachine setup).Reach
      (fun _ _ _ next => connection.Fits .b (next.links link)) (.init memory buffers) net trace) :
    ((net.serving link).ip = none →
      receipts (programTrace link .a trace) = [] ∧ writes (programTrace link .a trace) = []) ∧
    ∀ ip, (net.serving link).ip = some ip →
      (receipts (programTrace link .a trace) ++ writes (programTrace link .a trace)).Sublist
        (overtaking (programTrace link .b trace) ++
          infoBytes ip :: following (programTrace link .b trace)) ∧
      (forwards (programTrace link .b trace)).Sublist
        (carried (buffers .server) (reads .server trace)) ∧
      (∀ package ∈ forwards (programTrace link .b trace), AddressedTo ip package) ∧
      ((∀ package ∈ reads .server trace, dhcpInfoBytes < package.length) →
        (receipts (programTrace link .a trace)).IsPrefix [infoBytes ip] ∧
        (writes (programTrace link .a trace)).Sublist (following (programTrace link .b trace)) ∧
        (receipts (programTrace link .a trace) ≠ [] → (net.joining link).own = some ip)) := by
  have hcarries := carries_link link .b (fun _ _ _ _ hfits => hfits) hreach
  have hpositive := hcarries.positive_ (nil_notMem_pushed hreach)
  have hsublist := hcarries.sublist
  simp only [Side.peer] at hpositive hsublist
  rw [positive_eq_self hpositive] at hsublist
  have hreturned := (received_isPrefix hpositive hreach).sublist.trans hsublist
  constructor
  · intro hip
    rw [reach_unreplied hip hreach, List.sublist_nil, List.append_eq_nil_iff] at hreturned
    exact hreturned
  · intro ip hip
    obtain ⟨hpushed, haddressed⟩ := reach_replied hip hreach
    have hall := hreturned.trans hpushed.sublist
    have hforwards := (forwards_sublist_sentBy link trace).trans (sentBy_sublist .server hreach)
    refine ⟨hall, hforwards, haddressed, fun hlonger => told (fun package hmem => ?_) hall hreach⟩
    exact hlonger package ((carried_sublist _ _).subset (hforwards.subset hmem))

/-- Two packages that arrive out of order, and one of them twice, are written in order. -/
theorem downlink_sublist_reordered : ∃ net trace,
    (vpnMachine .standard).Reach (fun _ _ _ next => connection.Fits .b (next.links 0))
      (.init (fun _ _ => .zeroed) fun _ => []) net trace ∧
    writes (programTrace 0 .a trace) = [inbound, answer] ∧
    (receipts (programTrace 0 .a trace) ++ writes (programTrace 0 .a trace)).Sublist
      [infoBytes 0x0200070a, inbound, answer] ∧
    (receipts (programTrace 0 .a trace)).IsPrefix [infoBytes 0x0200070a] ∧
    (net.joining 0).own = some 0x0200070a := by
  obtain ⟨net, trace, hsteady, hip, hreads, hclient, hserver⟩ := reordered_run
  have hreach : (vpnMachine .standard).Reach
      (fun _ _ _ next => connection.Fits .b (next.links 0)) _ net trace :=
    hsteady.weaken fun _ _ _ _ _ _ _ hallowed => (hallowed .b (by decide)).1
  obtain ⟨hsublist, -, -, htold⟩ := (downlink_sublist hreach).2 _ hip
  obtain ⟨hreceipts, -, hown⟩ := htold (by rw [hreads]; decide)
  rw [hserver] at hsublist
  refine ⟨net, trace, hreach, by rw [hclient]; rfl, hsublist, hreceipts, hown ?_⟩
  rw [hclient]
  exact nofun

/-- While the server's socket drops nothing and keeps pace with the client's, what a client gets
is all that was sent, up to some package. The address it has is that of its link, unless a
package came before it. -/
theorem downlink_prefix {ip : UInt32}
    (hreach : (vpnMachine setup).Reach
      (fun _ _ _ next => connection.Fits .b (next.links link) ∧
        connection.Paced .b (next.links link)) (.init memory buffers) net trace)
    (hdropped : droppedIds (Duplex.at_ .b (linkTrace link trace)) = [])
    (hip : (net.serving link).ip = some ip) :
    (receipts (programTrace link .a trace) ++ writes (programTrace link .a trace)).IsPrefix
        (overtaking (programTrace link .b trace) ++
          infoBytes ip :: following (programTrace link .b trace)) ∧
      (overtaking (programTrace link .b trace) = [] →
        receipts (programTrace link .a trace) ≠ [] → (net.joining link).own = some ip) := by
  have hcarries := carries_link link .b (fun _ _ _ _ hallowed => hallowed.1) hreach
  have hpositive := hcarries.positive_ (nil_notMem_pushed hreach)
  have hleading := hcarries.isPrefix ⟨fun _ _ _ _ hallowed => hallowed.2, hdropped⟩
    (nil_notMem_pushed hreach)
  simp only [Side.peer] at hpositive hleading
  have hall := ((received_isPrefix hpositive hreach).trans hleading).trans
    (reach_replied hip hreach).1
  refine ⟨hall, fun hovertaking hreceipts => ?_⟩
  rw [hovertaking, List.nil_append] at hall
  obtain ⟨first, rest, hfirst⟩ := List.exists_cons_of_ne_nil hreceipts
  rw [hfirst, List.cons_append, List.cons_prefix_cons] at hall
  obtain ⟨own, hown, -, tail, heq⟩ := reach_own hreach first (by rw [hfirst]; exact .head _)
  rw [hown, heq, hall.1, infoAt_infoBytes]

theorem downlink_prefix_exchange : ∃ net trace,
    (vpnMachine .standard).Reach
      (fun _ _ _ next => connection.Fits .b (next.links 0) ∧ connection.Paced .b (next.links 0))
      (.init (fun _ _ => .zeroed) fun _ => []) net trace ∧
    (receipts (programTrace 0 .a trace) ++ writes (programTrace 0 .a trace)).IsPrefix
      [infoBytes 0x0200070a, inbound] ∧
    (net.joining 0).own = some 0x0200070a := by
  obtain ⟨net, trace, hsteady, hdropped, hip, hclient, hserver⟩ := exchange_run
  have hreach : (vpnMachine .standard).Reach (fun _ _ _ next => connection.Fits .b (next.links 0) ∧
      connection.Paced .b (next.links 0)) _ net trace :=
    hsteady.weaken fun _ _ _ _ _ _ _ hallowed => hallowed .b (by decide)
  obtain ⟨hleading, hown⟩ := downlink_prefix hreach (hdropped .b (by decide)) hip
  rw [hserver] at hleading hown
  rw [hclient] at hown
  exact ⟨net, trace, hreach, hleading, hown rfl nofun⟩

theorem addressed_dispatches
    (hreach : (vpnMachine setup).Reach allowed (.init memory buffers) net trace) :
    ∀ link package, (link, package) ∈ dispatches trace →
      ∃ ip, (net.serving link).ip = some ip ∧ AddressedTo ip package := by
  intro link package hmem
  refine (reach_attended link hreach).addressed package ?_
  rw [← map_filter_dispatches]
  exact List.mem_map.mpr ⟨(link, package), List.mem_filter.mpr ⟨hmem, by simp⟩, rfl⟩

/-- A package read by the server goes to one client at most, and is addressed to it. -/
theorem dispatched
    (hreach : (vpnMachine setup).Reach Machine.always (.init memory buffers) net trace) :
    ((dispatches trace).map Prod.snd).Sublist (carried (buffers .server) (reads .server trace)) ∧
      ∀ link package, (link, package) ∈ dispatches trace →
        ∃ ip, (net.serving link).ip = some ip ∧ AddressedTo ip package := by
  refine ⟨?_, addressed_dispatches hreach⟩
  rw [map_dispatches]
  exact sentBy_sublist .server hreach

/-- Two clients get a package each, and a third package is for nobody. -/
theorem dispatched_two : ∃ net trace,
    (vpnMachine .standard).Reach Machine.always (.init (fun _ _ => .zeroed) fun _ => []) net
      trace ∧
    reads .server trace = [inbound, astray, elsewhere] ∧
    dispatches trace = [(0, inbound), (1, elsewhere)] ∧
    ((dispatches trace).map Prod.snd).Sublist (carried [] (reads .server trace)) ∧
    ∀ link package, (link, package) ∈ dispatches trace →
      ∃ ip, (net.serving link).ip = some ip ∧ AddressedTo ip package := by
  obtain ⟨net, trace, hreach, hview⟩ := Machine.reach_of_exec
    (fun (_ : VpnNet) (trace : List VpnEvent) => (reads .server trace, dispatches trace))
    (show ((vpnMachine .standard).exec Machine.always (.init (fun _ _ => .zeroed) fun _ => []) []
        (registering 0 [] ++ registering 1 [([97, 98, 99], true)] ++ forwarding inbound ++
          [.forward .server, .read .server astray, .forward .server] ++
          forwarding elsewhere)).map _ =
      some ([inbound, astray, elsewhere], [(0, inbound), (1, elsewhere)]) by decide +kernel)
  obtain ⟨hreads, hdispatches⟩ := Prod.mk.inj hview
  exact ⟨net, trace, hreach, hreads, hdispatches, dispatched hreach⟩

end Runs

end VpnNet

end Sharpvpn
