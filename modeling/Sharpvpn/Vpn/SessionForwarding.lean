import Sharpvpn.Vpn.SessionIntake

/-!
# What the hosts forward

A socket is given nothing but the greeting of its program and the packages of the forwarder. The
forwarder disposes of one package before it reads the next.
-/

namespace Sharpvpn

open Foundation

/-- The packages that the forwarder of a host has put on the lists of its sockets. -/
def VpnEvent.sent? (host : Host) : VpnEvent → Option Bytes
  | .program link (side, .forwarded package) =>
      if Host.of link side = host then some package else none
  | .program _ (_, .greeted _) | .program _ (_, .received _) | .program _ (_, .wrote _)
  | .socket .. | .table _ | .read .. | .nullDereferenced => none

def sentBy (host : Host) (trace : List VpnEvent) : List Bytes :=
  trace.filterMap (VpnEvent.sent? host)

/-- The package that a forwarder has read and not disposed of. -/
def Forwarder.held (tunBuf : Bytes) : Forwarder → List Bytes
  | .finding r | .looking r | .checking _ r | .sending _ r => [tunBuf.take r]
  | .testing | .reading | .exited => []

def SharpVpn.held (vpn : SharpVpn) : List Bytes := vpn.forwarder.held vpn.tunBuf

namespace VpnNet

section Given

variable {setup : VpnSetup} {net next : VpnNet} {link other : Nat} {side end_ : Side}
  {action : Action} {pair : Duplex.State ReliableSocket Datagram} {inner : List (Side × Event)}
  {events : List VpnEvent}

theorem pushedAt_map :
    pushedAt link side (inner.map (.socket other)) =
      if other = link then pushedSegments (Duplex.at_ side inner) else [] := by
  unfold pushedAt
  split
  next hlink => rw [hlink, linkTrace_map_self]
  next hlink =>
    rw [linkTrace_map_ne link hlink]
    rfl

theorem pushedAt_offline (hoffline : Offline events) : pushedAt link side events = [] := by
  unfold pushedAt
  rw [hoffline.linkTrace_eq_nil]
  rfl

theorem pushedAt_quiet (hpushed : ∀ other, pushedSegments (Duplex.at_ other inner) = []) :
    pushedAt link side (inner.map (.socket other)) = [] := by
  rw [pushedAt_map, hpushed, ite_self]

/-- `send_package` puts the segment on the list of a socket that is alive. -/
theorem Sends.pushedAt_eq {segment : Bytes}
    (hsends : net.Sends setup other end_ segment pair inner) :
    pushedAt link side (inner.map (.socket other)) =
      if (other = link ∧ end_ = side) ∧ net.isAlive other end_ then [segment] else [] := by
  obtain ⟨hstep, -, hpeer⟩ := connection.advance_step hsends
  rw [pushedAt_map]
  by_cases hlink : other = link
  · rw [if_pos hlink]
    rcases Side.eq_or_eq_peer end_ side with rfl | rfl
    · simp only [ReliableSocket.step, ReliableSocket.sendPackage] at hstep
      unfold isAlive
      split at hstep
      next halive =>
        rw [if_pos ⟨⟨hlink, rfl⟩, halive⟩, ← (Prod.mk.inj (Option.some.inj hstep)).2]
        rfl
      next hdead =>
        rw [if_neg fun hall => hdead hall.2, ← (Prod.mk.inj (Option.some.inj hstep)).2]
        rfl
    · rw [if_neg (by simp), hpeer]
      rfl
  · rw [if_neg hlink, if_neg fun hall => hlink hall.1.1]

/-- A socket is given what its program says it gives. -/
theorem Transition.pushedAt_eq (htransition : net.Transition setup next events) (link : Nat)
    (side : Side) : pushedAt link side events = given (programTrace link side events) := by
  cases htransition with
  | socket _ hpushed => rw [pushedAt_quiet hpushed, programTrace_socket]; rfl
  | tables _ hevents =>
      obtain ⟨hoffline, hprogram⟩ := tables_events hevents
      rw [pushedAt_offline hoffline, hprogram]
      rfl
  | closing _ hadvance =>
      obtain ⟨hoffline, hprogram⟩ := tables_events (@forall_mem_map_table _)
      rw [pushedAt_append, programTrace_append, hprogram, pushedAt_offline hoffline,
        pushedAt_quiet (connection.pushed_of_advance hadvance nofun), programTrace_socket]
      rfl
  | named _ _ hcall | joined _ _ hcall =>
      rw [pushedAt_append, pushedAt_offline (offline_call _ _ _), programTrace_append,
        pushedAt_quiet (connection.pushed_of_advance hcall.advance nofun), programTrace_socket,
        programTrace_call]
      split
      next => cases ‹RecvCall› <;> rfl
      next => rfl
  | @bound _ _ _ inner =>
      obtain ⟨hoffline, hprogram⟩ := tables_events (@forall_mem_map_table inner)
      rw [pushedAt_offline hoffline, hprogram]
      rfl
  | replied _ hsends | asked _ hsends | forwarded _ hsends =>
      rw [pushedAt_append, hsends.pushedAt_eq, pushedAt_offline (offline_program _ _),
        programTrace_append, programTrace_socket, programTrace_if]
      split <;> rfl
  | tested | failed | moved | stopping | read => rfl
  | took _ hcall =>
      rw [pushedAt_quiet (connection.pushed_of_advance hcall.advance nofun), programTrace_socket]
      rfl
  | written =>
      rw [pushedAt_offline (offline_program _ _), programTrace_if]
      split <;> rfl
  | stopped hadvance =>
      rw [pushedAt_quiet (connection.pushed_of_advance hadvance nofun), programTrace_socket]
      rfl

end Given

/-- What a step of the hosts does to the forwarder of one. The lists are the packages it reads
and those it sends. -/
inductive ForwardMove (net next : VpnNet) (host : Host) : List Bytes → List Bytes → Prop
  | still (hforwarder : (next.hosts host).forwarder = (net.hosts host).forwarder)
      (htunBuf : (next.hosts host).tunBuf = (net.hosts host).tunBuf) :
      ForwardMove net next host [] []
  | read {package} (hreading : (net.hosts host).forwarder = .reading)
      (hpositive : 0 < package.length)
      (htunBuf : (next.hosts host).tunBuf = readInto (net.hosts host).tunBuf package)
      (hnext : (next.hosts host).forwarder =
        if passes (readInto (net.hosts host).tunBuf package) then host.onward package.length
        else .testing) : ForwardMove net next host [package] []
  | moved (htunBuf : (next.hosts host).tunBuf = (net.hosts host).tunBuf)
      (hmove : net.ForwarderMove host (net.hosts host).forwarder (next.hosts host).forwarder) :
      ForwardMove net next host [] []
  | sent {link r} (hsending : (net.hosts host).forwarder = .sending link r)
      (htunBuf : (next.hosts host).tunBuf = (net.hosts host).tunBuf)
      (hnext : (next.hosts host).forwarder = .testing) :
      ForwardMove net next host []
        (if net.isAlive link host.side then [(net.hosts host).tunBuf.take r] else [])

section Moves

variable {setup : VpnSetup} {net next : VpnNet} {host : Host} {events more : List VpnEvent}

theorem sentBy_append : sentBy host (events ++ more) = sentBy host events ++ sentBy host more :=
  List.filterMap_append

theorem sentBy_socket (link : Nat) (inner : List (Side × Event)) :
    sentBy host (inner.map (.socket link)) = [] := by
  simp [sentBy, List.filterMap_map, Function.comp_def, VpnEvent.sent?]

theorem reads_read (other : Host) (package : Bytes) :
    reads host [.read other package] = if other = host then [package] else [] := by
  unfold reads VpnEvent.read?
  split <;> simp_all

theorem sentBy_forwarded (link : Nat) (side : Side) (package : Bytes) :
    sentBy host [.program link (side, .forwarded package)] =
      if Host.of link side = host then [package] else [] := by
  unfold sentBy VpnEvent.sent?
  split <;> simp_all

/-- Events of which none is a package read or forwarded. -/
theorem forwards_nothing (hread : ∀ other package, .read other package ∉ events)
    (hsent : ∀ link side package, .program link (side, .forwarded package) ∉ events) :
    reads host events = [] ∧ sentBy host events = [] := by
  constructor
  · refine List.filterMap_eq_nil_iff.mpr fun event hmem => ?_
    cases event with
    | read other package => exact absurd hmem (hread other package)
    | socket | program | table | nullDereferenced => rfl
  · refine List.filterMap_eq_nil_iff.mpr fun event hmem => ?_
    cases event with
    | program link event =>
        obtain ⟨side, event⟩ := event
        cases event with
        | forwarded package => exact absurd hmem (hsent link side package)
        | greeted | received | wrote => rfl
    | socket | table | read | nullDereferenced => rfl

/-- Steps that leave the hosts as they are. -/
theorem ForwardMove.of_hosts (hhosts : next.hosts = net.hosts)
    (hread : ∀ other package, .read other package ∉ events)
    (hsent : ∀ link side package, .program link (side, .forwarded package) ∉ events) :
    ForwardMove net next host (reads host events) (sentBy host events) := by
  obtain ⟨hreads, hsends⟩ := @forwards_nothing host events hread hsent
  rw [hreads, hsends]
  exact .still (by rw [hhosts]) (by rw [hhosts])

/-- The states of a client's forwarder: it has no link to look for. -/
def OwnLink (link : Nat) : Forwarder → Prop
  | .testing | .reading | .exited => True
  | .sending other _ => other = link
  | .finding _ | .looking _ | .checking .. => False

/-- The forwarder of a client sends over its own link. -/
def Routed (net : VpnNet) : Prop :=
  ∀ link, OwnLink link (net.hosts (.client link)).forwarder

theorem setHost_forwarder (net : VpnNet) {host other : Host} {vpn : SharpVpn}
    (hforwarder : vpn.forwarder = (net.hosts host).forwarder) :
    ((net.setHost host vpn).hosts other).forwarder = (net.hosts other).forwarder := by
  by_cases hother : other = host
  · subst hother
    simpa [setHost] using hforwarder
  · simp [setHost, Function.update_of_ne hother]

theorem setHost_tunBuf (net : VpnNet) {host other : Host} {vpn : SharpVpn}
    (htunBuf : vpn.tunBuf = (net.hosts host).tunBuf) :
    ((net.setHost host vpn).hosts other).tunBuf = (net.hosts other).tunBuf := by
  by_cases hother : other = host
  · subst hother
    simpa [setHost] using htunBuf
  · simp [setHost, Function.update_of_ne hother]

/-- A change of another host. -/
theorem ForwardMove.of_ne {other : Host} {vpn : SharpVpn} (hne : host ≠ other)
    (hnext : next.hosts = Function.update net.hosts other vpn) :
    ForwardMove net next host [] [] :=
  .still (by rw [hnext, Function.update_of_ne hne]) (by rw [hnext, Function.update_of_ne hne])

theorem of_side_of_sending {link r : Nat} (hrouted : net.Routed)
    (hsending : (net.hosts host).forwarder = .sending link r) : Host.of link host.side = host := by
  cases host with
  | server => rfl
  | client own =>
      have hown := hrouted own
      rw [hsending] at hown
      exact congrArg Host.client hown

/-- A step of the hosts is a step of the forwarder of each. -/
theorem Transition.forwardMove (hrouted : net.Routed)
    (htransition : net.Transition setup next events) (host : Host) :
    ForwardMove net next host (reads host events) (sentBy host events) := by
  cases htransition with
  | socket | took => exact .of_hosts (by simp [setLink]) (by simp) (by simp)
  | tables _ hevents =>
      refine .of_hosts rfl (fun other package hmem => ?_) fun link side package hmem => ?_
      all_goals rcases hevents _ hmem with hsame | ⟨inner, hsame⟩ <;> cases hsame
  | closing | bound => exact .of_hosts rfl (by simp) (by simp)
  | @named _ _ _ call =>
      refine .of_hosts rfl ?_ ?_ <;> cases call <;> simp [RecvCall.events]
  | @joined _ _ _ call =>
      refine .of_hosts rfl ?_ ?_ <;> cases call <;> simp [RecvCall.events]
  | replied | asked =>
      refine .of_hosts rfl ?_ ?_ <;> split <;> simp
  | tested | failed => exact .of_hosts (by simp) (by simp) (by simp)
  | written => refine .of_hosts (by simp) ?_ ?_ <;> split <;> simp
  | @read other package forwarder hreading hpositive hnext =>
      have hsent : sentBy host [.read other package] = [] := rfl
      rw [reads_read, hsent]
      split
      next hother =>
        subst hother
        exact .read hreading hpositive (by simp [setHost]) (by simp [setHost, hnext])
      next hother => exact .of_ne (Ne.symm hother) rfl
  | @moved other forwarder hmove =>
      by_cases hother : host = other
      · subst hother
        refine .moved (by simp [setHost]) ?_
        simpa [setHost] using hmove
      · exact .of_ne hother rfl
  | @forwarded other link r pair inner hsending hsends =>
      have hreads : ∀ tail : List VpnEvent, reads host (inner.map (.socket link) ++ tail) =
          reads host tail := fun tail => by rw [reads_append, reads_socket, List.nil_append]
      rw [hreads, sentBy_append, sentBy_socket, List.nil_append]
      by_cases hother : host = other
      · subst hother
        have hsent := @ForwardMove.sent net ((net.setLink link pair).setHost host
          { net.hosts host with forwarder := .testing }) host link r hsending
          (setHost_tunBuf (net.setLink link pair) rfl) (by simp [setHost])
        split
        next halive =>
          rw [if_pos halive] at hsent
          rw [sentBy_forwarded, if_pos (of_side_of_sending hrouted hsending)]
          exact hsent
        next halive =>
          rw [if_neg halive] at hsent
          exact hsent
      · have hstill := @ForwardMove.of_ne net ((net.setLink link pair).setHost other
          { net.hosts other with forwarder := .testing }) host other _ hother rfl
        split
        next =>
          rw [sentBy_forwarded, of_side_of_sending hrouted hsending, if_neg (Ne.symm hother)]
          exact hstill
        next => exact hstill
  | stopping => exact .still (setHost_forwarder net rfl) (setHost_tunBuf net rfl)
  | @stopped link pair inner =>
      rw [reads_socket, sentBy_socket]
      exact .still (setHost_forwarder (net.setLink link pair) rfl)
        (setHost_tunBuf (net.setLink link pair) rfl)

/-- A client's forwarder stays with its own link. -/
theorem Routed.step (hrouted : net.Routed) (htransition : net.Transition setup next events) :
    next.Routed := by
  intro link
  have hown := hrouted link
  have hmove := htransition.forwardMove hrouted (.client link)
  generalize reads (.client link) events = packages at hmove
  generalize sentBy (.client link) events = sent at hmove
  cases hmove with
  | still hforwarder => rwa [hforwarder]
  | read _ _ _ hnext =>
      rw [hnext]
      split <;> trivial
  | moved _ hmove =>
      generalize (next.hosts (.client link)).forwarder = forwarder at hmove
      generalize (net.hosts (.client link)).forwarder = before at hmove hown
      cases hmove with
      | enter | exit | nothing => trivial
      | find | unknown | look | check | dead => exact hown.elim
  | sent _ _ hnext =>
      rw [hnext]
      trivial

/-- What the forwarder of a host has in its buffer, and what has become of the packages read. -/
structure Forwarding (buffer : Bytes) (vpn : SharpVpn) (packages sent : List Bytes) : Prop where
  tunBuf_eq : vpn.tunBuf = packages.foldl readInto buffer
  held : ∀ package ∈ vpn.held, package ≠ [] ∧ ∃ stale, vpn.tunBuf = readInto stale package
  sent : (sent ++ vpn.held).Sublist (carried buffer packages)

variable {buffer : Bytes} {packages sent moved forwarded : List Bytes}

theorem held_congr (hforwarder : (next.hosts host).forwarder = (net.hosts host).forwarder)
    (htunBuf : (next.hosts host).tunBuf = (net.hosts host).tunBuf) :
    (next.hosts host).held = (net.hosts host).held := by
  unfold SharpVpn.held
  rw [hforwarder, htunBuf]

theorem held_of_testing {vpn : SharpVpn} (htesting : vpn.forwarder = .testing) : vpn.held = [] := by
  unfold SharpVpn.held
  rw [htesting]
  rfl

theorem held_of_sending {vpn : SharpVpn} {link r : Nat}
    (hsending : vpn.forwarder = .sending link r) : vpn.held = [vpn.tunBuf.take r] := by
  unfold SharpVpn.held
  rw [hsending]
  rfl

/-- What the forwarder holds after it has read a package: the package, if it passes. -/
theorem held_of_read {package : Bytes}
    (htunBuf : (next.hosts host).tunBuf = readInto (net.hosts host).tunBuf package)
    (hnext : (next.hosts host).forwarder =
      if passes (readInto (net.hosts host).tunBuf package) then host.onward package.length
      else .testing) :
    (next.hosts host).held = carried (net.hosts host).tunBuf [package] := by
  rw [carried_singleton]
  unfold SharpVpn.held
  rw [hnext, htunBuf]
  split
  next => cases host <;> exact congrArg (fun package => [package]) take_readInto
  next => rfl

theorem ForwarderMove.held_sublist {before after : Forwarder}
    (hmove : net.ForwarderMove host before after)
    (tunBuf : Bytes) : (after.held tunBuf).Sublist (before.held tunBuf) := by
  cases hmove with
  | enter | exit | nothing | find | look | check => exact .refl _
  | unknown | dead => exact List.nil_sublist _

theorem carried_read (hforwarding : Forwarding buffer (net.hosts host) packages sent)
    (package : Bytes) : carried buffer (packages ++ [package]) =
      carried buffer packages ++ carried (net.hosts host).tunBuf [package] := by
  rw [carried_append, ← hforwarding.tunBuf_eq]

theorem Forwarding.step (hforwarding : Forwarding buffer (net.hosts host) packages sent)
    (hmove : ForwardMove net next host moved forwarded) :
    Forwarding buffer (next.hosts host) (packages ++ moved) (sent ++ forwarded) := by
  cases hmove with
  | still hforwarder htunBuf =>
      rw [List.append_nil, List.append_nil]
      have hheld := held_congr hforwarder htunBuf
      exact ⟨htunBuf.trans hforwarding.tunBuf_eq, by rw [hheld, htunBuf]; exact hforwarding.held,
        by rw [hheld]; exact hforwarding.sent⟩
  | @read package hreading hpositive htunBuf hnext =>
      have hheld := held_of_read htunBuf hnext
      have hbefore : (net.hosts host).held = [] := by
        unfold SharpVpn.held
        rw [hreading]
        rfl
      have hsent := hforwarding.sent
      rw [hbefore, List.append_nil] at hsent
      refine ⟨?_, ?_, ?_⟩
      · rw [htunBuf, hforwarding.tunBuf_eq, List.foldl_append]
        rfl
      · rw [hheld, htunBuf]
        intro other hother
        obtain rfl : other = package :=
          List.mem_singleton.mp ((carried_sublist _ _).subset hother)
        exact ⟨List.length_pos_iff.mp hpositive, _, rfl⟩
      · rw [List.append_nil, hheld, carried_read hforwarding]
        exact hsent.append (.refl _)
  | moved htunBuf hmove =>
      rw [List.append_nil, List.append_nil]
      have hheld : (next.hosts host).held.Sublist (net.hosts host).held := by
        unfold SharpVpn.held
        rw [htunBuf]
        exact hmove.held_sublist _
      refine ⟨htunBuf.trans hforwarding.tunBuf_eq, fun package hmem => ?_, ?_⟩
      · rw [htunBuf]
        exact hforwarding.held package (hheld.subset hmem)
      · exact (hheld.append_left sent).trans hforwarding.sent
  | @sent link r hsending htunBuf hnext =>
      have hheld := held_of_sending hsending
      have hsent := hforwarding.sent
      rw [hheld] at hsent
      rw [List.append_nil]
      refine ⟨htunBuf.trans hforwarding.tunBuf_eq, ?_, ?_⟩
      · rw [held_of_testing hnext]
        exact nofun
      · rw [held_of_testing hnext, List.append_nil]
        split
        next => exact hsent
        next =>
          rw [List.append_nil]
          exact (List.sublist_append_left _ _).trans hsent

/-- What a client has sent is all it should have, while its socket is alive. -/
structure Faithful (alive : Bool) (buffer : Bytes) (vpn : SharpVpn) (packages sent : List Bytes) :
    Prop where
  isPrefix : sent.IsPrefix (carried buffer packages)
  all : alive = true → sent ++ vpn.held = carried buffer packages

theorem Faithful.step {link : Nat}
    (hforwarding : Forwarding buffer (net.hosts (.client link)) packages sent)
    (hfaithful : Faithful (net.isAlive link .a) buffer (net.hosts (.client link)) packages sent)
    (hown : OwnLink link (net.hosts (.client link)).forwarder)
    (hmove : ForwardMove net next (.client link) moved forwarded)
    (halive : next.isAlive link .a = true → net.isAlive link .a = true) :
    Faithful (next.isAlive link .a) buffer (next.hosts (.client link)) (packages ++ moved)
      (sent ++ forwarded) := by
  cases hmove with
  | still hforwarder htunBuf =>
      rw [List.append_nil, List.append_nil]
      refine ⟨hfaithful.isPrefix, fun hnext => ?_⟩
      rw [held_congr hforwarder htunBuf]
      exact hfaithful.all (halive hnext)
  | @read package hreading _ htunBuf hnext =>
      rw [List.append_nil]
      constructor
      · rw [carried_read hforwarding]
        exact hfaithful.isPrefix.trans (List.prefix_append _ _)
      · intro hafter
        have hall := hfaithful.all (halive hafter)
        unfold SharpVpn.held at hall
        rw [hreading, Forwarder.held, List.append_nil] at hall
        rw [carried_read hforwarding, held_of_read htunBuf hnext, hall]
  | moved htunBuf hmove =>
      rw [List.append_nil, List.append_nil]
      refine ⟨hfaithful.isPrefix, fun hafter => ?_⟩
      rw [← hfaithful.all (halive hafter)]
      unfold SharpVpn.held
      generalize (next.hosts (.client link)).forwarder = after at hmove ⊢
      generalize (net.hosts (.client link)).forwarder = before at hmove hown ⊢
      cases hmove with
      | enter | exit | nothing => rfl
      | find | unknown | look | check | dead => exact hown.elim
  | @sent other r hsending _ hnext =>
      rw [hsending] at hown
      obtain rfl : other = link := hown
      rw [List.append_nil]
      split
      next hbefore =>
        have hall := hfaithful.all hbefore
        rw [held_of_sending hsending] at hall
        rw [hall]
        refine ⟨List.prefix_refl _, fun _ => ?_⟩
        rw [held_of_testing hnext, List.append_nil]
      next hbefore =>
        rw [List.append_nil]
        exact ⟨hfaithful.isPrefix, fun hafter => absurd (halive hafter) hbefore⟩

end Moves

end VpnNet

end Sharpvpn
