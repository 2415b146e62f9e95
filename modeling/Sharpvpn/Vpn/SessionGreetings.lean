import Sharpvpn.Vpn.SessionForwarding

/-!
# Tokens, addresses and the packages around them

A client sends its token before any package. The server binds an address to a socket before it
sends the address over it, so packages may come first; but they are packages for that address.
-/

namespace Sharpvpn

open Foundation

/-- The address that a thread of the server has given. -/
def ServerThread.ip : ServerThread → Option UInt32
  | .registering => none
  | .replying ip | .looping ip _ => some ip

namespace VpnNet

/-- The program at an end of a link has sent its token or address. -/
def Greeted (net : VpnNet) (link : Nat) : Side → Prop
  | .a => net.joining link ≠ .connected
  | .b => ∃ ip loop, net.serving link = .looping ip loop

/-- The token or the address to be sent from an end of a link. -/
def Greets (setup : VpnSetup) (net : VpnNet) (link : Nat) (segment : Bytes) : Side → Prop
  | .a => net.joining link = .connected ∧ segment = setup.token link
  | .b => ∃ ip, net.serving link = .replying ip ∧ segment = infoBytes ip

/-- What a step of the hosts gives to the socket at an end of a link. -/
inductive GiveMove (setup : VpnSetup) (net next : VpnNet) (link : Nat) (side : Side) :
    List ProgramEvent → Prop
  | nothing {events} (hgreeted : next.Greeted link side ↔ net.Greeted link side)
      (hgreetings : greetings events = []) (hforwards : forwards events = []) :
      GiveMove setup net next link side events
  | greeted {segment} (hgreets : net.Greets setup link segment side)
      (hgreeted : next.Greeted link side) :
      GiveMove setup net next link side
        (if net.isAlive link side then [.greeted segment] else [])
  | forwarded {r} (hsending : (net.hosts (.of link side)).forwarder = .sending link r)
      (hgreeted : next.Greeted link side ↔ net.Greeted link side) :
      GiveMove setup net next link side
        (if net.isAlive link side then
          [.forwarded ((net.hosts (.of link side)).tunBuf.take r)] else [])

section Moves

variable {setup : VpnSetup} {net next : VpnNet} {link : Nat} {side : Side} {events : List VpnEvent}

theorem greeted_congr (hjoining : next.joining = net.joining)
    (hserving : next.serving = net.serving) : next.Greeted link side ↔ net.Greeted link side := by
  cases side with
  | a =>
      unfold Greeted
      rw [hjoining]
  | b =>
      unfold Greeted
      rw [hserving]

theorem greeted_setLoop {other : Nat} {end_ : Side} {ip : UInt32} {before loop : SocketLoop}
    (hloop : net.InLoop other ip before end_) :
    (net.setLoop other ip loop end_).Greeted link side ↔ net.Greeted link side := by
  cases end_ with
  | a =>
      have hjoining : net.joining other = .looping ip before := hloop
      cases side with
      | a =>
          by_cases hlink : link = other
          · subst hlink
            simp [Greeted, setLoop, join, hjoining]
          · simp [Greeted, setLoop, join, Function.update_of_ne hlink]
      | b => exact Iff.rfl
  | b =>
      have hserving : net.serving other = .looping ip before := hloop
      cases side with
      | a => exact Iff.rfl
      | b =>
          by_cases hlink : link = other
          · subst hlink
            simp [Greeted, setLoop, serve, hserving]
          · simp [Greeted, setLoop, serve, Function.update_of_ne hlink]

theorem GiveMove.silent (hgreeted : next.Greeted link side ↔ net.Greeted link side) :
    GiveMove setup net next link side [] :=
  .nothing hgreeted rfl rfl

/-- Events in which nothing is given to the socket. -/
theorem GiveMove.of_events {events : List ProgramEvent}
    (hgreeted : next.Greeted link side ↔ net.Greeted link side)
    (hevents : ∀ event ∈ events, event.given? = none) :
    GiveMove setup net next link side events := by
  refine .nothing hgreeted ?_ ?_ <;> refine List.filterMap_eq_nil_iff.mpr fun event hmem => ?_ <;>
    have hnone := hevents event hmem <;> cases event <;> first | rfl | cases hnone

theorem given?_call {other : Nat} {end_ : Side} (call : RecvCall) :
    ∀ event ∈ programTrace link side (call.events other end_), event.given? = none := by
  intro event hmem
  rw [programTrace_call] at hmem
  split at hmem
  next =>
    obtain ⟨segment, -, rfl⟩ := List.mem_map.mp hmem
    rfl
  next => cases hmem

/-- A step of the hosts gives one thing at most to a socket. -/
theorem Transition.giveMove (hrouted : net.Routed) (htransition : net.Transition setup next events)
    (link : Nat) (side : Side) :
    GiveMove setup net next link side (programTrace link side events) := by
  cases htransition with
  | socket =>
      rw [programTrace_socket]
      exact .silent (greeted_congr rfl rfl)
  | tables _ hevents =>
      rw [(tables_events hevents).2]
      exact .silent (greeted_congr rfl rfl)
  | closing =>
      rw [programTrace_append, (tables_events (@forall_mem_map_table _)).2, programTrace_socket]
      exact .silent (greeted_congr rfl rfl)
  | @named other _ _ call =>
      rw [programTrace_append, programTrace_socket]
      exact .of_events (greeted_congr rfl rfl) (given?_call call)
  | @bound other ip table inner hserving =>
      rw [(tables_events (@forall_mem_map_table inner)).2]
      refine .silent ?_
      cases side with
      | a => exact Iff.rfl
      | b =>
          by_cases hlink : link = other
          · subst hlink
            simp [Greeted, serve, hserving]
          · simp [Greeted, serve, Function.update_of_ne hlink]
  | @replied other ip pair inner hserving hsends =>
      rw [programTrace_append, programTrace_socket, List.nil_append, programTrace_if]
      by_cases hat : other = link ∧ .b = side
      · obtain ⟨rfl, rfl⟩ := hat
        simp only [and_self, true_and]
        exact .greeted ⟨ip, hserving, rfl⟩ ⟨ip, .testing, by simp [serve]⟩
      · rw [if_neg fun hboth => hat hboth.1]
        refine .silent ?_
        cases side with
        | a => exact Iff.rfl
        | b =>
            have hlink : link ≠ other := fun hsame => hat ⟨hsame.symm, rfl⟩
            simp [Greeted, serve, setLink, Function.update_of_ne hlink]
  | @asked other pair inner hjoining hsends =>
      rw [programTrace_append, programTrace_socket, List.nil_append, programTrace_if]
      by_cases hat : other = link ∧ .a = side
      · obtain ⟨rfl, rfl⟩ := hat
        simp only [and_self, true_and]
        exact .greeted ⟨hjoining, rfl⟩ (by simp [Greeted, join])
      · rw [if_neg fun hboth => hat hboth.1]
        refine .silent ?_
        cases side with
        | a =>
            have hlink : link ≠ other := fun hsame => hat ⟨hsame.symm, rfl⟩
            simp [Greeted, join, setLink, Function.update_of_ne hlink]
        | b => exact Iff.rfl
  | @joined other pair inner call info memory hjoining =>
      rw [programTrace_append, programTrace_socket]
      refine .of_events ?_ (given?_call call)
      cases side with
      | a =>
          by_cases hlink : link = other
          · subst hlink
            simp [Greeted, join, hjoining]
          · simp [Greeted, join, setLink, Function.update_of_ne hlink]
      | b => exact Iff.rfl
  | tested hloop | failed hloop => exact .silent (greeted_setLoop hloop)
  | @took other end_ ip pair inner call hloop =>
      rw [programTrace_socket]
      refine .silent ?_
      exact (greeted_setLoop hloop.setLink).trans (greeted_congr rfl rfl)
  | written hloop =>
      rw [programTrace_if]
      refine .of_events (greeted_setLoop hloop) ?_
      split <;> simp [ProgramEvent.given?]
  | read | moved | stopping => exact .silent (greeted_congr rfl rfl)
  | @forwarded host other r pair inner hsending hsends =>
      rw [programTrace_append, programTrace_socket, List.nil_append, programTrace_if]
      by_cases hat : other = link ∧ host.side = side
      · obtain ⟨rfl, rfl⟩ := hat
        have hhost := of_side_of_sending hrouted hsending
        have hmove := @GiveMove.forwarded setup net ((net.setLink other pair).setHost host
          { net.hosts host with forwarder := .testing }) other host.side r
          (hhost.symm ▸ hsending) (greeted_congr rfl rfl)
        rw [hhost] at hmove
        simpa using hmove
      · rw [if_neg fun hboth => hat hboth.1]
        exact .silent (greeted_congr rfl rfl)
  | stopped =>
      rw [programTrace_socket]
      exact .silent (greeted_congr rfl rfl)

theorem GiveMove.greeted_of_greeted {given : List ProgramEvent}
    (hmove : GiveMove setup net next link side given) (hgreeted : net.Greeted link side) :
    next.Greeted link side := by
  cases hmove with
  | nothing hsame | forwarded _ hsame => exact hsame.mpr hgreeted
  | greeted _ hnext => exact hnext

end Moves

theorem given_eq_forwards {trace : List ProgramEvent} (hgreetings : greetings trace = []) :
    given trace = forwards trace := by
  induction trace with
  | nil => rfl
  | cons event rest ih =>
      cases event with
      | greeted segment => cases hgreetings
      | forwarded package => exact congrArg (package :: ·) (ih hgreetings)
      | received | wrote => exact ih hgreetings

section Asking

variable {setup : VpnSetup} {net next : VpnNet} {link : Nat} {events trace : List ProgramEvent}

/-- What a client has given to its socket: its token before its packages, or nothing. -/
structure Asked (setup : VpnSetup) (net : VpnNet) (link : Nat) (trace : List ProgramEvent) :
    Prop where
  quiet : net.joining link = .connected →
    (net.hosts (.client link)).forwarder = .testing ∧ given trace = [] ∧ forwards trace = []
  asked : net.joining link ≠ .connected → given trace = setup.token link :: forwards trace ∨
    given trace = [] ∧ net.isAlive link .a = false

/-- The forwarder of a client does not start before the token is sent. -/
theorem ForwardMove.testing_of_connected {packages sent : List Bytes}
    (hmove : ForwardMove net next (.client link) packages sent)
    (hjoining : net.joining link = .connected)
    (htesting : (net.hosts (.client link)).forwarder = .testing) :
    (next.hosts (.client link)).forwarder = .testing := by
  cases hmove with
  | still hforwarder => rw [hforwarder, htesting]
  | read hreading => rw [htesting] at hreading; cases hreading
  | moved _ hmove =>
      rw [htesting] at hmove
      have hstarted : net.started (.client link) = false := by
        simp [started, hjoining]
      generalize (next.hosts (.client link)).forwarder = forwarder at hmove
      cases hmove with
      | enter h | exit h => simp [hstarted] at h
  | sent hsending => rw [htesting] at hsending; cases hsending

theorem Asked.step {packages sent : List Bytes} (hasked : Asked setup net link trace)
    (hmove : GiveMove setup net next link .a events)
    (hforward : ForwardMove net next (.client link) packages sent)
    (halive : next.isAlive link .a = true → net.isAlive link .a = true) :
    Asked setup next link (trace ++ events) := by
  have hdead : net.isAlive link .a = false → next.isAlive link .a = false := by
    simpa using mt halive
  cases hmove with
  | nothing hgreeted hgreetings hforwards =>
      have hgiven := (given_eq_forwards hgreetings).trans hforwards
      constructor
      · intro hconnected
        have hbefore := not_not.mp fun hne => hgreeted.mpr hne hconnected
        obtain ⟨htesting, hnone, hno⟩ := hasked.quiet hbefore
        exact ⟨hforward.testing_of_connected hbefore htesting, by simp [hnone, hgiven],
          by simp [hno, hforwards]⟩
      · intro hne
        simpa [hgiven, hforwards] using
          (hasked.asked (hgreeted.mp hne)).imp_right (And.imp_right hdead)
  | greeted hgreets hgreeted =>
      obtain ⟨hconnected, rfl⟩ := hgreets
      obtain ⟨-, hnone, hno⟩ := hasked.quiet hconnected
      refine ⟨fun hnext => absurd hnext hgreeted, fun _ => ?_⟩
      split
      next => exact .inl (by simp [hnone, hno, ProgramEvent.given?, ProgramEvent.forwarded?])
      next hnot => exact .inr ⟨by simp [hnone], hdead (by simpa using hnot)⟩
  | @forwarded r hsending hgreeted =>
      have hjoining : net.joining link ≠ .connected := fun hconnected =>
        absurd (hsending.symm.trans (hasked.quiet hconnected).1) nofun
      refine ⟨fun hnext => absurd hnext (hgreeted.mpr hjoining), fun _ => ?_⟩
      have hold := hasked.asked hjoining
      split
      next hnow =>
        obtain hgiven | ⟨-, hnot⟩ := hold
        · exact .inl (by simp [hgiven, ProgramEvent.given?, ProgramEvent.forwarded?])
        · exact absurd hnow (by simp [hnot])
      next => simpa using hold.imp_right (And.imp_right hdead)

end Asking

end VpnNet

end Sharpvpn
