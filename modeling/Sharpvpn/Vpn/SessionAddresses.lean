import Sharpvpn.Vpn.SessionGreetings

/-!
# The address a link is given

A link has one address from the moment the server binds it. What the server forwards over the
link is addressed to it.
-/

namespace Sharpvpn

open Foundation

/-- The address that a client has taken. -/
def ClientThread.own : ClientThread → Option UInt32
  | .connected | .awaiting => none
  | .looping own _ => some own

/-- The link that a forwarder has looked up. -/
def Forwarder.link? : Forwarder → Option Nat
  | .checking link _ | .sending link _ => some link
  | .testing | .reading | .finding _ | .looking _ | .exited => none

namespace VpnNet

/-- The destination of what a host has in its buffer. -/
def daddr (net : VpnNet) (host : Host) : UInt32 :=
  (SharpPackageParser.parsePackage (net.hosts host).tunBuf).daddr

section Bindings

variable {setup : VpnSetup} {net next : VpnNet} {link other : Nat} {side : Side} {ip bound : UInt32}
  {events : List VpnEvent}

theorem ip_serve {thread : ServerThread}
    (hthread : (net.serving other).ip = none ∨ thread.ip = (net.serving other).ip)
    (hip : (net.serving link).ip = some ip) :
    ((net.serve other thread).serving link).ip = some ip := by
  by_cases hlink : link = other
  · subst hlink
    rcases hthread with hnone | hsame
    · rw [hip] at hnone
      cases hnone
    · simpa [serve, hsame] using hip
  · simpa [serve, Function.update_of_ne hlink] using hip

theorem ip_setLoop {before loop : SocketLoop} (hloop : net.InLoop other bound before side)
    (hip : (net.serving link).ip = some ip) :
    ((net.setLoop other bound loop side).serving link).ip = some ip := by
  cases side with
  | a => exact hip
  | b =>
      have hserving : net.serving other = .looping bound before := hloop
      exact ip_serve (.inr (by rw [hserving]; rfl)) hip

/-- The address of a link does not change. -/
theorem Transition.ip_eq (htransition : net.Transition setup next events)
    (hip : (net.serving link).ip = some ip) : (next.serving link).ip = some ip := by
  cases htransition with
  | socket | tables | closing | named | asked | joined | read | moved | forwarded | stopping
  | stopped => exact hip
  | bound hserving =>
      exact @ip_serve { net with table := _ } _ _ _ _ (.inl (by rw [hserving]; rfl)) hip
  | @replied other ip pair inner hserving =>
      have hsame : (ServerThread.looping ip .testing).ip = (net.serving other).ip := by
        rw [hserving]
        rfl
      exact @ip_serve (net.setLink other pair) _ _ _ _ (.inr hsame) hip
  | tested hloop | written hloop | failed hloop => exact ip_setLoop hloop hip
  | took hloop => exact ip_setLoop hloop.setLink hip

/-- An address is bound to a link when the link is given it. -/
theorem Transition.ipMap_eq (htransition : net.Transition setup next events)
    (hbound : next.table.ipMap ip = some (some link)) :
    net.table.ipMap ip = some (some link) ∨ (next.serving link).ip = some ip := by
  cases htransition with
  | tables hframe | closing hframe => exact .inl (hframe.bound ip link hbound)
  | @bound other address table inner hserving hnamed hthreads hipMap =>
      have hupdated : table.ipMap ip = some (some link) := hbound
      rw [hipMap] at hupdated
      by_cases haddress : ip = address
      · subst haddress
        rw [Function.update_self] at hupdated
        cases hupdated
        exact .inr (by simp [serve, ServerThread.ip])
      · rw [Function.update_of_ne haddress] at hupdated
        exact .inl hupdated
  | socket | named | replied | asked | joined | read | moved | forwarded | stopping | stopped =>
      exact .inl hbound
  | tested | took | written | failed =>
      rw [table_setLoop] at hbound
      exact .inl hbound

/-- The server forwards over the link that has the destination for its address. -/
structure Directed (net : VpnNet) : Prop where
  mapped : ∀ ip link, net.table.ipMap ip = some (some link) → (net.serving link).ip = some ip
  looked : ∀ link, (net.hosts .server).forwarder.link? = some link →
    (net.serving link).ip = some (net.daddr .server)

theorem Directed.step (hdirected : net.Directed) (hrouted : net.Routed)
    (htransition : net.Transition setup next events) : next.Directed := by
  constructor
  · intro ip link hbound
    rcases htransition.ipMap_eq hbound with hbefore | hnow
    · exact htransition.ip_eq (hdirected.mapped ip link hbefore)
    · exact hnow
  · intro link hlink
    have hmove := htransition.forwardMove hrouted .server
    generalize reads .server events = packages at hmove
    generalize sentBy .server events = sent at hmove
    unfold daddr
    cases hmove with
    | still hforwarder htunBuf =>
        rw [hforwarder] at hlink
        rw [htunBuf]
        exact htransition.ip_eq (hdirected.looked link hlink)
    | read _ _ _ hnext =>
        rw [hnext] at hlink
        split at hlink <;> cases hlink
    | moved htunBuf hmove =>
        rw [htunBuf]
        have hbefore := hdirected.looked link
        generalize (next.hosts .server).forwarder = after at hmove hlink
        generalize (net.hosts .server).forwarder = before at hmove hbefore
        cases hmove with
        | enter | exit | nothing | find | unknown | dead => cases hlink
        | look hbound =>
            cases hlink
            exact htransition.ip_eq (hdirected.mapped _ _ hbound)
        | check => exact htransition.ip_eq (hbefore hlink)
    | sent _ _ hnext =>
        rw [hnext] at hlink
        cases hlink

end Bindings

section Serving

variable {setup : VpnSetup} {net next : VpnNet} {link : Nat} {events trace : List ProgramEvent}

/-- What the server has given to the socket of a link: its address, and packages for it. -/
structure Attended (net : VpnNet) (link : Nat) (trace : List ProgramEvent) : Prop where
  greeted : greetings trace = [] ∨
    ∃ ip, net.Greeted link .b ∧ (net.serving link).ip = some ip ∧ greetings trace = [infoBytes ip]
  addressed : ∀ package ∈ forwards trace,
    ∃ ip, (net.serving link).ip = some ip ∧ AddressedTo ip package

/-- What the server is about to send is addressed to the link it has looked up. -/
theorem Directed.addressed {r : Nat} {buffer : Bytes} {packages sent : List Bytes}
    (hdirected : net.Directed)
    (hforwarding : Forwarding buffer (net.hosts .server) packages sent)
    (hsending : (net.hosts .server).forwarder = .sending link r) :
    ∃ ip, (net.serving link).ip = some ip ∧ AddressedTo ip ((net.hosts .server).tunBuf.take r) := by
  refine ⟨_, hdirected.looked link (by rw [hsending]; rfl), fun hlength => ?_⟩
  obtain ⟨-, stale, htunBuf⟩ := hforwarding.held ((net.hosts .server).tunBuf.take r) (by
    rw [held_of_sending hsending]
    exact List.mem_singleton_self _)
  have hsame := @parsePackage_readInto stale _ hlength
  unfold daddr
  rw [← hsame, ← htunBuf]

theorem Attended.step {buffer : Bytes} {packages sent : List Bytes}
    (hattended : net.Attended link trace) (hdirected : net.Directed)
    (hforwarding : Forwarding buffer (net.hosts .server) packages sent)
    (hmove : GiveMove setup net next link .b events)
    (hip : ∀ ip, (net.serving link).ip = some ip → (next.serving link).ip = some ip) :
    next.Attended link (trace ++ events) := by
  have hgreeted : greetings trace = [] ∨ ∃ ip, next.Greeted link .b ∧
      (next.serving link).ip = some ip ∧ greetings trace = [infoBytes ip] :=
    hattended.greeted.imp_right fun ⟨ip, hbefore, hsame, hall⟩ =>
      ⟨ip, hmove.greeted_of_greeted hbefore, hip ip hsame, hall⟩
  have haddressed : ∀ package ∈ forwards trace,
      ∃ ip, (next.serving link).ip = some ip ∧ AddressedTo ip package :=
    fun package hmem =>
      (hattended.addressed package hmem).imp fun ip hboth => ⟨hip ip hboth.1, hboth.2⟩
  cases hmove with
  | nothing _ hgreetings hforwards =>
      refine ⟨?_, ?_⟩
      · simpa [hgreetings] using hgreeted
      · simpa [hforwards] using haddressed
  | greeted hgreets hnext =>
      obtain ⟨ip, hserving, rfl⟩ := hgreets
      have hnone : greetings trace = [] := by
        rcases hattended.greeted with hnone | ⟨_, ⟨_, _, hlooping⟩, -⟩
        · exact hnone
        · rw [hserving] at hlooping
          cases hlooping
      have hsame := hip ip (by rw [hserving]; rfl)
      split
      next =>
        refine ⟨.inr ⟨ip, hnext, hsame, ?_⟩, ?_⟩
        · simp [hnone, ProgramEvent.greeted?]
        · simpa [ProgramEvent.forwarded?] using haddressed
      next => simpa using Attended.mk hgreeted haddressed
  | forwarded hsending =>
      split
      next =>
        refine ⟨?_, fun package hmem => ?_⟩
        · rw [greetings, List.filterMap_append]
          exact (List.append_nil (greetings trace)).symm ▸ hgreeted
        · rw [forwards, List.filterMap_append, List.mem_append] at hmem
          rcases hmem with hold | hnew
          · exact haddressed package hold
          · obtain rfl := List.mem_singleton.mp hnew
            obtain ⟨ip, hsame, haddress⟩ := hdirected.addressed hforwarding hsending
            exact ⟨ip, hip ip hsame, haddress⟩
      next => simpa using Attended.mk hgreeted haddressed

end Serving

section Joining

variable {setup : VpnSetup} {net next : VpnNet} {link : Nat} {own : UInt32} {loop : SocketLoop}
  {events : List VpnEvent}

/-- Nothing more is received for the program once its first call is over. -/
theorem IntakeMove.receipts_eq_nil {side : Side} {returned : List Bytes}
    {events : List ProgramEvent} (hmove : IntakeMove net next link side returned events)
    (htaking : net.intake link side = .taking loop) : receipts events = [] := by
  cases hmove with
  | still _ hreceipts => exact hreceipts
  | first hwaiting =>
      rw [htaking] at hwaiting
      cases hwaiting
  | tested | took | failed => rfl
  | written => split <;> rfl

theorem joining_of_setLoop {other : Nat} {side : Side} {bound : UInt32} {before after : SocketLoop}
    (hloop : net.InLoop other bound before side)
    (hafter : (net.setLoop other bound after side).joining link = .looping own loop) :
    ∃ loop, net.joining link = .looping own loop := by
  cases side with
  | a =>
      by_cases hlink : link = other
      · subst hlink
        have hjoining : net.joining link = .looping bound before := hloop
        simp only [setLoop, join, Function.update_self] at hafter
        cases hafter
        exact ⟨before, hjoining⟩
      · simp only [setLoop, join, Function.update_of_ne hlink] at hafter
        exact ⟨loop, hafter⟩
  | b => exact ⟨loop, hafter⟩

/-- A client has the address it has had, or the one that comes in this step. -/
theorem Transition.own_eq (htransition : net.Transition setup next events)
    (hnext : next.joining link = .looping own loop) :
    (∃ loop, net.joining link = .looping own loop) ∨
      net.joining link = .awaiting ∧ ∃ (memory info : Bytes) (call : RecvCall),
        memory.length = dhcpInfoBytes ∧ call.fill memory = some info ∧ own = infoAt info ∧
          receipts (programTrace link .a events) = call.segments := by
  cases htransition with
  | socket | tables | closing | named | bound | replied | read | moved | forwarded | stopping
  | stopped => exact .inl ⟨loop, hnext⟩
  | @asked other =>
      by_cases hlink : link = other
      · subst hlink
        simp [join] at hnext
      · simp only [join, Function.update_of_ne hlink] at hnext
        exact .inl ⟨loop, hnext⟩
  | @joined other _ _ call info memory hjoining _ hlength hinfo =>
      by_cases hlink : link = other
      · subst hlink
        simp only [join, Function.update_self] at hnext
        cases hnext
        refine .inr ⟨hjoining, memory, info, call, hlength, hinfo, rfl, ?_⟩
        rw [programTrace_append, programTrace_socket, List.nil_append, programTrace_call,
          if_pos ⟨rfl, rfl⟩]
        exact receipts_call call
      · simp only [join, Function.update_of_ne hlink] at hnext
        exact .inl ⟨loop, hnext⟩
  | tested hloop | written hloop | failed hloop => exact .inl (joining_of_setLoop hloop hnext)
  | @took other side bound pair _ _ hloop =>
      exact .inl (@joining_of_setLoop (net.setLink other pair) _ _ _ _ _ _ _ _ hloop.setLink hnext)

end Joining

end VpnNet

section Info

/-- A segment that is copied to a buffer fits into it. -/
theorem RecvCall.fill_returned {buffer segment info : Bytes}
    (hfill : (RecvCall.returned segment).fill buffer = some info) :
    segment.length ≤ buffer.length ∧ ∃ rest, info = segment ++ rest := by
  unfold RecvCall.fill at hfill
  dsimp only at hfill
  split at hfill
  next hfits =>
    cases hfill
    exact ⟨hfits, _, rfl⟩
  next => cases hfill

/-- An address is read as it has been sent. -/
theorem infoAt_infoBytes (ip : UInt32) (rest : Bytes) : infoAt (infoBytes ip ++ rest) = ip := by
  have hlt := ip.toNat_lt
  simp only [infoAt, SharpPackageParser.wordAt, infoBytes, octets, List.map_cons, List.map_nil,
    List.cons_append, List.getD_cons_zero, List.getD_cons_succ, Nat.zero_add, octetAddress]
  rw [← UInt32.toNat_inj, UInt32.toNat_ofNat']
  simp only [UInt8.toNat_ofNat']
  omega

end Info

end Sharpvpn
