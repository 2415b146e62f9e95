import Sharpvpn.Rudp.Streams
import Sharpvpn.Vpn.SessionSteps

/-!
# The links of a session

Every run of a server and its clients is a run of the connection of each link, whatever the
programs at its ends do.
-/

namespace Sharpvpn

open Foundation

/-- The events of a link's sockets. -/
def VpnEvent.socket? (link : Nat) : VpnEvent → Option (Side × Event)
  | .socket other event => if other = link then some event else none
  | .program .. | .table _ | .read .. | .nullDereferenced => none

/-- The events of the programs at the ends of a link. -/
def VpnEvent.program? (link : Nat) : VpnEvent → Option (Side × ProgramEvent)
  | .program other event => if other = link then some event else none
  | .socket .. | .table _ | .read .. | .nullDereferenced => none

def VpnEvent.read? (host : Host) : VpnEvent → Option Bytes
  | .read other package => if other = host then some package else none
  | .socket .. | .program .. | .table _ | .nullDereferenced => none

def linkTrace (link : Nat) (trace : List VpnEvent) : List (Side × Event) :=
  trace.filterMap (VpnEvent.socket? link)

def programTrace (link : Nat) (side : Side) (trace : List VpnEvent) : List ProgramEvent :=
  Duplex.at_ side (trace.filterMap (VpnEvent.program? link))

/-- The packages read from the tunnel of a host. -/
def reads (host : Host) (trace : List VpnEvent) : List Bytes :=
  trace.filterMap (VpnEvent.read? host)

/-- What an end of a link has been given to send. -/
def pushedAt (link : Nat) (side : Side) (trace : List VpnEvent) : List Bytes :=
  pushedSegments (Duplex.at_ side (linkTrace link trace))

/-- What `recv_package` has returned at an end of a link. -/
def returnedAt (link : Nat) (side : Side) (trace : List VpnEvent) : List Bytes :=
  returnedSegments (Duplex.at_ side (linkTrace link trace))

section Views

variable (link : Nat) (side : Side) (host : Host) (first second : List VpnEvent)

@[simp] theorem linkTrace_append :
    linkTrace link (first ++ second) = linkTrace link first ++ linkTrace link second :=
  List.filterMap_append

@[simp] theorem programTrace_append : programTrace link side (first ++ second) =
    programTrace link side first ++ programTrace link side second := by
  unfold programTrace
  rw [List.filterMap_append, Duplex.at_append]

@[simp] theorem reads_append :
    reads host (first ++ second) = reads host first ++ reads host second :=
  List.filterMap_append

@[simp] theorem pushedAt_append : pushedAt link side (first ++ second) =
    pushedAt link side first ++ pushedAt link side second := by
  unfold pushedAt
  rw [linkTrace_append, Duplex.at_append, pushedSegments_append]

@[simp] theorem returnedAt_append : returnedAt link side (first ++ second) =
    returnedAt link side first ++ returnedAt link side second := by
  unfold returnedAt
  rw [linkTrace_append, Duplex.at_append, returnedSegments_append]

@[simp] theorem programTrace_nil : programTrace link side [] = [] := rfl

@[simp] theorem programTrace_program (other : Nat) (event : Side × ProgramEvent) :
    programTrace link side [.program other event] =
      if other = link ∧ event.1 = side then [event.2] else [] := by
  by_cases hlink : other = link
  · by_cases hside : event.1 = side <;>
      simp [programTrace, VpnEvent.program?, Duplex.at_, hlink, hside]
  · simp [programTrace, VpnEvent.program?, hlink]

theorem programTrace_if (other : Nat) (event : Side × ProgramEvent) (condition : Prop)
    [Decidable condition] :
    programTrace link side (if condition then [.program other event] else []) =
      if (other = link ∧ event.1 = side) ∧ condition then [event.2] else [] := by
  by_cases hcondition : condition
  · simp [hcondition]
  · simp [hcondition]

@[simp] theorem programTrace_socket (other : Nat) (events : List (Side × Event)) :
    programTrace link side (events.map (.socket other)) = [] := by
  simp [programTrace, List.filterMap_map, Function.comp_def, VpnEvent.program?]

@[simp] theorem reads_socket (other : Nat) (events : List (Side × Event)) :
    reads host (events.map (.socket other)) = [] := by
  simp [reads, List.filterMap_map, Function.comp_def, VpnEvent.read?]

@[simp] theorem linkTrace_map_self (events : List (Side × Event)) :
    linkTrace link (events.map (.socket link)) = events := by
  simp [linkTrace, List.filterMap_map, Function.comp_def, VpnEvent.socket?]

theorem linkTrace_map_ne {other : Nat} (hne : other ≠ link) (events : List (Side × Event)) :
    linkTrace link (events.map (.socket other)) = [] := by
  simp [linkTrace, List.filterMap_map, Function.comp_def, VpnEvent.socket?, hne]

end Views

/-- Events in which the sockets have no part. -/
def Offline (events : List VpnEvent) : Prop := ∀ link event, .socket link event ∉ events

theorem Offline.linkTrace_eq_nil {events : List VpnEvent} (hoffline : Offline events)
    (link : Nat) : linkTrace link events = [] := by
  refine List.filterMap_eq_nil_iff.mpr fun event hevent => ?_
  cases event with
  | socket other event => exact absurd hevent (hoffline other event)
  | program | table | read | nullDereferenced => rfl

theorem offline_nil : Offline [] := fun _ _ => List.not_mem_nil

theorem offline_program (link : Nat) (event : Side × ProgramEvent) {condition : Prop}
    [Decidable condition] : Offline (if condition then [.program link event] else []) := by
  split <;> simp [Offline]

theorem offline_call (call : RecvCall) (link : Nat) (side : Side) :
    Offline (call.events link side) := by
  cases call <;> simp [Offline, RecvCall.events]

theorem linkTrace_online {link : Nat} {events more : List VpnEvent} (hoffline : Offline more) :
    linkTrace link (events ++ more) = linkTrace link events := by
  rw [linkTrace_append, hoffline.linkTrace_eq_nil, List.append_nil]

namespace VpnNet

variable {setup : VpnSetup} {net next : VpnNet} {events : List VpnEvent}

/-- What a step does to the connection of a link: nothing, or one step of it. -/
inductive LinkMove (setup : VpnSetup) (net next : VpnNet) (events : List VpnEvent)
    (link : Nat) : Prop
  | still (hlink : next.links link = net.links link) (hevents : linkTrace link events = [])
  | step {side action} (hadvance : (connection (setup.config link) setup.crypto).advance
      (net.links link) side action = some (next.links link, linkTrace link events))

/-- A step of the connection of one link, and of the programs. -/
theorem LinkMove.of_advance {other : Nat} {side : Side} {action : Action}
    {pair : Duplex.State ReliableSocket Datagram} {inner : List (Side × Event)}
    (hadvance : (connection (setup.config other) setup.crypto).advance
      (net.links other) side action = some (pair, inner))
    (hlinks : next.links = Function.update net.links other pair)
    (hevents : ∀ link, linkTrace link events = linkTrace link (inner.map (.socket other)))
    (link : Nat) : LinkMove setup net next events link := by
  by_cases hlink : other = link
  · subst hlink
    refine @LinkMove.step setup net next events _ side action ?_
    rw [hlinks, Function.update_self, hevents, linkTrace_map_self, hadvance]
  · refine .still ?_ ?_
    · rw [hlinks, Function.update_of_ne (Ne.symm hlink)]
    · rw [hevents, linkTrace_map_ne link hlink]

theorem LinkMove.of_offline {link : Nat} (hoffline : Offline events)
    (hlinks : next.links = net.links) : LinkMove setup net next events link :=
  .still (by rw [hlinks]) (hoffline.linkTrace_eq_nil link)

/-- A step is at most one step of the connection of each link. -/
theorem Transition.linkMove (htransition : net.Transition setup next events) (link : Nat) :
    LinkMove setup net next events link := by
  cases htransition with
  | socket hadvance => exact .of_advance hadvance rfl (fun _ => rfl) link
  | tables _ hevents =>
      refine .of_offline (fun other event hmem => ?_) rfl
      rcases hevents _ hmem with hsame | ⟨inner, hsame⟩ <;> cases hsame
  | closing _ hadvance =>
      refine .of_advance hadvance rfl (fun other => ?_) link
      rw [linkTrace_append, Offline.linkTrace_eq_nil, List.nil_append]
      simp [Offline]
  | named _ _ hcall =>
      exact .of_advance hcall.advance rfl (fun _ => linkTrace_online (offline_call _ _ _)) link
  | bound => exact .of_offline (by simp [Offline]) rfl
  | replied _ hsends | asked _ hsends =>
      exact .of_advance hsends rfl (fun _ => linkTrace_online (offline_program _ _)) link
  | joined _ _ hcall =>
      exact .of_advance hcall.advance rfl (fun _ => linkTrace_online (offline_call _ _ _)) link
  | tested | failed => exact .of_offline offline_nil (links_setLoop _ _ _ _ _)
  | took _ hcall => exact .of_advance hcall.advance (links_setLoop _ _ _ _ _) (fun _ => rfl) link
  | written => exact .of_offline (offline_program _ _) (links_setLoop _ _ _ _ _)
  | read => exact .of_offline (by simp [Offline]) rfl
  | moved | stopping => exact .of_offline offline_nil rfl
  | forwarded _ hsends =>
      exact .of_advance hsends rfl (fun _ => linkTrace_online (offline_program _ _)) link
  | stopped hadvance => exact .of_advance hadvance rfl (fun _ => rfl) link

variable {memory : Nat → Side → Memory} {buffers : Host → Bytes}
  {allowed : Machine.StepCondition VpnNet VpnAction VpnEvent} {trace : List VpnEvent}

/-- Every run of the hosts is a run of the connection of a link. -/
theorem reach_link (link : Nat)
    (followed : Machine.StepCondition (Duplex.State ReliableSocket Datagram) (Side × Action)
      (Side × Event))
    (hfollow : ∀ net trace action next move, allowed net trace action next →
      followed (net.links link) (linkTrace link trace) move (next.links link))
    (hreach : (vpnMachine setup).Reach allowed (.init memory buffers) net trace) :
    (connection (setup.config link) setup.crypto).machine.Reach followed
      (connection.start (memory link)) (net.links link) (linkTrace link trace) := by
  refine hreach.project (fun net => net.links link) (VpnEvent.socket? link) ?_
  intro net trace action next events _ hstep hallowed
  cases (step_transition hstep).linkMove link with
  | still hlink hevents => exact .inl ⟨hlink, hevents⟩
  | @step side action hadvance =>
      exact .inr ⟨(side, action), hadvance, hfollow _ _ _ _ _ hallowed⟩

/-- What a link carries from one end to the other. -/
theorem carries_link (link : Nat) (sender : Side)
    (hfits : ∀ net trace action next, allowed net trace action next →
      connection.Fits sender (next.links link))
    (hreach : (vpnMachine setup).Reach allowed (.init memory buffers) net trace) :
    connection.Carries (pushedAt link sender trace) (returnedAt link sender.peer trace)
      ((∀ net trace action next, allowed net trace action next →
          connection.Paced sender (next.links link)) ∧
        droppedIds (Duplex.at_ sender (linkTrace link trace)) = []) := by
  have hcarries := connection.carries sender (fun _ _ _ _ hallowed => hallowed.1)
    (reach_link link (fun _ _ _ next => connection.Fits sender next ∧
      ((∀ net trace action next, allowed net trace action next →
        connection.Paced sender (next.links link)) → connection.Paced sender next))
      (fun net trace action next _ hallowed =>
        ⟨hfits net trace action next hallowed, fun hpaced => hpaced net trace action next hallowed⟩)
      hreach)
  refine ⟨hcarries.sublist, hcarries.positive_, fun ⟨hpaced, hdropped⟩ => ?_⟩
  exact hcarries.isPrefix ⟨fun _ _ _ _ hallowed => hallowed.2 hpaced, hdropped⟩

end VpnNet

end Sharpvpn
