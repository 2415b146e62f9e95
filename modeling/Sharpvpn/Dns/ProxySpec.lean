import Mathlib.Data.List.DropRight
import Sharpvpn.Dns.Proxy

/-!
# What the proxy is for

The proxy remembers its latest queries and holds back some responses, in the order in which
they came. A response is for the client of the remembered query with its identifier, and is
given to it once at most.
-/

namespace Sharpvpn

open Foundation
open scoped List

/-- A query that a client has asked, and the identifier it was given. -/
structure Query where
  client : SockAddr
  oldId : UInt16
  newId : UInt16
  deriving DecidableEq

/-- A response that waits. -/
structure Pending where
  id : UInt16
  ts : Nat
  datagram : Bytes
  client : SockAddr
  deriving DecidableEq

/-- The time of a response that waits has passed. -/
def Pending.due (expired : Nat → Nat → Bool) (now : Nat) (response : Pending) : Bool :=
  expired response.ts now

/-- The latest entries, as many as there is room for. -/
@[irreducible] def remember {α : Type} (room : Nat) (entries : List α) (entry : α) : List α :=
  (entries ++ [entry]).rtake room

/-- The message with another identifier. -/
def renamed (id : UInt16) (datagram : Bytes) : Bytes := put16 id ++ datagram.drop 2

/-- The remembered query with an identifier. -/
def queryOf (window : List Query) (id : UInt16) : Option Query := window.find? (·.newId = id)

/-- Hold a response back, in the place of one with the same identifier or behind the others. -/
def hold (pending : List Pending) (response : Pending) : List Pending :=
  if response.id ∈ pending.map (·.id) then
    pending.map fun other => if other.id = response.id then response else other
  else remember (delayQueueLen - 1) pending response

structure ProxySpec where
  /-- The latest queries. -/
  window : List Query := []
  /-- The responses held back, from the oldest on. -/
  pending : List Pending := []
  /-- How many blocks nothing will free. -/
  lost : Nat := 0
  faulted : Bool := false

inductive ProxyMove
  | ask (query : Query) (sent : List (Nat × Bytes))
  | respond (server : SockAddr) (id : UInt16) (datagram : Bytes) (now : Nat) (verdict : Verdict)
  | check (now : Nat)
  | noDatagram
  | refuse

namespace ProxySpec

def respond (spec : ProxySpec) (server : SockAddr) (id : UInt16) (datagram : Bytes) (now : Nat)
    (verdict : Verdict) : ProxySpec × List DnsEvent :=
  match queryOf spec.window id with
  | none =>
      -- The part of the ring that no query has reached has the identifier 0, and no client.
      if id = 0 ∧ spec.window.length < idAddrQueueLen then ({ spec with faulted := true }, [.fault])
      else (spec, [.received server id datagram])
  | some query =>
      let response := renamed query.oldId datagram
      match verdict with
      | .pass => (spec, [.received server id datagram, .answered query.client response])
      | .delay =>
          ({ spec with pending := hold spec.pending ⟨id, now, response, query.client⟩ },
            [.received server id datagram])
      | .filter => (spec, [.received server id datagram])

def act (expired : Nat → Nat → Bool) (spec : ProxySpec) :
    ProxyMove → Option (ProxySpec × List DnsEvent)
  | .ask query sent =>
      if query.newId ∈ spec.window.map (·.newId) ∨
          query.newId = 0 ∧ spec.window.length < idAddrQueueLen then none
      else some ({ spec with window := remember idAddrQueueLen spec.window query },
        [.asked query.client query.oldId query.newId sent])
  | .respond server id datagram now verdict =>
      some (spec.respond server id datagram now verdict)
  | .check now =>
      some ({ spec with pending := spec.pending.dropWhile (Pending.due expired now) },
        (spec.pending.takeWhile (Pending.due expired now)).map fun response =>
          .answered response.client response.datagram)
  | .noDatagram => some ({ spec with lost := spec.lost + 1 }, [.noDatagram])
  | .refuse => some (spec, [.refused])

def machine (expired : Nat → Nat → Bool) : Machine ProxySpec ProxyMove DnsEvent where
  step spec move := if spec.faulted then none else spec.act expired move

end ProxySpec

/-- The latest queries after some events. -/
def windowAfter : List Query → List DnsEvent → List Query
  | window, [] => window
  | window, .asked client oldId newId _ :: rest =>
      windowAfter (remember idAddrQueueLen window ⟨client, oldId, newId⟩) rest
  | window, _ :: rest => windowAfter window rest

/-- What the responses received are to be turned into: each one goes to the client of the latest
query with its identifier, under the identifier which that client has given. -/
def owedAnswers : List Query → List DnsEvent → List (SockAddr × Bytes)
  | _, [] => []
  | window, .asked client oldId newId _ :: rest =>
      owedAnswers (remember idAddrQueueLen window ⟨client, oldId, newId⟩) rest
  | window, .received _ id datagram :: rest =>
      ((queryOf window id).map fun query => (query.client, renamed query.oldId datagram)).toList ++
        owedAnswers window rest
  | window, _ :: rest => owedAnswers window rest

/-- The number of queries that have been accepted. -/
def askedCount (trace : List DnsEvent) : Nat :=
  trace.countP fun event => match event with
    | .asked .. => true
    | _ => false

@[simp] def DnsEvent.answer? : DnsEvent → Option (SockAddr × Bytes)
  | .answered client datagram => some (client, datagram)
  | _ => none

/-- The datagrams given to clients. -/
def answers (trace : List DnsEvent) : List (SockAddr × Bytes) := trace.filterMap DnsEvent.answer?

def Pending.answer (response : Pending) : SockAddr × Bytes := (response.client, response.datagram)

section Lists

variable {window : List Query} {pending : List Pending} {response : Pending}

theorem remember_suffix {α : Type} (room : Nat) (entries : List α) (entry : α) :
    remember room entries entry <:+ entries ++ [entry] := by
  unfold remember
  exact List.drop_suffix _ _

theorem length_remember {α : Type} (room : Nat) (entries : List α) (entry : α) :
    (remember room entries entry).length = min room (entries.length + 1) := by
  unfold remember List.rtake
  rw [List.length_drop, List.length_append, List.length_singleton]
  omega

theorem nodup_remember {α κ : Type} (key : α → κ) {room : Nat} {entries : List α} {entry : α}
    (hnodup : (entries.map key).Nodup) (hnew : key entry ∉ entries.map key) :
    ((remember room entries entry).map key).Nodup := by
  apply List.Nodup.sublist ((remember_suffix room entries entry).sublist.map key)
  rw [List.map_append, List.map_singleton]
  exact hnodup.append (List.nodup_singleton _) (List.disjoint_singleton.mpr hnew)

theorem hold_split {before after : List Pending} {old : Pending}
    (hnodup : ((before ++ old :: after).map (·.id)).Nodup) (hid : old.id = response.id) :
    hold (before ++ old :: after) response = before ++ response :: after := by
  have hmem : response.id ∈ (before ++ old :: after).map (·.id) :=
    List.mem_map.mpr ⟨old, List.mem_append_right _ List.mem_cons_self, hid⟩
  rw [List.map_append, List.map_cons, List.nodup_append, List.nodup_cons] at hnodup
  obtain ⟨-, ⟨hafter, -⟩, hapart⟩ := hnodup
  have hkeep : ∀ part : List Pending, response.id ∉ part.map (·.id) →
      part.map (fun other => if other.id = response.id then response else other) = part := by
    intro part hpart
    conv_rhs => rw [← List.map_id part]
    apply List.map_congr_left
    intro other hother
    rw [if_neg fun hsame => hpart (List.mem_map.mpr ⟨other, hother, hsame⟩)]
    rfl
  have hbefore : response.id ∉ before.map (·.id) := fun hmem =>
    hapart _ hmem _ List.mem_cons_self hid.symm
  unfold hold
  rw [if_pos hmem, List.map_append, List.map_cons, if_pos hid, hkeep before hbefore,
    hkeep after (hid ▸ hafter)]

theorem exists_split {id : UInt16} (hmem : id ∈ pending.map (·.id)) :
    ∃ before old after, pending = before ++ old :: after ∧ old.id = id := by
  obtain ⟨old, hold, hid⟩ := List.mem_map.mp hmem
  obtain ⟨before, after, hsplit⟩ := List.append_of_mem hold
  exact ⟨before, old, after, hsplit, hid⟩

theorem hold_of_not_mem (hnew : response.id ∉ pending.map (·.id)) :
    hold pending response = remember (delayQueueLen - 1) pending response :=
  if_neg hnew

theorem nodup_hold (hnodup : (pending.map (·.id)).Nodup) :
    ((hold pending response).map (·.id)).Nodup := by
  by_cases hmem : response.id ∈ pending.map (·.id)
  · obtain ⟨before, old, after, rfl, hid⟩ := exists_split hmem
    rw [hold_split hnodup hid]
    simp only [List.map_append, List.map_cons, ← hid] at hnodup ⊢
    exact hnodup
  · rw [hold_of_not_mem hmem]
    exact nodup_remember _ hnodup hmem

/-- A response that is held back adds one answer at most. -/
theorem hold_subperm (hnodup : (pending.map (·.id)).Nodup) :
    (hold pending response).map Pending.answer <+~
      pending.map Pending.answer ++ [response.answer] := by
  by_cases hmem : response.id ∈ pending.map (·.id)
  · obtain ⟨before, old, after, rfl, hid⟩ := exists_split hmem
    rw [hold_split hnodup hid]
    simp only [List.map_append, List.map_cons]
    have hperm : before.map Pending.answer ++ response.answer :: after.map Pending.answer ~
        (before.map Pending.answer ++ after.map Pending.answer) ++ [response.answer] :=
      List.perm_middle.trans (List.perm_append_singleton _ _).symm
    refine hperm.subperm.trans (List.Sublist.subperm ?_)
    apply List.Sublist.append_right
    exact List.Sublist.append_left (List.sublist_cons_self _ _) _
  · rw [hold_of_not_mem hmem]
    have hsublist :=
      (remember_suffix (delayQueueLen - 1) pending response).sublist.map Pending.answer
    rw [List.map_append, List.map_singleton] at hsublist
    exact hsublist.subperm

theorem queryOf_eq_some (hnodup : (window.map (·.newId)).Nodup) {query : Query} {id : UInt16} :
    queryOf window id = some query ↔ query ∈ window ∧ query.newId = id := by
  constructor
  · intro hquery
    exact ⟨List.mem_of_find?_eq_some hquery, by simpa using List.find?_some hquery⟩
  · rintro ⟨hmem, rfl⟩
    cases hfind : queryOf window query.newId with
    | none => simpa using List.find?_eq_none.mp hfind query hmem
    | some other =>
        have hid : other.newId = query.newId := by simpa using List.find?_some hfind
        rw [List.inj_on_of_nodup_map hnodup (List.mem_of_find?_eq_some hfind) hmem hid]

theorem queryOf_eq_none {id : UInt16} :
    queryOf window id = none ↔ id ∉ window.map (·.newId) := by
  unfold queryOf
  simp [List.find?_eq_none]

theorem windowAfter_append (first second : List DnsEvent) :
    windowAfter window (first ++ second) = windowAfter (windowAfter window first) second := by
  induction first generalizing window with
  | nil => rfl
  | cons event rest ih => cases event <;> simp only [List.cons_append, windowAfter, ih]

theorem owedAnswers_append (first second : List DnsEvent) :
    owedAnswers window (first ++ second) =
      owedAnswers window first ++ owedAnswers (windowAfter window first) second := by
  induction first generalizing window with
  | nil => rfl
  | cons event rest ih =>
      cases event <;> simp only [List.cons_append, owedAnswers, windowAfter, ih, List.append_assoc]

theorem answers_append (first second : List DnsEvent) :
    answers (first ++ second) = answers first ++ answers second :=
  List.filterMap_append

@[simp] theorem answers_nil : answers [] = [] := rfl

@[simp] theorem answers_cons (event : DnsEvent) (rest : List DnsEvent) :
    answers (event :: rest) = event.answer?.toList ++ answers rest := by
  unfold answers
  rw [List.filterMap_cons]
  cases event.answer? <;> rfl

theorem answers_map (responses : List Pending) :
    answers (responses.map fun response => .answered response.client response.datagram) =
      responses.map Pending.answer := by
  induction responses with
  | nil => rfl
  | cons response rest ih => exact congrArg (response.answer :: ·) ih

theorem owedAnswers_map (responses : List Pending) :
    owedAnswers window (responses.map fun response =>
      .answered response.client response.datagram) = [] ∧
    windowAfter window (responses.map fun response =>
      .answered response.client response.datagram) = window := by
  induction responses with
  | nil => exact ⟨rfl, rfl⟩
  | cons response rest ih => exact ih

end Lists

namespace ProxySpec

/-- What holds of the proxy after a run. -/
structure Holds (spec : ProxySpec) (trace : List DnsEvent) : Prop where
  window_eq : spec.window = windowAfter [] trace
  length_eq : spec.window.length = min idAddrQueueLen (askedCount trace)
  newIds : (spec.window.map (·.newId)).Nodup
  pendingIds : (spec.pending.map (·.id)).Nodup
  lost_eq : spec.lost = trace.count .noDatagram
  owed : answers trace ++ spec.pending.map Pending.answer <+~ owedAnswers [] trace

variable {spec next : ProxySpec} {trace events : List DnsEvent}

theorem Holds.ask (hholds : spec.Holds trace) {query : Query} {sent : List (Nat × Bytes)}
    (hnew : query.newId ∉ spec.window.map (·.newId)) :
    { spec with window := remember idAddrQueueLen spec.window query }.Holds
      (trace ++ [DnsEvent.asked query.client query.oldId query.newId sent]) where
  window_eq := by rw [windowAfter_append, ← hholds.window_eq]; rfl
  length_eq := by
    have hcount : askedCount (trace ++ [DnsEvent.asked query.client query.oldId query.newId sent]) =
        askedCount trace + 1 := List.countP_append
    rw [length_remember, hholds.length_eq, hcount]
    omega
  newIds := nodup_remember _ hholds.newIds hnew
  pendingIds := hholds.pendingIds
  lost_eq := by
    rw [List.count_append, ← hholds.lost_eq]
    rfl
  owed := by
    rw [answers_append, owedAnswers_append]
    have howed := hholds.owed
    simpa [owedAnswers] using howed

/-- A step that asks nothing gives what was held back, or what the events say is owed. -/
theorem Holds.give (hholds : spec.Holds trace) {pending : List Pending} {lost : Nat}
    {faulted : Bool} (hlost : lost = spec.lost + events.count .noDatagram)
    (hwindow : windowAfter spec.window events = spec.window) (hcount : askedCount events = 0)
    (hpending : (pending.map (·.id)).Nodup)
    (howed : answers events ++ pending.map Pending.answer <+~
      spec.pending.map Pending.answer ++ owedAnswers spec.window events) :
    { spec with pending, lost, faulted }.Holds (trace ++ events) where
  window_eq := by rw [windowAfter_append, ← hholds.window_eq, hwindow]
  length_eq := by
    have hsame : askedCount (trace ++ events) = askedCount trace := by
      unfold askedCount at hcount ⊢
      rw [List.countP_append, hcount, Nat.add_zero]
    rw [hsame]
    exact hholds.length_eq
  newIds := hholds.newIds
  pendingIds := hpending
  lost_eq := by rw [hlost, hholds.lost_eq, List.count_append]
  owed := by
    rw [answers_append, owedAnswers_append, ← hholds.window_eq, List.append_assoc]
    have hmore := (List.Subperm.refl (answers trace)).append howed
    rw [← List.append_assoc (answers trace) (spec.pending.map Pending.answer)] at hmore
    exact hmore.trans (hholds.owed.append (List.Subperm.refl _))

theorem Holds.respond (hholds : spec.Holds trace) (server : SockAddr) (id : UInt16)
    (datagram : Bytes) (now : Nat) (verdict : Verdict) :
    (spec.respond server id datagram now verdict).1.Holds
      (trace ++ (spec.respond server id datagram now verdict).2) := by
  unfold ProxySpec.respond
  cases hquery : queryOf spec.window id with
  | none =>
      dsimp only
      split
      next =>
        refine hholds.give rfl rfl rfl hholds.pendingIds ?_
        simp [owedAnswers, List.Subperm.refl]
      next =>
        refine hholds.give rfl rfl rfl hholds.pendingIds ?_
        simp [owedAnswers, hquery, List.Subperm.refl]
  | some query =>
      cases verdict with
      | pass =>
          refine hholds.give rfl rfl rfl hholds.pendingIds ?_
          have hperm : [(query.client, renamed query.oldId datagram)] ++
              spec.pending.map Pending.answer ~ _ := List.perm_append_comm
          simpa [owedAnswers, hquery] using hperm.subperm
      | delay =>
          refine hholds.give rfl rfl rfl (nodup_hold hholds.pendingIds) ?_
          have hheld : (hold spec.pending ⟨id, now, renamed query.oldId datagram,
              query.client⟩).map Pending.answer <+~ _ := hold_subperm hholds.pendingIds
          simpa [owedAnswers, hquery, Pending.answer] using hheld
      | filter =>
          refine hholds.give rfl rfl rfl hholds.pendingIds ?_
          simpa [owedAnswers] using (List.sublist_append_left _ _).subperm

theorem Holds.check (hholds : spec.Holds trace) (due : Pending → Bool) :
    { spec with pending := spec.pending.dropWhile due }.Holds
      (trace ++ (spec.pending.takeWhile due).map fun response : Pending =>
        DnsEvent.answered response.client response.datagram) := by
  refine hholds.give ?_ (owedAnswers_map _).2 ?_ ?_ ?_
  · rw [List.count_eq_zero_of_not_mem (by simp), Nat.add_zero]
  · unfold askedCount
    rw [List.countP_map, List.countP_eq_zero]
    simp
  · exact hholds.pendingIds.sublist ((List.dropWhile_sublist _).map _)
  · rw [answers_map, (owedAnswers_map _).1, ← List.map_append, List.takeWhile_append_dropWhile,
      List.append_nil]

variable {expired : Nat → Nat → Bool}

theorem step_of_running (hrunning : spec.faulted = false) (move : ProxyMove) :
    (machine expired).step spec move = spec.act expired move :=
  if_neg (by rw [hrunning]; decide)

theorem running_of_step {move : ProxyMove} {result : ProxySpec × List DnsEvent}
    (hstep : (machine expired).step spec move = some result) :
    spec.faulted = false ∧ spec.act expired move = some result := by
  unfold machine at hstep
  dsimp only at hstep
  split at hstep
  next => cases hstep
  next hrunning => exact ⟨by simpa using hrunning, hstep⟩

theorem Holds.step (hholds : spec.Holds trace) {move : ProxyMove}
    (hstep : (machine expired).step spec move = some (next, events)) :
    next.Holds (trace ++ events) := by
  obtain ⟨-, hact⟩ := running_of_step hstep
  cases move with
  | ask query sent =>
      rw [act] at hact
      split at hact
      next => cases hact
      next hnew =>
        obtain ⟨rfl, rfl⟩ := Prod.mk.inj (Option.some.inj hact)
        exact hholds.ask (not_or.mp hnew).1
  | respond server id datagram now verdict =>
      have hrespond := hholds.respond server id datagram now verdict
      rw [Option.some.inj hact] at hrespond
      exact hrespond
  | check now =>
      obtain ⟨rfl, rfl⟩ := Prod.mk.inj (Option.some.inj hact)
      exact hholds.check _
  | noDatagram =>
      obtain ⟨rfl, rfl⟩ := Prod.mk.inj (Option.some.inj hact)
      exact hholds.give rfl rfl rfl hholds.pendingIds (by simp [owedAnswers, List.Subperm.refl])
  | refuse =>
      obtain ⟨rfl, rfl⟩ := Prod.mk.inj (Option.some.inj hact)
      exact hholds.give rfl rfl rfl hholds.pendingIds (by simp [owedAnswers, List.Subperm.refl])

/-- A fault is seen, and is the end. -/
theorem fault_mem_iff {move : ProxyMove}
    (hstep : (machine expired).step spec move = some (next, events)) :
    DnsEvent.fault ∈ events ↔ next.faulted = true := by
  obtain ⟨hrunning, hact⟩ := running_of_step hstep
  cases move with
  | ask query sent =>
      rw [act] at hact
      split at hact
      next => cases hact
      next =>
        obtain ⟨rfl, rfl⟩ := Prod.mk.inj (Option.some.inj hact)
        simp [hrunning]
  | respond server id datagram now verdict =>
      rw [act, ProxySpec.respond] at hact
      split at hact
      next =>
        split at hact <;> obtain ⟨rfl, rfl⟩ := Prod.mk.inj (Option.some.inj hact) <;>
          simp [hrunning]
      next =>
        cases verdict <;> obtain ⟨rfl, rfl⟩ := Prod.mk.inj (Option.some.inj hact) <;>
          simp [hrunning]
  | check now =>
      obtain ⟨rfl, rfl⟩ := Prod.mk.inj (Option.some.inj hact)
      simp [hrunning]
  | noDatagram | refuse =>
      obtain ⟨rfl, rfl⟩ := Prod.mk.inj (Option.some.inj hact)
      simp [hrunning]

/-- Every run of the proxy gives clients only what they are owed. -/
theorem reach_holds (hreach : (machine expired).Reach Machine.always {} spec trace) :
    spec.Holds trace := by
  induction hreach with
  | start => exact ⟨rfl, rfl, List.nodup_nil, List.nodup_nil, rfl, List.Subperm.refl _⟩
  | step _ hstep _ ih => exact ih.step hstep

end ProxySpec

end Sharpvpn
