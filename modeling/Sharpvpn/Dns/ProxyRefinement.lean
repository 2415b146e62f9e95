import Sharpvpn.Dns.ProxySpec

/-!
# The rings and blocks of the proxy

The cells of the first ring that no query has reached have no client. Every other cell, and
every response that waits, owns the blocks it points to.
-/

namespace Sharpvpn

open Foundation Foundation.Layout
open scoped List

/-- A response that waits, and its blocks. -/
structure Held where
  buf : Nat
  addr : Nat
  response : Pending

def Held.entry (held : Held) : DelayBuf where
  id := held.response.id
  ts := held.response.ts
  buf := some held.buf
  addr := some held.addr

/-- A query with the block of its client, as the ring has it. -/
def Query.entry (owner : Nat × Query) : IdAddr where
  id := owner.2.newId
  oldId := owner.2.oldId
  addr := some owner.1

/-- The first ring is full from the start. -/
def DnsState.idCursor (state : DnsState) : Cursor where
  start := (state.idAddrQueuePos + 1) % idAddrQueueLen
  stop := (state.idAddrQueuePos + 1) % idAddrQueueLen
  len := idAddrQueueLen

theorem DnsState.idEntries_perm (state : DnsState) :
    state.idCursor.contents idAddrQueueLen state.idAddrQueue ~
      (List.range idAddrQueueLen).map state.idAddrQueue := by
  have hfull : state.idCursor.contents idAddrQueueLen state.idAddrQueue = _ :=
    Cursor.contents_full rfl
  rw [hfull]
  exact List.rotate_perm _ _

theorem DnsState.mem_idEntries (state : DnsState) {entry : IdAddr} :
    entry ∈ state.idCursor.contents idAddrQueueLen state.idAddrQueue ↔
      ∃ i < idAddrQueueLen, state.idAddrQueue i = entry := by
  rw [state.idEntries_perm.mem_iff]
  simp

/-- The blocks with an address, and who has them; nothing has the last ones. -/
def addrBlocks (queries : List (Nat × Query)) (delayed : List Held)
    (others : List (Nat × SockAddr)) : List (Nat × SockAddr) :=
  queries.map (fun owner => (owner.1, owner.2.client)) ++
    (delayed.map (fun held => (held.addr, held.response.client)) ++ others)

/-- The blocks with a datagram. -/
def bufBlocks (delayed : List Held) : List (Nat × Bytes) :=
  delayed.map fun held => (held.buf, held.response.datagram)

structure Implements (state : DnsState) (spec : ProxySpec) (queries : List (Nat × Query))
    (delayed : List Held) (others : List (Nat × SockAddr)) : Prop where
  window_eq : spec.window = queries.map Prod.snd
  pending_eq : spec.pending = delayed.map Held.response
  idEntries : state.idCursor.contents idAddrQueueLen state.idAddrQueue =
    List.replicate (idAddrQueueLen - queries.length) ({} : IdAddr) ++ queries.map Query.entry
  newIds : (spec.window.map (·.newId)).Nodup
  zero_free : spec.window.length < idAddrQueueLen → 0 ∉ spec.window.map (·.newId)
  first_lt : state.delayQueueFirst < delayQueueLen
  last_lt : state.delayQueueLast < delayQueueLen
  delayEntries : state.delayPlaces.map state.delayQueue = delayed.map Held.entry
  pendingIds : (spec.pending.map (·.id)).Nodup
  addrs_perm : state.addrs.live ~ addrBlocks queries delayed others
  bufs_perm : state.bufs.live ~ bufBlocks delayed
  hostname_null : state.hostnameBuf = none → state.hostnameBuflen = 0
  hostname_live : state.hostnames.live = (state.hostnameBuf.map (·, state.hostnameBuflen)).toList

section Remember

variable {α β : Type} {room : Nat} {entries : List α} {entry : α}

theorem remember_of_lt (hlt : entries.length < room) :
    remember room entries entry = entries ++ [entry] := by
  unfold remember List.rtake
  rw [List.length_append, List.length_singleton, Nat.sub_eq_zero_of_le hlt, List.drop_zero]

theorem remember_of_full (hpos : 0 < room) (hfull : entries.length = room) :
    remember room entries entry = entries.tail ++ [entry] := by
  unfold remember List.rtake
  rw [List.length_append, List.length_singleton, ← hfull, Nat.add_sub_cancel_left,
    List.drop_append_of_le_length (by omega), List.drop_one]

theorem map_remember (f : α → β) :
    (remember room entries entry).map f = remember room (entries.map f) (f entry) := by
  unfold remember List.rtake
  simp [List.map_drop]

end Remember

variable {state next : DnsState} {spec : ProxySpec} {queries : List (Nat × Query)}
  {delayed : List Held} {others : List (Nat × SockAddr)}

namespace Implements

theorem length_queries (himpl : Implements state spec queries delayed others) :
    queries.length ≤ idAddrQueueLen := by
  have hlength := congrArg List.length himpl.idEntries
  rw [Cursor.length_contents, List.length_append, List.length_replicate, List.length_map] at hlength
  have hlen : state.idCursor.len = idAddrQueueLen := rfl
  omega

theorem length_delayed (himpl : Implements state spec queries delayed others) :
    state.delayCursor.len = delayed.length := by
  have hlength := congrArg List.length himpl.delayEntries
  unfold DnsState.delayPlaces at hlength
  simpa using hlength

theorem idCursor_valid (state : DnsState) : state.idCursor.Valid idAddrQueueLen where
  start_lt := Nat.mod_lt _ (by decide)
  stop_eq := by
    show _ % _ = (_ % _ + idAddrQueueLen) % idAddrQueueLen
    rw [Nat.add_mod_right, Nat.mod_mod]
  len_le := Nat.le_refl _

/-- A block more, with nobody to free it yet. -/
theorem malloc (himpl : Implements state spec queries delayed others) (client : SockAddr) :
    Implements { state with addrs := state.addrs.malloc client } spec queries delayed
      ((state.addrs.next, client) :: others) where
  __ := himpl
  addrs_perm := by
    refine (Heap.malloc_perm himpl.addrs_perm).trans ?_
    unfold addrBlocks
    rw [← List.append_assoc, ← List.append_assoc]
    exact List.perm_middle.symm

/-- The relation leaves out the buffer, and how many blocks nothing will free. -/
theorem withBuf (himpl : Implements state spec queries delayed others) (globalBuf : Octets) :
    Implements { state with globalBuf } spec queries delayed others :=
  { himpl with }

theorem withLost (himpl : Implements state spec queries delayed others) {lost : Nat} :
    Implements state { spec with lost } queries delayed others :=
  { himpl with }

/-- The block is freed by the function that has allocated it. -/
theorem free {src : Nat} {client : SockAddr}
    (himpl : Implements state spec queries delayed ((src, client) :: others)) :
    ∃ addrs, state.addrs.free (some src) = some addrs ∧
      Implements { state with addrs } spec queries delayed others := by
  have hperm : state.addrs.live ~ (src, client) :: addrBlocks queries delayed others := by
    refine himpl.addrs_perm.trans ?_
    unfold addrBlocks
    rw [← List.append_assoc, ← List.append_assoc]
    exact List.perm_middle
  obtain ⟨hfree, hrest⟩ := Heap.free_of_perm hperm
  exact ⟨_, hfree, { himpl with addrs_perm := hrest }⟩

/-- The block for a name has room for it, or gives way to one that has. Nothing else changes. -/
theorem hostnameFromQuestion (himpl : Implements state spec queries delayed others)
    (dnExpand : DnExpand) (msg : NsMsg) :
    ∃ hostnames hostnameBuf hostnameBuflen,
      state.hostnameFromQuestion dnExpand msg =
        some { state with hostnames, hostnameBuf, hostnameBuflen } ∧
      Implements { state with hostnames, hostnameBuf, hostnameBuflen } spec queries delayed
        others := by
  unfold DnsState.hostnameFromQuestion
  split
  next => exact ⟨_, _, _, rfl, himpl⟩
  next =>
    split
    next => exact ⟨_, _, _, rfl, himpl⟩
    next rr _ =>
      dsimp only
      split
      next =>
        obtain ⟨moved, hrealloc, hlive⟩ :=
          Heap.realloc_only himpl.hostname_live (2 * ((cString rr.nsRrName).length + 1))
        have hread := Heap.read_of_mem (show _ ∈ moved.live by
          rw [hlive]
          exact List.mem_singleton_self _)
        refine ⟨moved, some state.hostnames.next, _, ?_,
          { himpl with hostname_null := by simp, hostname_live := hlive }⟩
        rw [hrealloc, Option.map_some, Option.bind_some, Option.bind_some, hread,
          Option.filter_some, if_pos (by rw [decide_eq_true_eq]; omega), Option.map_some]
      next hroom =>
        refine ⟨_, _, _, ?_, himpl⟩
        cases hbuf : state.hostnameBuf with
        | none => exact absurd (himpl.hostname_null hbuf) (by omega)
        | some ptr =>
            have hlive := himpl.hostname_live
            rw [hbuf] at hlive
            have hread := Heap.read_of_mem (show (ptr, state.hostnameBuflen) ∈ _ by
              rw [hlive]
              exact List.mem_singleton_self _)
            rw [Option.bind_some, hbuf, Option.bind_some, hread, Option.filter_some,
              if_pos (by rw [decide_eq_true_eq]; omega), Option.map_some, ← hbuf]

/-- The cell that the next query takes, and the others. -/
theorem idEntries_cons (himpl : Implements state spec queries delayed others) :
    state.idAddrQueue ((state.idAddrQueuePos + 1) % idAddrQueueLen) ::
        (state.idCursor.pop idAddrQueueLen).contents idAddrQueueLen state.idAddrQueue =
      List.replicate (idAddrQueueLen - queries.length) ({} : IdAddr) ++
        queries.map Query.entry := by
  rw [← himpl.idEntries]
  exact (Cursor.contents_eq_cons (idCursor_valid state).start_lt (Nat.zero_lt_succ 127)).symm

/-- A cell of the ring that a query takes stands behind the others. -/
theorem contents_queueAdd (state : DnsState) (entry : IdAddr) :
    ((state.idCursor.pop idAddrQueueLen).push idAddrQueueLen).contents idAddrQueueLen
        (Function.update state.idAddrQueue ((state.idAddrQueuePos + 1) % idAddrQueueLen) entry) =
      (state.idCursor.pop idAddrQueueLen).contents idAddrQueueLen state.idAddrQueue ++ [entry] :=
  Cursor.contents_push ((idCursor_valid state).pop (Nat.zero_lt_succ 127)) (Nat.lt_succ_self 127)
    entry

/-- The ring after a query, whatever becomes of the block in its cell. -/
theorem idEntries_queueAdd (himpl : Implements state spec queries delayed others)
    (entry : IdAddr) :
    (state.idAddrQueue ((state.idAddrQueuePos + 1) % idAddrQueueLen)).addr =
        (if queries.length = idAddrQueueLen then queries.head?.map Prod.fst else none) ∧
      ((state.idCursor.pop idAddrQueueLen).push idAddrQueueLen).contents idAddrQueueLen
        (Function.update state.idAddrQueue ((state.idAddrQueuePos + 1) % idAddrQueueLen) entry) =
      List.replicate (idAddrQueueLen - (queries.length + 1)) ({} : IdAddr) ++
        remember idAddrQueueLen (queries.map Query.entry) entry := by
  have hlength := himpl.length_queries
  have hcons := himpl.idEntries_cons
  rw [contents_queueAdd]
  by_cases hfull : queries.length = idAddrQueueLen
  · cases queries with
    | nil => cases hfull
    | cons owner queries =>
        rw [hfull, Nat.sub_self, List.replicate_zero, List.nil_append, List.map_cons] at hcons
        obtain ⟨hhead, htail⟩ := List.cons.inj hcons
        rw [hhead, htail, remember_of_full (by decide) (by rw [List.length_map, hfull]),
          Nat.sub_eq_zero_of_le (by omega)]
        simp [hfull, Query.entry]
  · obtain ⟨more, hmore⟩ : ∃ more, idAddrQueueLen - queries.length = more + 1 :=
      ⟨idAddrQueueLen - queries.length - 1, by omega⟩
    rw [hmore, List.replicate_succ, List.cons_append] at hcons
    obtain ⟨hhead, htail⟩ := List.cons.inj hcons
    have hlt : (queries.map Query.entry).length < idAddrQueueLen := by
      rw [List.length_map]
      exact Nat.lt_of_le_of_ne hlength hfull
    rw [hhead, htail, remember_of_lt hlt,
      show idAddrQueueLen - (queries.length + 1) = more by omega]
    simp [hfull]

/-- The client of a query keeps its block when the query enters the ring. -/
theorem addrBlocks_enter (src : Nat) (query : Query) :
    addrBlocks queries delayed ((src, query.client) :: others) ~
      addrBlocks (queries ++ [(src, query)]) delayed others := by
  unfold addrBlocks
  rw [List.map_append, List.append_assoc]
  exact List.perm_middle.append_left _

theorem queueAdd {src : Nat} {query : Query}
    (himpl : Implements state spec queries delayed ((src, query.client) :: others))
    (hnew : query.newId ∉ spec.window.map (·.newId))
    (hzero : ¬(query.newId = 0 ∧ spec.window.length < idAddrQueueLen)) :
    ∃ next, state.queueAdd ⟨query.newId, query.oldId, some src⟩ = some next ∧
      next.faulted = state.faulted ∧
      Implements next { spec with window := remember idAddrQueueLen spec.window query }
        (remember idAddrQueueLen queries (src, query)) delayed others := by
  obtain ⟨haddr, hentries⟩ := himpl.idEntries_queueAdd (Query.entry (src, query))
  have hlength := himpl.length_queries
  have hwindow := congrArg List.length himpl.window_eq
  rw [List.length_map] at hwindow
  -- The block of the query that is forgotten is freed, if there is one.
  obtain ⟨addrs, hfree, hperm⟩ : ∃ addrs, state.addrs.free
      (state.idAddrQueue ((state.idAddrQueuePos + 1) % idAddrQueueLen)).addr = some addrs ∧
      addrs.live ~ addrBlocks (remember idAddrQueueLen queries (src, query)) delayed others := by
    rw [haddr]
    by_cases hfull : queries.length = idAddrQueueLen
    · cases queries with
      | nil => cases hfull
      | cons owner queries =>
          obtain ⟨hfree, hrest⟩ := Heap.free_of_perm himpl.addrs_perm
          refine ⟨_, by rw [if_pos hfull]; exact hfree, ?_⟩
          rw [remember_of_full (by decide) hfull]
          exact hrest.trans (addrBlocks_enter src query)
    · refine ⟨state.addrs, by rw [if_neg hfull]; rfl, ?_⟩
      rw [remember_of_lt (Nat.lt_of_le_of_ne hlength hfull)]
      exact himpl.addrs_perm.trans (addrBlocks_enter src query)
  unfold DnsState.queueAdd
  dsimp only
  rw [hfree]
  refine ⟨_, rfl, rfl, { himpl with
    window_eq := by rw [map_remember, himpl.window_eq]
    idEntries := ?_
    newIds := nodup_remember _ himpl.newIds hnew
    zero_free := fun hlt hmem => ?_
    addrs_perm := hperm }⟩
  · rw [map_remember, length_remember,
      show idAddrQueueLen - min idAddrQueueLen (queries.length + 1) =
        idAddrQueueLen - (queries.length + 1) by omega]
    exact hentries
  · rw [length_remember] at hlt
    have hroom : spec.window.length < idAddrQueueLen := by omega
    rw [remember_of_lt hroom, List.map_append, List.mem_append] at hmem
    rcases hmem with hold | hnow
    · exact himpl.zero_free hroom hold
    · exact hzero ⟨(List.mem_singleton.mp hnow).symm, hroom⟩

/-- A cell of the first ring is unused, or has a query and the block of its client. -/
theorem idEntry_cases (himpl : Implements state spec queries delayed others) {i : Nat}
    (hi : i < idAddrQueueLen) :
    (state.idAddrQueue i = {} ∧ queries.length < idAddrQueueLen) ∨
      ∃ owner ∈ queries, state.idAddrQueue i = Query.entry owner := by
  have hmem := state.mem_idEntries.mpr ⟨i, hi, rfl⟩
  rw [himpl.idEntries, List.mem_append, List.mem_replicate, List.mem_map] at hmem
  rcases hmem with ⟨hpos, hunused⟩ | ⟨owner, howner, hentry⟩
  · exact .inl ⟨hunused, by omega⟩
  · exact .inr ⟨owner, howner, hentry.symm⟩

/-- Every query in the ring has a cell. -/
theorem exists_idEntry (himpl : Implements state spec queries delayed others)
    {owner : Nat × Query} (howner : owner ∈ queries) :
    ∃ i < idAddrQueueLen, state.idAddrQueue i = Query.entry owner := by
  rw [← state.mem_idEntries, himpl.idEntries]
  exact List.mem_append_right _ (List.mem_map_of_mem howner)

/-- What a lookup finds: the cell of a query, or one that is unused. -/
theorem of_queueLookup (himpl : Implements state spec queries delayed others) {id : UInt16}
    {i : Nat} (hlookup : state.queueLookup id = some i) :
    (state.idAddrQueue i = {} ∧ id = 0 ∧ spec.window.length < idAddrQueueLen ∧
        queryOf spec.window id = none) ∨
      ∃ owner ∈ queries, state.idAddrQueue i = Query.entry owner ∧
        queryOf spec.window id = some owner.2 := by
  have hid : (state.idAddrQueue i).id = id := by simpa using List.find?_some hlookup
  have hi : i < idAddrQueueLen := List.mem_range.mp (List.mem_of_find?_eq_some hlookup)
  have hwindow := congrArg List.length himpl.window_eq
  rw [List.length_map] at hwindow
  rcases himpl.idEntry_cases hi with ⟨hunused, hlt⟩ | ⟨owner, howner, hentry⟩
  · rw [hunused] at hid
    obtain rfl : 0 = id := hid
    rw [← hwindow] at hlt
    exact .inl ⟨hunused, rfl, hlt, queryOf_eq_none.mpr (himpl.zero_free hlt)⟩
  · rw [hentry] at hid
    refine .inr ⟨owner, howner, hentry, (queryOf_eq_some himpl.newIds).mpr ⟨?_, hid⟩⟩
    rw [himpl.window_eq]
    exact List.mem_map_of_mem howner

theorem of_queueLookup_none (himpl : Implements state spec queries delayed others) {id : UInt16}
    (hlookup : state.queueLookup id = none) :
    id ∉ spec.window.map (·.newId) ∧ ¬(id = 0 ∧ spec.window.length < idAddrQueueLen) := by
  have hno : ∀ i < idAddrQueueLen, (state.idAddrQueue i).id ≠ id := by
    intro i hi
    simpa using List.find?_eq_none.mp hlookup i (List.mem_range.mpr hi)
  constructor
  · intro hmem
    rw [himpl.window_eq, List.map_map] at hmem
    obtain ⟨owner, howner, rfl⟩ := List.mem_map.mp hmem
    obtain ⟨i, hi, hentry⟩ := himpl.exists_idEntry howner
    exact hno i hi (by rw [hentry]; rfl)
  · rintro ⟨rfl, hlt⟩
    have hwindow := congrArg List.length himpl.window_eq
    rw [List.length_map] at hwindow
    have hunused : ({} : IdAddr) ∈ state.idCursor.contents idAddrQueueLen state.idAddrQueue := by
      rw [himpl.idEntries]
      exact List.mem_append_left _ (List.mem_replicate.mpr ⟨by omega, rfl⟩)
    obtain ⟨i, hi, hentry⟩ := state.mem_idEntries.mp hunused
    exact hno i hi (by rw [hentry])

section Delay

theorem map_delayPlaces {α : Type} (state : DnsState) (array : Nat → α) :
    state.delayPlaces.map array = state.delayCursor.contents delayQueueLen array :=
  List.map_map

theorem delayCursor_valid (himpl : Implements state spec queries delayed others) :
    state.delayCursor.Valid delayQueueLen where
  start_lt := himpl.first_lt
  stop_eq := by
    have hfirst := himpl.first_lt
    have hlast := himpl.last_lt
    unfold DnsState.delayCursor
    unfold delayQueueLen at *
    dsimp only
    omega
  len_le := Nat.le_of_lt (Nat.mod_lt _ (by decide))

/-- A response that waits takes its blocks along. -/
theorem addrBlocks_delayed (before after : List Held) (held : Held) :
    addrBlocks queries (before ++ held :: after) others ~
      (held.addr, held.response.client) :: addrBlocks queries (before ++ after) others := by
  unfold addrBlocks
  rw [List.map_append, List.map_append, List.map_cons, List.append_assoc, List.append_assoc]
  exact (List.perm_middle.append_left _).trans List.perm_middle

theorem bufBlocks_delayed (before after : List Held) (held : Held) :
    bufBlocks (before ++ held :: after) ~
      (held.buf, held.response.datagram) :: bufBlocks (before ++ after) := by
  unfold bufBlocks
  rw [List.map_append, List.map_append, List.map_cons]
  exact List.perm_middle

theorem freeDelay_eq {place : Nat} {held : Held} (before after : List Held)
    (hentry : state.delayQueue place = held.entry)
    (haddrs : state.addrs.live ~ addrBlocks queries (before ++ held :: after) others)
    (hbufs : state.bufs.live ~ bufBlocks (before ++ held :: after)) :
    ∃ addrs bufs, state.freeDelay place = some { state with addrs, bufs } ∧
      addrs.live ~ addrBlocks queries (before ++ after) others ∧
      bufs.live ~ bufBlocks (before ++ after) := by
  obtain ⟨hfreeAddr, haddrs⟩ :=
    Heap.free_of_perm (haddrs.trans (addrBlocks_delayed before after held))
  obtain ⟨hfreeBuf, hbufs⟩ := Heap.free_of_perm (hbufs.trans (bufBlocks_delayed before after held))
  refine ⟨_, _, ?_, haddrs, hbufs⟩
  unfold DnsState.freeDelay
  rw [hentry]
  show (state.bufs.free (some held.buf)).bind _ = _
  rw [hfreeBuf, Option.bind_some]
  show (state.addrs.free (some held.addr)).map _ = _
  rw [hfreeAddr]
  rfl

theorem freeSame_skip {queryId : UInt16} {places rest : List Nat} {found : Option Nat}
    (hskip : ∀ place ∈ places, (state.delayQueue place).id ≠ queryId) :
    DnsState.freeSame queryId (places ++ rest) state found =
      DnsState.freeSame queryId rest state found := by
  induction places with
  | nil => rfl
  | cons place places ih =>
      rw [List.cons_append, DnsState.freeSame, if_neg (hskip place List.mem_cons_self)]
      exact ih fun other hother => hskip other (List.mem_cons_of_mem _ hother)

/-- The ids at some places are those of the responses held there. -/
theorem ids_of_entries {places : List Nat} {part : List Held} {queryId : UInt16}
    (hentries : places.map state.delayQueue = part.map Held.entry)
    (hnew : queryId ∉ part.map (·.response.id)) :
    ∀ place ∈ places, (state.delayQueue place).id ≠ queryId := by
  intro place hplace hid
  have hmem : state.delayQueue place ∈ part.map Held.entry := by
    rw [← hentries]
    exact List.mem_map_of_mem hplace
  obtain ⟨held, hheld, hentry⟩ := List.mem_map.mp hmem
  refine hnew (List.mem_map.mpr ⟨held, hheld, ?_⟩)
  rw [← hid, ← hentry]
  rfl

/-- The search finds the one response with its identifier, and frees its blocks. -/
theorem freeSame_of_mem (himpl : Implements state spec queries delayed others)
    {queryId : UInt16} (hmem : queryId ∈ delayed.map (·.response.id)) :
    ∃ before old after addrs bufs, delayed = before ++ old :: after ∧ old.response.id = queryId ∧
      DnsState.freeSame queryId state.delayPlaces state none =
        some ({ state with addrs, bufs },
          some ((state.delayQueueFirst + before.length) % delayQueueLen)) ∧
      addrs.live ~ addrBlocks queries (before ++ after) others ∧
      bufs.live ~ bufBlocks (before ++ after) := by
  obtain ⟨old, hold', hid⟩ := List.mem_map.mp hmem
  obtain ⟨before, after, rfl⟩ := List.append_of_mem hold'
  have hnodup := himpl.pendingIds
  rw [himpl.pending_eq, List.map_map, List.map_append, List.map_cons, List.nodup_append,
    List.nodup_cons] at hnodup
  obtain ⟨-, ⟨hafter, -⟩, hapart⟩ := hnodup
  have hentries := himpl.delayEntries
  rw [List.map_append, List.map_cons] at hentries
  obtain ⟨first, later, hplaces, hfirst, hlater⟩ := List.map_eq_append_iff.mp hentries
  obtain ⟨place, rest, rfl, hplace, hrest⟩ := List.map_eq_cons_iff.mp hlater
  obtain ⟨addrs, bufs, hfree, haddrs, hbufs⟩ :=
    freeDelay_eq before after hplace himpl.addrs_perm himpl.bufs_perm
  refine ⟨before, old, after, addrs, bufs, rfl, hid, ?_, haddrs, hbufs⟩
  have hbefore : queryId ∉ before.map (·.response.id) := fun hmem =>
    hapart _ hmem _ List.mem_cons_self hid.symm
  have hlength : first.length = before.length := by
    simpa using congrArg List.length hfirst
  have hindex : place = (state.delayQueueFirst + before.length) % delayQueueLen := by
    have hget : state.delayPlaces[before.length]? = some place := by
      rw [hplaces, ← hlength, List.getElem?_append_right (Nat.le_refl _), Nat.sub_self]
      rfl
    unfold DnsState.delayPlaces at hget
    rw [List.getElem?_map] at hget
    obtain ⟨i, hi, rfl⟩ := Option.map_eq_some_iff.mp hget
    obtain ⟨-, rfl⟩ := List.getElem?_eq_some_iff.mp hi
    rw [List.getElem_range]
  have hmissing : queryId ∉ after.map (·.response.id) := by
    rw [← hid]
    exact hafter
  have hlast : DnsState.freeSame queryId rest { state with addrs, bufs } (some place) =
      some ({ state with addrs, bufs }, some place) := by
    let freed : DnsState := { state with addrs, bufs }
    have hskip : ∀ place ∈ rest, (freed.delayQueue place).id ≠ queryId :=
      ids_of_entries hrest hmissing
    rw [← List.append_nil rest, freeSame_skip hskip, DnsState.freeSame]
  rw [hplaces, freeSame_skip (ids_of_entries hfirst hbefore), DnsState.freeSame,
    if_pos (by rw [hplace]; exact hid), hfree, Option.bind_some, hlast, hindex]

theorem freeSame_of_not_mem (himpl : Implements state spec queries delayed others)
    {queryId : UInt16} (hnew : queryId ∉ delayed.map (·.response.id)) :
    DnsState.freeSame queryId state.delayPlaces state none = some (state, none) := by
  rw [← List.append_nil state.delayPlaces,
    freeSame_skip (ids_of_entries himpl.delayEntries hnew), DnsState.freeSame]

/-- The address that the ring has for a query can be read. -/
theorem read_owner {addrs : Heap SockAddr} {owner : Nat × Query} (howner : owner ∈ queries)
    (haddrs : addrs.live ~ addrBlocks queries delayed others) :
    addrs.read owner.1 = some owner.2.client := by
  apply Heap.read_of_mem
  rw [haddrs.mem_iff]
  exact List.mem_append_left _ (List.mem_map.mpr ⟨owner, howner, rfl⟩)

/-- A response takes the place of the one with its identifier. -/
theorem scheduleDelay_replace (himpl : Implements state spec queries delayed others)
    {owner : Nat × Query} (howner : owner ∈ queries) (now : Nat) {queryId : UInt16}
    (hmem : queryId ∈ delayed.map (·.response.id)) (datagram : Bytes) :
    ∃ next later, state.scheduleDelay now queryId datagram owner.1 = some next ∧
      next.faulted = state.faulted ∧
      Implements next { spec with
        pending := hold spec.pending ⟨queryId, now, datagram, owner.2.client⟩ }
        queries later others := by
  obtain ⟨before, old, after, addrs, bufs, rfl, hid, hfree, haddrs, hbufs⟩ :=
    himpl.freeSame_of_mem hmem
  have hread := read_owner howner haddrs
  unfold DnsState.scheduleDelay
  rw [hfree, Option.bind_some]
  dsimp only
  rw [hread, Option.bind_some]
  have hnodup := himpl.pendingIds
  rw [himpl.pending_eq, List.map_append, List.map_cons] at hnodup
  have hplace : before.length < state.delayCursor.len := by
    rw [himpl.length_delayed, List.length_append, List.length_cons]
    omega
  let new : Held := ⟨bufs.next, addrs.next, ⟨queryId, now, datagram, owner.2.client⟩⟩
  have hwrite : state.delayPlaces.map (Function.update state.delayQueue
      ((state.delayQueueFirst + before.length) % delayQueueLen) new.entry) =
      (before ++ new :: after).map Held.entry := by
    rw [map_delayPlaces]
    refine (Cursor.contents_write himpl.delayCursor_valid.len_le hplace new.entry).trans ?_
    rw [← map_delayPlaces, himpl.delayEntries, List.map_append, List.map_cons, List.map_append,
      List.map_cons, List.set_append_right _ _ (by rw [List.length_map]), List.length_map,
      Nat.sub_self, List.set_cons_zero]
  refine ⟨_, before ++ new :: after, rfl, rfl, { himpl with
    pending_eq := ?_
    delayEntries := hwrite
    pendingIds := nodup_hold himpl.pendingIds
    addrs_perm := (Heap.malloc_perm haddrs).trans (addrBlocks_delayed before after new).symm
    bufs_perm := (Heap.malloc_perm hbufs).trans (bufBlocks_delayed before after new).symm }⟩
  rw [himpl.pending_eq, List.map_append, List.map_cons, hold_split hnodup hid, List.map_append,
    List.map_cons]

/-- The cursor of the second ring, behind a response more. -/
theorem delayCursor_push (himpl : Implements state spec queries delayed others)
    (hroom : (state.delayQueueLast + 1) % delayQueueLen ≠ state.delayQueueFirst) :
    (⟨state.delayQueueFirst, (state.delayQueueLast + 1) % delayQueueLen,
      ((state.delayQueueLast + 1) % delayQueueLen + delayQueueLen - state.delayQueueFirst) %
        delayQueueLen⟩ : Cursor) = state.delayCursor.push delayQueueLen ∧
      state.delayCursor.len + 1 < delayQueueLen := by
  have hfirst := himpl.first_lt
  have hlast := himpl.last_lt
  unfold DnsState.delayCursor Cursor.push
  unfold delayQueueLen at *
  simp only [Cursor.mk.injEq, true_and]
  omega

theorem delayCursor_turn (himpl : Implements state spec queries delayed others)
    (hfull : (state.delayQueueLast + 1) % delayQueueLen = state.delayQueueFirst) :
    (⟨(state.delayQueueFirst + 1) % delayQueueLen, (state.delayQueueLast + 1) % delayQueueLen,
      ((state.delayQueueLast + 1) % delayQueueLen + delayQueueLen -
        (state.delayQueueFirst + 1) % delayQueueLen) % delayQueueLen⟩ : Cursor) =
        (state.delayCursor.push delayQueueLen).pop delayQueueLen ∧
      state.delayCursor.len + 1 = delayQueueLen := by
  have hfirst := himpl.first_lt
  have hlast := himpl.last_lt
  unfold DnsState.delayCursor Cursor.push Cursor.pop
  unfold delayQueueLen at *
  simp only [Cursor.mk.injEq, true_and]
  omega

/-- The second ring with a response more. -/
theorem delayEntries_push (himpl : Implements state spec queries delayed others) (held : Held) :
    (state.delayCursor.push delayQueueLen).contents delayQueueLen
        (Function.update state.delayQueue state.delayQueueLast held.entry) =
      (delayed ++ [held]).map Held.entry := by
  have hlen : state.delayCursor.len < delayQueueLen := Nat.mod_lt _ (by decide)
  rw [List.map_append, List.map_singleton, ← himpl.delayEntries, map_delayPlaces]
  exact Cursor.contents_push himpl.delayCursor_valid hlen held.entry

/-- A response waits behind the others; the oldest one gives way if there is no room. -/
theorem scheduleDelay_append (himpl : Implements state spec queries delayed others)
    {owner : Nat × Query} (howner : owner ∈ queries) (now : Nat) {queryId : UInt16}
    (hnew : queryId ∉ delayed.map (·.response.id)) (datagram : Bytes) :
    ∃ next later, state.scheduleDelay now queryId datagram owner.1 = some next ∧
      next.faulted = state.faulted ∧
      Implements next { spec with
        pending := hold spec.pending ⟨queryId, now, datagram, owner.2.client⟩ }
        queries later others := by
  have hread := read_owner howner himpl.addrs_perm
  have hfirst := himpl.first_lt
  have hlast := himpl.last_lt
  have hlen : state.delayCursor.len = _ := himpl.length_delayed
  let new : Held := ⟨state.bufs.next, state.addrs.next, ⟨queryId, now, datagram, owner.2.client⟩⟩
  have hpush := himpl.delayEntries_push new
  have haddrs : (state.addrs.malloc owner.2.client).live ~
      addrBlocks queries (delayed ++ [new]) others := by
    have hperm : addrBlocks queries (delayed ++ [new]) others ~ _ :=
      addrBlocks_delayed delayed [] new
    rw [List.append_nil] at hperm
    exact (Heap.malloc_perm himpl.addrs_perm).trans hperm.symm
  have hbufs : (state.bufs.malloc datagram).live ~ bufBlocks (delayed ++ [new]) := by
    have hperm := bufBlocks_delayed delayed [] new
    rw [List.append_nil] at hperm
    exact (Heap.malloc_perm himpl.bufs_perm).trans hperm.symm
  have hpending : hold spec.pending new.response =
      (remember (delayQueueLen - 1) delayed new).map Held.response := by
    rw [map_remember, ← himpl.pending_eq, hold_of_not_mem]
    rw [himpl.pending_eq, List.map_map]
    exact hnew
  unfold DnsState.scheduleDelay
  rw [himpl.freeSame_of_not_mem hnew, Option.bind_some]
  dsimp only
  rw [hread, Option.bind_some, if_neg (by simp), Option.getD_none]
  split
  next hfull =>
    obtain ⟨head, rest, hcons⟩ := List.exists_cons_of_ne_nil
      (show delayed ++ [new] ≠ [] by simp)
    have hhead : (state.delayCursor.push delayQueueLen).contents delayQueueLen
        (Function.update state.delayQueue state.delayQueueLast new.entry) = _ :=
      Cursor.contents_eq_cons himpl.first_lt (Nat.zero_lt_succ _)
    rw [hpush, hcons, List.map_cons] at hhead
    obtain ⟨hentry, hrest⟩ := List.cons.inj hhead
    obtain ⟨hcursor, hlength⟩ := himpl.delayCursor_turn hfull
    rw [hcons] at haddrs hbufs
    let full : DnsState := { state with
      bufs := state.bufs.malloc datagram
      addrs := state.addrs.malloc owner.2.client
      delayQueue := Function.update state.delayQueue state.delayQueueLast new.entry
      delayQueueLast := (state.delayQueueLast + 1) % delayQueueLen }
    obtain ⟨addrs, bufs, hfree, haddrs, hbufs⟩ :=
      freeDelay_eq [] rest (show full.delayQueue state.delayQueueFirst = _ from hentry.symm)
        haddrs hbufs
    refine ⟨_, rest, (congrArg (Option.map _) hfree).trans rfl, rfl, { himpl with
      pending_eq := ?_
      first_lt := Nat.mod_lt _ (by decide)
      last_lt := Nat.mod_lt _ (by decide)
      delayEntries := ?_
      pendingIds := nodup_hold himpl.pendingIds
      addrs_perm := haddrs
      bufs_perm := hbufs }⟩
    · have hcount : delayed.length = delayQueueLen - 1 := by omega
      rw [hpending, remember_of_full (by decide) hcount]
      cases delayed with
      | nil => cases hcount
      | cons oldest delayed =>
          obtain ⟨-, rfl⟩ := List.cons.inj hcons
          rfl
    · rw [map_delayPlaces]
      refine (congrArg (Cursor.contents _ _ ·) hcursor).trans ?_
      exact hrest.symm
  next hroom =>
    refine ⟨_, delayed ++ [new], rfl, rfl, { himpl with
      pending_eq := ?_
      last_lt := Nat.mod_lt _ (by decide)
      delayEntries := ?_
      pendingIds := nodup_hold himpl.pendingIds
      addrs_perm := haddrs
      bufs_perm := hbufs }⟩
    · obtain ⟨-, hlt⟩ := himpl.delayCursor_push hroom
      rw [hpending, remember_of_lt (by omega)]
    · rw [map_delayPlaces]
      exact (congrArg (Cursor.contents _ _ ·) (himpl.delayCursor_push hroom).1).trans hpush

/-- The places of the second ring, from the first one on. -/
theorem delayPlaces_cons (himpl : Implements state spec queries delayed others)
    (hne : delayed ≠ []) {popped : DnsState}
    (hfirst : popped.delayQueueFirst = (state.delayQueueFirst + 1) % delayQueueLen)
    (hlast : popped.delayQueueLast = state.delayQueueLast) :
    state.delayPlaces = state.delayQueueFirst :: popped.delayPlaces := by
  have hpos : 0 < state.delayCursor.len := by
    rw [himpl.length_delayed]
    exact List.length_pos_of_ne_nil hne
  have hpop : popped.delayCursor = state.delayCursor.pop delayQueueLen := by
    have hfirst_lt := himpl.first_lt
    have hlast_lt := himpl.last_lt
    unfold DnsState.delayCursor Cursor.pop at *
    rw [hfirst, hlast]
    unfold delayQueueLen at *
    simp only [Cursor.mk.injEq, true_and] at hpos ⊢
    omega
  have hplaces : state.delayCursor.contents delayQueueLen id = _ :=
    Cursor.contents_eq_cons himpl.delayCursor_valid.start_lt hpos
  rw [← map_delayPlaces, ← hpop, ← map_delayPlaces, List.map_id, List.map_id] at hplaces
  exact hplaces

/-- A check gives the responses in front whose time has passed, and no others. -/
theorem sendExpired (himpl : Implements state spec queries delayed others)
    (expired : Nat → Nat → Bool) (now : Nat) :
    ∃ next later, state.sendExpired expired now state.delayPlaces =
        some (next, (spec.pending.takeWhile (Pending.due expired now)).map fun response =>
          .answered response.client response.datagram) ∧
      next.faulted = state.faulted ∧
      Implements next { spec with pending := spec.pending.dropWhile (Pending.due expired now) }
        queries later others := by
  induction delayed generalizing state spec with
  | nil =>
      have hplaces : state.delayPlaces = [] := List.map_eq_nil_iff.mp himpl.delayEntries
      refine ⟨state, [], ?_, rfl, ?_⟩
      · rw [hplaces, himpl.pending_eq]
        rfl
      · rw [himpl.pending_eq]
        exact { himpl with pending_eq := rfl, pendingIds := List.nodup_nil }
  | cons held delayed ih =>
      have hentries := himpl.delayEntries
      have hpending := himpl.pending_eq
      rw [List.map_cons] at hpending
      let popped : DnsState := { state with
        delayQueueFirst := (state.delayQueueFirst + 1) % delayQueueLen }
      have hplaces : state.delayPlaces = state.delayQueueFirst :: popped.delayPlaces :=
        himpl.delayPlaces_cons (by simp) rfl rfl
      rw [hplaces, List.map_cons, List.map_cons] at hentries
      obtain ⟨hentry, hrest⟩ := List.cons.inj hentries
      rw [hplaces, DnsState.sendExpired, hentry]
      unfold Held.entry
      dsimp only [Option.bind_some]
      by_cases hdue : Pending.due expired now held.response = true
      · obtain ⟨addrs, bufs, hfree, haddrs, hbufs⟩ :=
          freeDelay_eq [] delayed hentry himpl.addrs_perm himpl.bufs_perm
        have hbuf : state.bufs.read held.buf = some held.response.datagram :=
          Heap.read_of_mem (himpl.bufs_perm.mem_iff.mpr List.mem_cons_self)
        have haddr : state.addrs.read held.addr = some held.response.client := by
          apply Heap.read_of_mem
          rw [himpl.addrs_perm.mem_iff]
          exact List.mem_append_right _ List.mem_cons_self
        have hnodup := himpl.pendingIds
        rw [hpending, List.map_cons, List.nodup_cons] at hnodup
        have hpopped : Implements { popped with addrs, bufs }
            { spec with pending := delayed.map Held.response } queries delayed others :=
          { himpl with
            pending_eq := rfl
            first_lt := Nat.mod_lt _ (by decide)
            delayEntries := hrest
            pendingIds := hnodup.2
            addrs_perm := haddrs
            bufs_perm := hbufs }
        obtain ⟨next, later, hsend, hfaulted, hnext⟩ := ih hpopped
        refine ⟨next, later, ?_, hfaulted, ?_⟩
        · rw [if_pos (show expired held.response.ts now = true from hdue), hbuf, Option.bind_some,
            haddr, Option.bind_some, hfree, Option.bind_some, hpending,
            List.takeWhile_cons_of_pos hdue]
          exact (congrArg (Option.map _) hsend).trans rfl
        · rw [hpending, List.dropWhile_cons_of_pos hdue]
          exact hnext
      · refine ⟨state, held :: delayed, ?_, rfl, ?_⟩
        · rw [if_neg (show ¬expired held.response.ts now = true from hdue), hpending,
            List.takeWhile_cons_of_neg hdue, List.map_nil]
        · rw [hpending, List.dropWhile_cons_of_neg hdue, ← List.map_cons, ← himpl.pending_eq]
          exact himpl

theorem scheduleDelay (himpl : Implements state spec queries delayed others)
    {owner : Nat × Query} (howner : owner ∈ queries) (now : Nat) (queryId : UInt16)
    (datagram : Bytes) :
    ∃ next later, state.scheduleDelay now queryId datagram owner.1 = some next ∧
      next.faulted = state.faulted ∧
      Implements next { spec with
        pending := hold spec.pending ⟨queryId, now, datagram, owner.2.client⟩ }
        queries later others := by
  by_cases hmem : queryId ∈ delayed.map (·.response.id)
  · exact himpl.scheduleDelay_replace howner now hmem datagram
  · exact himpl.scheduleDelay_append howner now hmem datagram

end Delay

end Implements

section Buffer

/-- What is sent on is what came, with another identifier. -/
theorem bytesIn_renamed {received : Bytes} (hlength : 2 ≤ received.length) (id : UInt16)
    (mem : Octets) : bytesIn (overwrite (put16 id) (overwrite received mem)) received.length =
      renamed id received := by
  apply List.ext_getElem?
  intro i
  unfold bytesIn renamed overwrite
  rw [List.getElem?_map, List.getElem?_append, List.getElem?_drop, length_put16]
  by_cases hi : i < received.length
  · rw [List.getElem?_range hi, Option.map_some, List.getElem?_eq_getElem hi]
    split
    next hlow =>
      rw [List.getElem?_eq_getElem (by rwa [length_put16]), Option.getD_some]
    next hhigh =>
      rw [List.getElem?_eq_none (by rw [length_put16]; omega), Option.getD_none, Option.getD_some,
        show 2 + (i - 2) = i by omega, List.getElem?_eq_getElem hi]
  · rw [List.getElem?_eq_none (by rw [List.length_range]; omega), Option.map_none,
      if_neg (by omega), List.getElem?_eq_none (by omega)]

theorem two_le_of_initparse {mem : Octets} {msglen : Nat} {msg : NsMsg}
    (hparse : NsMsg.initparse mem msglen = some msg) : 2 ≤ msglen := by
  unfold NsMsg.initparse at hparse
  split at hparse
  next => cases hparse
  next => omega

end Buffer

/-- A response is handled as the proxy should, unless it finds a cell without a client. -/
theorem Implements.handleResponse (himpl : Implements state spec queries delayed others)
    (config : DnsConfig) (dnExpand : DnExpand) (server : SockAddr) {received : Bytes}
    {mem : Octets} (hbuf : state.globalBuf = overwrite received mem)
    (hlength : 2 ≤ received.length) (now : Nat) (msg : NsMsg) :
    (state.handleResponse config dnExpand server received now msg = none ∧
      (msg.id = 0 ∧ spec.window.length < idAddrQueueLen) ∧
      ∀ verdict, spec.respond server msg.id received now verdict =
        ({ spec with faulted := true }, [.fault])) ∨
    ∃ verdict next later spec' events,
      state.handleResponse config dnExpand server received now msg = some (next, events) ∧
      ¬(msg.id = 0 ∧ spec.window.length < idAddrQueueLen) ∧ next.faulted = state.faulted ∧
      spec.respond server msg.id received now verdict =
        (spec', .received server msg.id received :: events) ∧
      Implements next spec' queries later others ∧ spec'.lost = spec.lost ∧
      spec'.faulted = spec.faulted := by
  unfold DnsState.handleResponse ProxySpec.respond
  cases hlookup : state.queueLookup msg.id with
  | none =>
      obtain ⟨hnew, hzero⟩ := himpl.of_queueLookup_none hlookup
      rw [queryOf_eq_none.mpr hnew]
      dsimp only
      rw [if_neg hzero]
      exact .inr ⟨.pass, _, _, _, _, rfl, hzero, rfl, rfl, himpl, rfl, rfl⟩
  | some i =>
      rcases himpl.of_queueLookup hlookup with
        ⟨hunused, hid, hroom, hquery⟩ | ⟨owner, howner, hentry, hquery⟩
      · rw [hquery]
        dsimp only
        rw [hunused, if_pos ⟨hid, hroom⟩]
        exact .inl ⟨rfl, ⟨hid, hroom⟩, fun _ => rfl⟩
      · right
        have hread := read_owner howner himpl.addrs_perm
        have hzero : ¬(msg.id = 0 ∧ spec.window.length < idAddrQueueLen) := by
          rintro ⟨hid, hroom⟩
          obtain ⟨hmem, howned⟩ := (queryOf_eq_some himpl.newIds).mp hquery
          exact himpl.zero_free hroom (List.mem_map.mpr ⟨owner.2, hmem, howned.trans hid⟩)
        rw [hquery]
        dsimp only
        rw [hentry]
        unfold Query.entry
        dsimp only [Option.bind_some]
        rw [hread, Option.bind_some, hbuf, bytesIn_renamed hlength]
        refine ⟨config.shouldFilterQuery dnExpand
          (overwrite (put16 owner.2.oldId) (overwrite received mem)) msg server.sinAddr, ?_⟩
        cases config.shouldFilterQuery dnExpand
            (overwrite (put16 owner.2.oldId) (overwrite received mem)) msg server.sinAddr with
        | pass => exact ⟨_, _, _, _, rfl, hzero, rfl, rfl, himpl.withBuf _, rfl, rfl⟩
        | delay =>
            obtain ⟨next, later, hschedule, hsame, hnext⟩ := (himpl.withBuf
              (overwrite (put16 owner.2.oldId) (overwrite received mem))).scheduleDelay howner now
                msg.id (renamed owner.2.oldId received)
            exact ⟨_, _, _, _, (congrArg (Option.map _) hschedule).trans rfl, hzero, hsame, rfl,
              hnext, rfl, rfl⟩
        | filter => exact ⟨_, _, _, _, rfl, hzero, rfl, rfl, himpl.withBuf _, rfl, rfl⟩

/-- The rings and blocks are those of the proxy, until a fault. -/
def Related (state : DnsState) (spec : ProxySpec) : Prop :=
  spec.faulted = state.faulted ∧ (state.faulted = false →
    ∃ queries delayed others, Implements state spec queries delayed others ∧
      spec.lost = others.length)

section Step

variable (expired : Nat → Nat → Bool) (hfaulted : spec.faulted = state.faulted)
  (hsound : state.faulted = false) (himpl : Implements state spec queries delayed others)
  (hlost : spec.lost = others.length)

include hfaulted hsound himpl hlost

theorem dnsHandleLocal_related (config : DnsConfig) (dnExpand : DnExpand) (client : SockAddr)
    (datagram : Bytes) {newId : UInt16} (hlookup : state.queueLookup newId = none) :
    ∃ next events move spec', state.dnsHandleLocal config dnExpand client datagram newId =
        some (next, events) ∧ next.faulted = false ∧
      (ProxySpec.machine expired).step spec move = some (spec', events) ∧ Related next spec' := by
  have hrunning : spec.faulted = false := hfaulted.trans hsound
  obtain ⟨hnew, hzero⟩ := himpl.of_queueLookup_none hlookup
  have hmalloc := himpl.malloc client
  unfold DnsState.dnsHandleLocal
  simp only [ProxySpec.step_of_running hrunning]
  split
  next =>
    exact ⟨_, _, .noDatagram, _, rfl, hsound, rfl, hfaulted, fun _ =>
      ⟨_, _, _, hmalloc.withLost, congrArg (· + 1) hlost⟩⟩
  next =>
    split
    next =>
      obtain ⟨addrs, hfree, hnext⟩ := hmalloc.free
      rw [hfree]
      exact ⟨_, _, .refuse, _, rfl, hsound, rfl, hfaulted, fun _ =>
        ⟨_, _, _, hnext.withBuf _, hlost⟩⟩
    next msg hparse =>
      let query : Query := ⟨client, msg.id, newId⟩
      obtain ⟨hostnames, hostnameBuf, hostnameBuflen, hname, hnamed⟩ :=
        (hmalloc.withBuf (overwrite (datagram.take bufSize) state.globalBuf)).hostnameFromQuestion
          dnExpand msg
      rw [hname, Option.bind_some]
      have hasked : Implements _ spec queries delayed
          ((state.addrs.next, query.client) :: others) := hnamed.withBuf
            (overwrite (put16 newId) (overwrite (datagram.take bufSize) state.globalBuf))
      obtain ⟨next, hadd, hsame, hnext⟩ := hasked.queueAdd hnew hzero
      refine ⟨next, _, .ask query _, _, (congrArg (Option.map _) hadd).trans rfl,
        hsame.trans hsound, if_neg (not_or.mpr ⟨hnew, hzero⟩), hfaulted.trans hsame.symm,
        fun _ => ⟨_, _, _, hnext, hlost⟩⟩

theorem dnsHandleRemote_related (config : DnsConfig) (dnExpand : DnExpand) (server : SockAddr)
    (datagram : Bytes) (now : Nat) :
    ∃ next events move spec', (state.dnsHandleRemote config dnExpand server datagram now).getD
        ({ state with faulted := true }, [.fault]) = (next, events) ∧
      (next.faulted = true ↔ ∃ msg, NsMsg.initparse
          (overwrite (datagram.take bufSize) state.globalBuf) (datagram.take bufSize).length =
            some msg ∧ msg.id = 0 ∧ spec.window.length < idAddrQueueLen) ∧
      (ProxySpec.machine expired).step spec move = some (spec', events) ∧ Related next spec' := by
  have hrunning : spec.faulted = false := hfaulted.trans hsound
  have hmalloc := himpl.malloc server
  unfold DnsState.dnsHandleRemote
  simp only [ProxySpec.step_of_running hrunning]
  split
  next hnothing =>
    refine ⟨_, _, .noDatagram, _, rfl, ?_, rfl, hfaulted, fun _ =>
      ⟨_, _, _, hmalloc.withLost, congrArg (· + 1) hlost⟩⟩
    rw [hnothing]
    refine iff_of_false (by simp [hsound]) ?_
    rintro ⟨msg, hparse, -⟩
    exact absurd (two_le_of_initparse hparse) (by decide)
  next =>
    cases hparse : NsMsg.initparse (overwrite (datagram.take bufSize) state.globalBuf)
        (datagram.take bufSize).length with
    | none =>
        obtain ⟨addrs, hfree, hnext⟩ := hmalloc.free
        dsimp only
        rw [hfree]
        exact ⟨_, _, .refuse, _, rfl, iff_of_false (by simp [hsound]) (by simp), rfl, hfaulted,
          fun _ => ⟨_, _, _, hnext.withBuf _, hlost⟩⟩
    | some msg =>
        dsimp only
        let started : DnsState := { state with
          addrs := state.addrs.malloc server
          globalBuf := overwrite (datagram.take bufSize) state.globalBuf }
        have hstarted : Implements started spec queries delayed
            ((state.addrs.next, server) :: others) := hmalloc.withBuf _
        obtain ⟨hostnames, hostnameBuf, hostnameBuflen, hname, hnamed⟩ :=
          hstarted.hostnameFromQuestion dnExpand msg
        rw [hname, Option.bind_some]
        rcases hnamed.handleResponse config dnExpand server rfl
          (two_le_of_initparse hparse) now msg with
          ⟨hfault, hzero, hrespond⟩ | ⟨verdict, next, later, spec', events, hhandle, hzero, hsame,
            hrespond, hnext, hlost', hfaulted'⟩
        · rw [hfault]
          exact ⟨_, _, .respond server msg.id (datagram.take bufSize) now .pass, _, rfl,
            iff_of_true rfl ⟨msg, rfl, hzero⟩, congrArg some (hrespond .pass), rfl,
            fun hcontra => nomatch hcontra⟩
        · obtain ⟨addrs, hfree, hfreed⟩ := hnext.free
          rw [hhandle, Option.bind_some]
          dsimp only
          rw [hfree]
          refine ⟨_, _, .respond server msg.id (datagram.take bufSize) now verdict, _, rfl, ?_,
            congrArg some hrespond, (hfaulted'.trans hfaulted).trans hsame.symm,
            fun _ => ⟨_, _, _, hfreed, hlost'.trans hlost⟩⟩
          refine iff_of_false (by simp [hsame, started, hsound]) ?_
          rintro ⟨other, hother, hid⟩
          obtain rfl := Option.some.inj hother
          exact hzero hid

theorem checkAndSendDelay_related (now : Nat) :
    ∃ next events move spec', state.checkAndSendDelay expired now = some (next, events) ∧
      next.faulted = false ∧
      (ProxySpec.machine expired).step spec move = some (spec', events) ∧ Related next spec' := by
  obtain ⟨next, later, hsend, hsame, hnext⟩ := himpl.sendExpired expired now
  exact ⟨next, _, .check now, _, hsend, hsame.trans hsound,
    ProxySpec.step_of_running (hfaulted.trans hsound) _, hfaulted.trans hsame.symm,
    fun _ => ⟨_, _, _, hnext, hlost⟩⟩

end Step

end Sharpvpn
