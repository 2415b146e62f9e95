import Mathlib.Data.List.Range
import Mathlib.Logic.Function.Basic
import Sharpvpn.Foundation.Machine
import Sharpvpn.Vpn.Inet

/-!
# The user and address tables of the server

Each connected socket has a thread that runs `func_socket`: it removes the users whose
sockets are dead, waits for a token, and gives the token an address. The threads work on
`user_map` and `ip_map` without a lock.
-/

namespace Sharpvpn

open Foundation

/-- `func_socket`, by what the thread does next. -/
inductive FuncSocket (Token : Type)
  /-- Before the cleanup loop. -/
  | connected
  /-- At the head of the cleanup loop, with the entry the iterator stands on. -/
  | cleaning (itr : Option Token)
  /-- `is_alive` of the socket of the entry is next. -/
  | checking (token : Token) (ip : UInt32)
  /-- The socket is dead, and its `delete` is next. -/
  | deleting (token : Token) (ip : UInt32)
  /-- `ip_map.erase` is next. -/
  | erasing (token : Token) (ip : UInt32)
  /-- `user_map.erase` is next. -/
  | dropping (token : Token)
  /-- `itr++` is next. -/
  | passing (token : Token)
  /-- The iterator stands on an entry that another thread has erased. -/
  | stale
  /-- In `recv_package`, waiting for the token. -/
  | receiving
  /-- `user_map.find` is next. -/
  | finding (token : Token)
  /-- `get_useable_ip` is next. -/
  | proposing (token : Token)
  /-- The insertion into `user_map` is next. -/
  | assigning (token : Token) (ip : UInt32)
  /-- The insertion into `ip_map` is next. -/
  | binding (token : Token) (ip : UInt32)
  /-- The address of a known token is read next. -/
  | recalling (token : Token)
  /-- `close_addr` of the token's old socket is next. -/
  | closing (token : Token) (ip : UInt32)
  /-- Its `delete` is next. -/
  | disposing (token : Token) (ip : UInt32)
  /-- The replacement of the old socket is next. -/
  | replacing (token : Token) (ip : UInt32)
  | served

namespace FuncSocket

variable {Token : Type}

/-- The token a thread is part-way through its work on. -/
def held : FuncSocket Token → Option Token
  | .connected | .cleaning _ | .passing _ | .stale | .receiving | .finding _ | .served => none
  | .checking token _ | .deleting token _ | .erasing token _ | .dropping token | .proposing token
  | .assigning token _ | .binding token _ | .recalling token | .closing token _
  | .disposing token _ | .replacing token _ => some token

/-- The entry that the iterator of a thread stands on. -/
def itr : FuncSocket Token → Option Token
  | .cleaning itr => itr
  | .checking token _ | .deleting token _ | .erasing token _ | .dropping token
  | .passing token => some token
  | .connected | .stale | .receiving | .finding _ | .proposing _ | .assigning .. | .binding ..
  | .recalling _ | .closing .. | .disposing .. | .replacing .. | .served => none

/-- The address a thread has looked up for a new token and not put into `ip_map` yet. -/
def chosen : FuncSocket Token → Option UInt32
  | .assigning _ ip | .binding _ ip => some ip
  | _ => none

/-- The token whose address a thread has taken out of `ip_map`, or not yet put there. -/
def unsettled : FuncSocket Token → Option Token
  | .dropping token | .binding token _ => some token
  | _ => none

theorem held_of_unsettled {thread : FuncSocket Token} {token : Token}
    (hunsettled : thread.unsettled = some token) : thread.held = some token := by
  cases thread with
  | dropping | binding => exact hunsettled
  | _ => cases hunsettled

end FuncSocket

/-- Sockets are numbered as they are accepted. A null pointer in `ip_map` is `some none`. -/
structure UserTable (Token : Type) where
  userMap : Token → Option UInt32 := fun _ => none
  ipMap : UInt32 → Option (Option Nat) := fun _ => none
  /-- `is_alive` -/
  alive : Nat → Bool := fun _ => true
  threads : Nat → FuncSocket Token := fun _ => .connected
  accepted : Nat := 0
  running : Bool := true

inductive TableAction (Token : Type)
  /-- The accept thread starts `func_socket` for a new socket. -/
  | accept
  | die (socket : Nat)
  /-- `begin`, `itr++` or `user_map.erase` puts the iterator of a thread on an entry, or at the
  end. -/
  | seek (socket : Nat) (itr : Option Token)
  /-- `recv_package` returns, and this is the token. -/
  | token (socket : Nat) (token : Token)
  /-- Any other step of a thread. -/
  | run (socket : Nat)

inductive TableEvent (Token : Type)
  /-- The handshake of a socket has given it to a token. -/
  | bound (token : Token) (socket : Nat)
  /-- A null pointer of `ip_map` is dereferenced. -/
  | nullDereferenced
  /-- An iterator is used whose entry has been erased. -/
  | staleIterator
  deriving DecidableEq, Repr

/-- The address `get_useable_ip` looks at in its `i`th turn. -/
def proposedIp (localTunnelIp : UInt32) (i : Nat) : UInt32 := htonl (localTunnelIp + UInt32.ofNat i)

/-- `get_useable_ip`; 0 if every address it looks at is in use. -/
def getUseableIp (localTunnelIp : UInt32) (ipMap : UInt32 → Option (Option Nat)) : UInt32 :=
  (((List.range' 1 199).find? fun i => (ipMap (proposedIp localTunnelIp i)).isNone).map
    (proposedIp localTunnelIp)).getD 0

namespace UserTable

variable {Token : Type} [DecidableEq Token]

/-- The thread of a socket goes on elsewhere. -/
def goto (socket : Nat) (thread : FuncSocket Token) (table : UserTable Token) : UserTable Token :=
  { table with threads := Function.update table.threads socket thread }

/-- The iterator of a thread is put on an entry, or at the end. Which entry comes next is left
open. -/
def place (socket : Nat) (itr : Option Token) (table : UserTable Token) :
    Option (UserTable Token × List (TableEvent Token)) :=
  if itr.all fun token => (table.userMap token).isSome then
    some (table.goto socket (.cleaning itr), [])
  else none

/-- `user_map.erase`, and what becomes of the iterators on the entry. -/
def erase (token : Token) (table : UserTable Token) : UserTable Token :=
  { table with
    userMap := Function.update table.userMap token none
    threads := fun socket =>
      if (table.threads socket).itr = some token then .stale else table.threads socket }

def seek (socket : Nat) (itr : Option Token) (table : UserTable Token) :
    Option (UserTable Token × List (TableEvent Token)) :=
  match table.threads socket with
  | .connected | .passing _ => table.place socket itr
  | .dropping token => (table.erase token).place socket itr
  | _ => none

/-- `ip_map[...]`, which inserts a null pointer where there is no entry. -/
def lookup (ip : UInt32) (table : UserTable Token) : UserTable Token :=
  { table with ipMap := Function.update table.ipMap ip (some ((table.ipMap ip).getD none)) }

/-- The next step of a thread on the tables. -/
def run (localTunnelIp : UInt32) (socket : Nat) (table : UserTable Token) :
    Option (UserTable Token × List (TableEvent Token)) :=
  match table.threads socket with
  | .cleaning (some token) =>
      (table.userMap token).map fun ip => (table.goto socket (.checking token ip), [])
  | .cleaning none => some (table.goto socket .receiving, [])
  | .checking token ip =>
      match table.ipMap ip with
      | some (some other) =>
          some (table.goto socket
            (if table.alive other then .passing token else .deleting token ip), [])
      | _ => some ({ table with running := false }, [.nullDereferenced])
  | .deleting token ip => some ((table.lookup ip).goto socket (.erasing token ip), [])
  | .erasing token ip =>
      some ({ table with ipMap := Function.update table.ipMap ip none }.goto socket
        (.dropping token), [])
  | .stale => some ({ table with running := false }, [.staleIterator])
  | .finding token =>
      some (table.goto socket
        (if (table.userMap token).isNone then .proposing token else .recalling token), [])
  | .proposing token =>
      some (table.goto socket (.assigning token (getUseableIp localTunnelIp table.ipMap)), [])
  | .assigning token ip =>
      some ({ table with userMap := Function.update table.userMap token (some ip) }.goto socket
        (.binding token ip), [])
  | .recalling token =>
      -- `operator[]` inserts an address 0 if the token has gone
      let ip := (table.userMap token).getD 0
      some ({ table with userMap := Function.update table.userMap token (some ip) }.goto socket
        (.closing token ip), [])
  | .closing token ip =>
      match table.ipMap ip with
      | some (some old) =>
          some ({ table with alive := Function.update table.alive old false }.goto socket
            (.disposing token ip), [])
      | _ => some ({ table with running := false }, [.nullDereferenced])
  | .disposing token ip => some ((table.lookup ip).goto socket (.replacing token ip), [])
  | .binding token ip | .replacing token ip =>
      some ({ table with ipMap := Function.update table.ipMap ip (some (some socket)) }.goto socket
        .served, [.bound token socket])
  | .connected | .dropping _ | .passing _ | .receiving | .served => none

def step (localTunnelIp : UInt32) (table : UserTable Token) (action : TableAction Token) :
    Option (UserTable Token × List (TableEvent Token)) :=
  if !table.running then none
  else
    match action with
    | .accept => some ({ table with accepted := table.accepted + 1 }, [])
    | .die socket => some ({ table with alive := Function.update table.alive socket false }, [])
    | .seek socket itr => if socket < table.accepted then table.seek socket itr else none
    | .token socket token =>
        match table.threads socket with
        | .receiving => some (table.goto socket (.finding token), [])
        | _ => none
    | .run socket => if socket < table.accepted then table.run localTunnelIp socket else none

end UserTable

/-- The threads of the server on its tables. -/
def tableMachine (Token : Type) [DecidableEq Token] (localTunnelIp : UInt32) :
    Machine (UserTable Token) (TableAction Token) (TableEvent Token) where
  step := UserTable.step localTunnelIp

/-- One of the addresses `get_useable_ip` looks at is not in use, and the first of these is
not 0. -/
def FreeAddress (localTunnelIp : UInt32) (ipMap : UInt32 → Option (Option Nat)) : Prop :=
  ∃ i < 200, 1 ≤ i ∧ ipMap (proposedIp localTunnelIp i) = none ∧ proposedIp localTunnelIp i ≠ 0 ∧
    ∀ j < i, 1 ≤ j → ipMap (proposedIp localTunnelIp j) ≠ none

instance (localTunnelIp : UInt32) (ipMap : UInt32 → Option (Option Nat)) :
    Decidable (FreeAddress localTunnelIp ipMap) :=
  Nat.decidableExistsLT 200

theorem FreeAddress.getUseableIp {localTunnelIp : UInt32} {ipMap : UInt32 → Option (Option Nat)}
    (hfree : FreeAddress localTunnelIp ipMap) :
    ipMap (getUseableIp localTunnelIp ipMap) = none ∧ getUseableIp localTunnelIp ipMap ≠ 0 := by
  obtain ⟨i, hlt, hle, hnone, hne, hused⟩ := hfree
  have hfind : (List.range' 1 199).find? (fun i =>
      (ipMap (proposedIp localTunnelIp i)).isNone) = some i := by
    rw [List.find?_range'_eq_some]
    refine ⟨by simp [hnone], List.mem_range'_1.mpr ⟨hle, hlt⟩, fun j hlow hhigh => ?_⟩
    simpa [Option.isSome_iff_ne_none] using hused j hhigh hlow
  simp only [Sharpvpn.getUseableIp, hfind, Option.map_some, Option.getD_some]
  exact ⟨hnone, hne⟩

/-- The socket of a token's latest handshake. -/
def latestSocket {Token : Type} [DecidableEq Token] (trace : List (TableEvent Token))
    (token : Token) : Option Nat :=
  (trace.filterMap fun event =>
    match event with
    | .bound bound socket => if bound = token then some socket else none
    | .nullDereferenced | .staleIterator => none).getLast?

@[simp] theorem latestSocket_bound {Token : Type} [DecidableEq Token]
    (trace : List (TableEvent Token)) (bound token : Token) (socket : Nat) :
    latestSocket (trace ++ [.bound bound socket]) token =
      if bound = token then some socket else latestSocket trace token := by
  unfold latestSocket
  rw [List.filterMap_append]
  split
  next hsame => simp [hsame]
  next hsame => simp [hsame]

namespace UserTable

variable {Token : Type} [DecidableEq Token]

/-- Tokens have addresses of their own, none of them 0, and an address is bound to the
socket of its token's latest handshake. `entry` are the tokens with their addresses. -/
structure Consistent (entry : Token → UInt32 → Prop) (ipMap : UInt32 → Option (Option Nat))
    (trace : List (TableEvent Token)) : Prop where
  distinct : ∀ first second ip, entry first ip → entry second ip → first = second
  nonzero : ∀ token ip, entry token ip → ip ≠ 0
  bound : ∀ token ip, entry token ip →
    ∃ socket, ipMap ip = some (some socket) ∧ latestSocket trace token = some socket

/-- No handshake is part-way through its work on a token. -/
def Quiet (table : UserTable Token) : Prop :=
  ∀ socket < table.accepted, (table.threads socket).held = none

instance (table : UserTable Token) : Decidable table.Quiet :=
  inferInstanceAs (Decidable (∀ socket < _, _))

/-- No other thread is part-way through the token a thread begins to work on, no other one's
iterator stands on an entry that is erased, and a thread that looks for an address finds one,
while no other one has yet to bind its own. -/
def Undisturbed (localTunnelIp : UInt32) (table : UserTable Token) : TableAction Token → Prop
  | .seek socket _ =>
      match table.threads socket with
      | .dropping token =>
          ∀ other < table.accepted, other ≠ socket → (table.threads other).itr ≠ some token
      | _ => True
  | .run socket =>
      match table.threads socket with
      | .cleaning (some token) | .finding token =>
          ∀ other < table.accepted, (table.threads other).held ≠ some token
      | .proposing _ =>
          FreeAddress localTunnelIp table.ipMap ∧
            ∀ other < table.accepted, (table.threads other).chosen = none
      | _ => True
  | .accept | .die _ | .token .. => True

instance (localTunnelIp : UInt32) (table : UserTable Token) (action : TableAction Token) :
    Decidable (table.Undisturbed localTunnelIp action) := by
  unfold Undisturbed
  split
  · split <;> infer_instance
  · split <;> infer_instance
  all_goals infer_instance

/-- What a thread relies on before its next step. -/
def Described (userMap : Token → Option UInt32) (ipMap : UInt32 → Option (Option Nat)) :
    FuncSocket Token → Prop
  | .checking token ip | .deleting token ip | .erasing token ip | .closing token ip
  | .disposing token ip | .replacing token ip => userMap token = some ip
  | .cleaning (some token) | .passing token | .dropping token | .recalling token =>
      (userMap token).isSome
  | .proposing token => userMap token = none
  | .assigning token ip => userMap token = none ∧ ipMap ip = none ∧ ip ≠ 0
  | .binding token ip => userMap token = some ip ∧ ipMap ip = none ∧ ip ≠ 0
  | .stale => False
  | .connected | .cleaning none | .receiving | .finding _ | .served => True

/-- The entries of `user_map` whose address no thread is about to bind or has unbound. -/
def Settled (table : UserTable Token) (token : Token) (ip : UInt32) : Prop :=
  table.userMap token = some ip ∧ ∀ socket, (table.threads socket).unsettled ≠ some token

variable {localTunnelIp : UInt32} {table next : UserTable Token} {action : TableAction Token}
  {trace events : List (TableEvent Token)} {entry : Token → UInt32 → Prop}
  {ipMap : UInt32 → Option (Option Nat)} {token : Token} {ip : UInt32} {socket : Nat}

/-- Entries can be left out of consistent tables. -/
theorem Consistent.mono {fewer : Token → UInt32 → Prop}
    (hconsistent : Consistent entry ipMap trace)
    (hfewer : ∀ token ip, fewer token ip → entry token ip) : Consistent fewer ipMap trace where
  distinct first second ip hfirst hsecond :=
    hconsistent.distinct first second ip (hfewer _ _ hfirst) (hfewer _ _ hsecond)
  nonzero token ip hentry := hconsistent.nonzero token ip (hfewer _ _ hentry)
  bound token ip hentry := hconsistent.bound token ip (hfewer _ _ hentry)

/-- The address of no token can be taken out of `ip_map`. -/
theorem Consistent.unbind (hconsistent : Consistent entry ipMap trace)
    (hfree : ∀ token, ¬ entry token ip) :
    Consistent entry (Function.update ipMap ip none) trace := by
  refine ⟨hconsistent.distinct, hconsistent.nonzero, fun token other hother => ?_⟩
  have hne : other ≠ ip := fun hsame => hfree token (hsame ▸ hother)
  rw [Function.update_of_ne hne]
  exact hconsistent.bound token other hother

/-- The address of a token is bound to the socket of its handshake. -/
theorem Consistent.bind {more : Token → UInt32 → Prop}
    (hconsistent : Consistent entry ipMap trace)
    (hmore : ∀ other ip', more other ip' → other ≠ token → entry other ip')
    (htoken : ∀ ip', more token ip' → ip' = ip) (hne : ip ≠ 0)
    (hown : ∀ other, other ≠ token → ¬ entry other ip) :
    Consistent more (Function.update ipMap ip (some (some socket)))
      (trace ++ [.bound token socket]) := by
  refine ⟨fun first second ip' hfirst hsecond => ?_, fun other ip' hip => ?_,
    fun other ip' hip => ?_⟩
  · by_cases hfirst' : first = token
    · by_cases hsecond' : second = token
      · rw [hfirst', hsecond']
      · -- the address of the token is no other one's
        have hip : ip' = ip := htoken ip' (hfirst' ▸ hfirst)
        exact absurd (hip ▸ hmore second ip' hsecond hsecond') (hown second hsecond')
    · by_cases hsecond' : second = token
      · have hip : ip' = ip := htoken ip' (hsecond' ▸ hsecond)
        exact absurd (hip ▸ hmore first ip' hfirst hfirst') (hown first hfirst')
      · exact hconsistent.distinct first second ip' (hmore _ _ hfirst hfirst')
          (hmore _ _ hsecond hsecond')
  · by_cases hsame : other = token
    · rwa [htoken ip' (hsame ▸ hip)]
    · exact hconsistent.nonzero other ip' (hmore _ _ hip hsame)
  · rw [latestSocket_bound]
    by_cases hsame : other = token
    · rw [htoken ip' (hsame ▸ hip), Function.update_self, if_pos hsame.symm]
      exact ⟨socket, rfl, rfl⟩
    · have hentry := hmore other ip' hip hsame
      have hdifferent : ip' ≠ ip := fun heq => hown other hsame (heq ▸ hentry)
      rw [Function.update_of_ne hdifferent, if_neg (Ne.symm hsame)]
      exact hconsistent.bound other ip' hentry

omit [DecidableEq Token] in
/-- A thread still finds what it relies on where the entries of its token are untouched, that of
its iterator is still there and its address is still free. -/
theorem Described.frame {userMap userMap' : Token → Option UInt32}
    {ipMap' : UInt32 → Option (Option Nat)} {thread : FuncSocket Token}
    (hdescribed : Described userMap ipMap thread)
    (hentries : ∀ token, thread.held = some token → userMap' token = userMap token)
    (hkept : ∀ token, thread.itr = some token → (userMap token).isSome → (userMap' token).isSome)
    (hfree : ∀ ip, thread.chosen = some ip → ipMap ip = none → ipMap' ip = none) :
    Described userMap' ipMap' thread := by
  cases thread with
  | checking token ip | deleting token ip | erasing token ip | closing token ip
  | disposing token ip | replacing token ip | proposing token =>
      exact (hentries token rfl).trans hdescribed
  | cleaning itr =>
      cases itr with
      | none => trivial
      | some token => exact hkept token rfl hdescribed
  | passing token => exact hkept token rfl hdescribed
  | dropping token | recalling token =>
      show (userMap' token).isSome
      rw [hentries token rfl]
      exact hdescribed
  | stale => exact hdescribed
  | assigning token ip | binding token ip =>
      exact ⟨(hentries token rfl).trans hdescribed.1, hfree ip rfl hdescribed.2.1, hdescribed.2.2⟩
  | connected | receiving | finding | served => trivial

omit [DecidableEq Token] in
theorem described_cleaning {userMap : Token → Option UInt32} {itr : Option Token}
    (hvalid : itr.all fun token => (userMap token).isSome) :
    Described userMap ipMap (.cleaning itr) := by
  cases itr with
  | none => trivial
  | some token => exact hvalid

/-- At most one thread works on a token and at most one has an address to bind, every thread
finds what it relies on, and the entries no thread is about to change are consistent. -/
structure Tabled (table : UserTable Token) (trace : List (TableEvent Token)) : Prop where
  fresh : ∀ socket, table.accepted ≤ socket → table.threads socket = .connected
  exclusive : ∀ first second token, (table.threads first).held = some token →
    (table.threads second).held = some token → first = second
  single : ∀ first second, (table.threads first).chosen ≠ none →
    (table.threads second).chosen ≠ none → first = second
  described : ∀ socket, Described table.userMap table.ipMap (table.threads socket)
  consistent : Consistent table.Settled table.ipMap trace
  safe : ∀ event ∈ trace, ∃ token socket, event = .bound token socket

/-- The entry of a token a thread holds is settled unless by that thread itself. -/
theorem Tabled.settled {thread : FuncSocket Token} (htabled : table.Tabled trace)
    (hthread : table.threads socket = thread) (hheld : thread.held = some token)
    (hunsettled : thread.unsettled = none) (htoken : table.userMap token = some ip) :
    table.Settled token ip := by
  subst hthread
  refine ⟨htoken, fun other hother => ?_⟩
  obtain rfl := htabled.exclusive other socket token (FuncSocket.held_of_unsettled hother) hheld
  rw [hunsettled] at hother
  cases hother

/-- A token that no accepted socket's thread holds is held by none. -/
theorem Tabled.unheld (htabled : table.Tabled trace)
    (hfree : ∀ other < table.accepted, (table.threads other).held ≠ some token) :
    ∀ other, (table.threads other).held ≠ some token := by
  intro other hother
  rcases Nat.lt_or_ge other table.accepted with hlt | hge
  · exact hfree other hlt hother
  · rw [htabled.fresh other hge] at hother
    cases hother

/-- What a step of the thread of a socket has done. -/
structure Progress (table next : UserTable Token) (socket : Nat) (thread : FuncSocket Token)
    (trace events : List (TableEvent Token)) : Prop where
  accepted : next.accepted = table.accepted
  threads : next.threads = Function.update table.threads socket thread
  held : ∀ token, thread.held = some token → (table.threads socket).held = some token ∨
    ∀ other, (table.threads other).held ≠ some token
  chosen : thread.chosen ≠ none → (table.threads socket).chosen ≠ none ∨
    ∀ other, (table.threads other).chosen = none
  entries : ∀ token, (table.threads socket).held ≠ some token →
    next.userMap token = table.userMap token
  kept : ∀ other token, other ≠ socket → (table.threads other).itr = some token →
    (table.userMap token).isSome → (next.userMap token).isSome
  addresses : ∀ other ip, other ≠ socket → (table.threads other).chosen = some ip →
    table.ipMap ip = none → next.ipMap ip = none
  described : Described next.userMap next.ipMap thread
  consistent : Consistent next.Settled next.ipMap (trace ++ events)
  safe : ∀ event ∈ events, ∃ token socket, event = .bound token socket

omit [DecidableEq Token] in
/-- An entry is settled before a step of another thread if it is after it. -/
theorem Settled.before {thread : FuncSocket Token} (hsettled : next.Settled token ip)
    (hthreads : next.threads = Function.update table.threads socket thread)
    (htoken : next.userMap token = table.userMap token)
    (hunsettled : (table.threads socket).unsettled ≠ some token) : table.Settled token ip := by
  refine ⟨htoken ▸ hsettled.1, fun other => ?_⟩
  by_cases hsame : other = socket
  · rwa [hsame]
  · have hother := hsettled.2 other
    rwa [hthreads, Function.update_of_ne hsame] at hother

/-- At most one has a property after a step of one of them, if at most one had it before
and the one that moved does not take it from another. -/
theorem unique_of_step {before after : Nat → Prop}
    (hunique : ∀ first second, before first → before second → first = second)
    (hothers : ∀ other, other ≠ socket → after other → before other)
    (hself : after socket → before socket ∨ ∀ other, ¬ before other) :
    ∀ first second, after first → after second → first = second := by
  have hmoved : ∀ other, after socket → after other → other = socket := by
    intro other hsocket hother
    by_contra hne
    rcases hself hsocket with hbefore | hnone
    · exact hne (hunique other socket (hothers other hne hother) hbefore)
    · exact hnone other (hothers other hne hother)
  intro first second hfirst hsecond
  by_cases hfirst' : first = socket
  · subst hfirst'
    exact (hmoved second hfirst hsecond).symm
  · by_cases hsecond' : second = socket
    · subst hsecond'
      exact hmoved first hsecond hfirst
    · exact hunique first second (hothers first hfirst' hfirst) (hothers second hsecond' hsecond)

theorem Tabled.progress {thread : FuncSocket Token} (htabled : table.Tabled trace)
    (hsocket : socket < table.accepted)
    (hprogress : table.Progress next socket thread trace events) :
    next.Tabled (trace ++ events) := by
  have hself : next.threads socket = thread := by
    rw [hprogress.threads, Function.update_self]
  have hothers : ∀ other, other ≠ socket → next.threads other = table.threads other := by
    intro other hne
    rw [hprogress.threads, Function.update_of_ne hne]
  have hexclusive : ∀ token first second, (next.threads first).held = some token →
      (next.threads second).held = some token → first = second := by
    intro token
    apply unique_of_step fun first second => htabled.exclusive first second token
    · intro other hne hother
      rwa [← hothers other hne]
    · rw [hself]
      exact hprogress.held token
  refine ⟨fun other hle => ?_, fun first second token => hexclusive token first second, ?_,
    fun other => ?_, hprogress.consistent, ?_⟩
  · rw [hprogress.accepted] at hle
    rw [hothers other (by omega)]
    exact htabled.fresh other hle
  -- An address is chosen only while no other thread has one to bind.
  · apply unique_of_step htabled.single
    · intro other hne hother
      rwa [← hothers other hne]
    · rw [hself]
      intro hchosen
      exact (hprogress.chosen hchosen).imp_right fun hnone other => not_not_intro (hnone other)
  · by_cases hsame : other = socket
    · rw [hsame, hself]
      exact hprogress.described
    · rw [hothers other hsame]
      refine (htabled.described other).frame (fun token hheld => ?_)
        (fun token hitr => hprogress.kept other token hsame hitr)
        fun ip hchosen => hprogress.addresses other ip hsame hchosen
      exact hprogress.entries token fun hsocket =>
        hsame (htabled.exclusive other socket token hheld hsocket)
  · rw [List.forall_mem_append]
    exact ⟨htabled.safe, hprogress.safe⟩

/-- A step that leaves both tables alone. -/
theorem Progress.of_same {before thread : FuncSocket Token} (htabled : table.Tabled trace)
    (hthread : table.threads socket = before) (hunsettled : before.unsettled = none)
    (haccepted : next.accepted = table.accepted)
    (hthreads : next.threads = Function.update table.threads socket thread)
    (huserMap : next.userMap = table.userMap) (hipMap : next.ipMap = table.ipMap)
    (hheld : ∀ token, thread.held = some token → before.held = some token ∨
      ∀ other, (table.threads other).held ≠ some token)
    (hchosen : thread.chosen ≠ none → ∀ other, (table.threads other).chosen = none)
    (hdescribed : Described table.userMap table.ipMap thread) :
    table.Progress next socket thread trace [] where
  accepted := haccepted
  threads := hthreads
  held := by rwa [hthread]
  chosen hne := .inr (hchosen hne)
  entries token _ := by rw [huserMap]
  kept other token _ _ hsome := by rwa [huserMap]
  addresses other ip _ _ hfree := by rw [hipMap, hfree]
  described := by rwa [huserMap, hipMap]
  consistent := by
    rw [hipMap, List.append_nil]
    refine htabled.consistent.mono fun token ip hsettled => ?_
    exact hsettled.before hthreads (by rw [huserMap]) (by simp [hthread, hunsettled])
  safe _ hevent := nomatch hevent

omit [DecidableEq Token] in
/-- Where an address is bound, looking it up in `ip_map` changes nothing. -/
theorem lookup_eq {entry : Option Nat} (hentry : table.ipMap ip = some entry) :
    table.lookup ip = table := by
  have hsame : Function.update table.ipMap ip (some ((table.ipMap ip).getD none)) =
      table.ipMap := by
    rw [hentry, Option.getD_some, ← hentry, Function.update_eq_self]
  unfold lookup
  rw [hsame]

omit [DecidableEq Token] in
theorem place_eq {itr : Option Token} (hplace : table.place socket itr = some (next, events)) :
    (itr.all fun token => (table.userMap token).isSome) = true ∧
      next = table.goto socket (.cleaning itr) ∧ events = [] := by
  unfold place at hplace
  split at hplace
  next hvalid =>
    cases hplace
    exact ⟨hvalid, rfl, rfl⟩
  next => cases hplace

theorem Tabled.erasing (htabled : table.Tabled trace)
    (hthread : table.threads socket = .erasing token ip) :
    table.Progress ({ table with ipMap := Function.update table.ipMap ip none }.goto socket
      (.dropping token)) socket (.dropping token) trace [] where
  accepted := rfl
  threads := rfl
  held other hother := .inl (by rw [hthread]; exact hother)
  chosen hne := absurd rfl hne
  entries _ _ := rfl
  kept _ _ _ _ hsome := hsome
  addresses _ other _ _ hfree := by
    show Function.update table.ipMap ip none other = none
    by_cases hsame : other = ip
    · rw [hsame, Function.update_self]
    · rwa [Function.update_of_ne hsame]
  described := by
    have hdescribed := htabled.described socket
    rw [hthread] at hdescribed
    exact Option.isSome_of_eq_some hdescribed
  consistent := by
    have hdescribed := htabled.described socket
    rw [hthread] at hdescribed
    have hsettled := htabled.settled hthread rfl rfl hdescribed
    rw [List.append_nil]
    refine (htabled.consistent.mono fun other ip' hother => ?_).unbind fun other hother => ?_
    · exact hother.before rfl rfl (by rw [hthread]; nofun)
    · have hbefore : table.Settled other ip := hother.before rfl rfl (by rw [hthread]; nofun)
      -- only this token has the address, and its entry is being dropped
      obtain rfl := htabled.consistent.distinct other token ip hbefore hsettled
      exact hother.2 socket (by simp [goto, FuncSocket.unsettled])
  safe _ hevent := nomatch hevent

theorem Tabled.dropping {itr : Option Token} (htabled : table.Tabled trace)
    (hthread : table.threads socket = .dropping token)
    (hothers : ∀ other, other ≠ socket → (table.threads other).itr ≠ some token)
    (hvalid : itr.all fun other => ((table.erase token).userMap other).isSome) :
    table.Progress ((table.erase token).goto socket (.cleaning itr)) socket (.cleaning itr) trace
      [] where
  accepted := rfl
  threads := by
    refine funext fun other => ?_
    by_cases hsame : other = socket
    · simp [goto, hsame]
    · simp [goto, erase, Function.update_of_ne hsame, hothers other hsame]
  held := nofun
  chosen hne := absurd rfl hne
  entries other hother := by
    have hne : other ≠ token := fun hsame => hother (by rw [hthread, hsame]; rfl)
    exact Function.update_of_ne hne ..
  kept other kept hsocket hitr hsome := by
    have hne : kept ≠ token := fun hsame => hothers other hsocket (hsame ▸ hitr)
    show (Function.update table.userMap token none kept).isSome
    rwa [Function.update_of_ne hne]
  addresses _ _ _ _ hfree := hfree
  described := described_cleaning hvalid
  consistent := by
    rw [List.append_nil]
    refine htabled.consistent.mono fun other ip hother => ?_
    have hne : other ≠ token := by
      rintro rfl
      have hentry := hother.1
      simp [goto, erase] at hentry
    refine ⟨(Function.update_of_ne hne ..).symm.trans hother.1, fun thread hunsettled => ?_⟩
    by_cases hsame : thread = socket
    · rw [hsame, hthread] at hunsettled
      exact hne (Option.some.inj hunsettled).symm
    · have hafter := hother.2 thread
      simp only [goto, erase, Function.update_of_ne hsame, hothers thread hsame, if_false]
        at hafter
      exact hafter hunsettled
  safe _ hevent := nomatch hevent

theorem Tabled.assigning (htabled : table.Tabled trace)
    (hthread : table.threads socket = .assigning token ip) :
    table.Progress ({ table with userMap := Function.update table.userMap token (some ip) }.goto
      socket (.binding token ip)) socket (.binding token ip) trace [] where
  accepted := rfl
  threads := rfl
  held other hother := .inl (by rw [hthread]; exact hother)
  chosen _ := .inl (by rw [hthread]; nofun)
  entries other hother := by
    have hne : other ≠ token := fun hsame => hother (by rw [hthread, hsame]; rfl)
    exact Function.update_of_ne hne ..
  kept _ other _ _ hsome := by
    show (Function.update table.userMap token (some ip) other).isSome
    by_cases hsame : other = token
    · rw [hsame, Function.update_self]
      rfl
    · rwa [Function.update_of_ne hsame]
  addresses _ _ _ _ hfree := hfree
  described := by
    have hdescribed := htabled.described socket
    rw [hthread] at hdescribed
    exact ⟨Function.update_self .., hdescribed.2⟩
  consistent := by
    rw [List.append_nil]
    refine htabled.consistent.mono fun other ip' hother => ?_
    have hne : other ≠ token := by
      rintro rfl
      exact hother.2 socket (by simp [goto, FuncSocket.unsettled])
    exact hother.before rfl (Function.update_of_ne hne ..) (by rw [hthread]; nofun)
  safe _ hevent := nomatch hevent

/-- The last step of a handshake binds the address of its token, which has no other one's. -/
theorem Tabled.bound {thread : FuncSocket Token} (htabled : table.Tabled trace)
    (hthread : table.threads socket = thread) (hheld : thread.held = some token)
    (htoken : table.userMap token = some ip) (hne : ip ≠ 0)
    (hown : ∀ other, other ≠ token → ¬ table.Settled other ip)
    (haddresses : ∀ other ip', other ≠ socket → (table.threads other).chosen = some ip' →
      table.ipMap ip' = none → ip' ≠ ip) :
    table.Progress ({ table with
        ipMap := Function.update table.ipMap ip (some (some socket)) }.goto socket .served)
      socket .served trace [.bound token socket] where
  accepted := rfl
  threads := rfl
  held := nofun
  chosen hne := absurd rfl hne
  entries _ _ := rfl
  kept _ _ _ _ hsome := hsome
  addresses other ip' hother hchosen hfree := by
    show Function.update table.ipMap ip (some (some socket)) ip' = none
    rwa [Function.update_of_ne (haddresses other ip' hother hchosen hfree)]
  described := trivial
  consistent := by
    refine htabled.consistent.bind (fun other ip' hother hdifferent => ?_) (fun ip' hip => ?_) hne
      hown
    · refine hother.before rfl rfl fun hunsettled => hdifferent ?_
      rw [hthread] at hunsettled
      exact Option.some.inj ((FuncSocket.held_of_unsettled hunsettled).symm.trans hheld)
    · exact Option.some.inj (hip.1.symm.trans htoken)
  safe := by simp

theorem Tabled.run_progress (htabled : table.Tabled trace)
    (hallowed : table.Undisturbed localTunnelIp (.run socket))
    (hstep : table.run localTunnelIp socket = some (next, events)) :
    ∃ thread, table.Progress next socket thread trace events := by
  have hdescribed := htabled.described socket
  unfold run at hstep
  unfold Undisturbed at hallowed
  cases hthread : table.threads socket with
  | cleaning itr =>
      cases itr with
      | none =>
          simp only [hthread] at hstep
          cases hstep
          exact ⟨_, .of_same htabled hthread rfl rfl rfl rfl rfl nofun (absurd rfl) trivial⟩
      | some token =>
          simp only [hthread] at hstep hallowed
          obtain ⟨ip, hip, heq⟩ := Option.map_eq_some_iff.mp hstep
          cases heq
          -- From here on the thread holds the token.
          have hfree := htabled.unheld hallowed
          exact ⟨_, .of_same htabled hthread rfl rfl rfl rfl rfl
            (fun _ hother => .inr (Option.some.inj hother ▸ hfree)) (absurd rfl) hip⟩
  | checking token ip =>
      simp only [hthread] at hstep hdescribed
      have hsettled := htabled.settled hthread rfl rfl hdescribed
      obtain ⟨other, hother, _⟩ := htabled.consistent.bound token ip hsettled
      simp only [hother] at hstep
      cases hstep
      split
      next =>
        exact ⟨_, .of_same htabled hthread rfl rfl rfl rfl rfl nofun (absurd rfl)
          (Option.isSome_of_eq_some hdescribed)⟩
      next =>
        exact ⟨_, .of_same htabled hthread rfl rfl rfl rfl rfl (fun _ hheld => .inl hheld)
          (absurd rfl) hdescribed⟩
  | deleting token ip | disposing token ip =>
      simp only [hthread] at hstep hdescribed
      have hsettled := htabled.settled hthread rfl rfl hdescribed
      obtain ⟨other, hother, _⟩ := htabled.consistent.bound token ip hsettled
      rw [lookup_eq hother] at hstep
      cases hstep
      exact ⟨_, .of_same htabled hthread rfl rfl rfl rfl rfl (fun _ hheld => .inl hheld)
        (absurd rfl) hdescribed⟩
  | erasing token ip =>
      simp only [hthread] at hstep
      cases hstep
      exact ⟨_, htabled.erasing hthread⟩
  | stale =>
      rw [hthread] at hdescribed
      exact hdescribed.elim
  | finding token =>
      simp only [hthread] at hstep hallowed
      cases hstep
      have hfree := htabled.unheld hallowed
      split
      next hnone =>
        exact ⟨_, .of_same htabled hthread rfl rfl rfl rfl rfl
          (fun _ hother => .inr (Option.some.inj hother ▸ hfree)) (absurd rfl)
          (Option.isNone_iff_eq_none.mp hnone)⟩
      next hknown =>
        exact ⟨_, .of_same htabled hthread rfl rfl rfl rfl rfl
          (fun _ hother => .inr (Option.some.inj hother ▸ hfree)) (absurd rfl)
          (Option.isSome_iff_ne_none.mpr (by simpa using hknown))⟩
  | proposing token =>
      simp only [hthread] at hstep hallowed hdescribed
      cases hstep
      refine ⟨_, .of_same htabled hthread rfl rfl rfl rfl rfl (fun _ hother => .inl hother) ?_
        ⟨hdescribed, hallowed.1.getUseableIp⟩⟩
      intro _ other
      rcases Nat.lt_or_ge other table.accepted with hlt | hge
      · exact hallowed.2 other hlt
      · rw [htabled.fresh other hge]
        rfl
  | assigning token ip =>
      simp only [hthread] at hstep
      cases hstep
      exact ⟨_, htabled.assigning hthread⟩
  | recalling token =>
      simp only [hthread] at hstep hdescribed
      obtain ⟨ip, hip⟩ := Option.isSome_iff_exists.mp hdescribed
      rw [hip, Option.getD_some, ← hip, Function.update_eq_self] at hstep
      cases hstep
      exact ⟨_, .of_same htabled hthread rfl rfl rfl rfl rfl (fun _ hother => .inl hother)
        (absurd rfl) hip⟩
  | closing token ip =>
      simp only [hthread] at hstep hdescribed
      have hsettled := htabled.settled hthread rfl rfl hdescribed
      obtain ⟨old, hold, _⟩ := htabled.consistent.bound token ip hsettled
      simp only [hold] at hstep
      cases hstep
      exact ⟨_, .of_same htabled hthread rfl rfl rfl rfl rfl (fun _ hother => .inl hother)
        (absurd rfl) hdescribed⟩
  | binding token ip =>
      simp only [hthread] at hstep hdescribed
      cases hstep
      obtain ⟨htoken, hunused, hne⟩ := hdescribed
      refine ⟨_, htabled.bound hthread rfl htoken hne ?_ ?_⟩
      · -- a settled entry has its address in `ip_map`
        intro other _ hother
        obtain ⟨_, hbound, _⟩ := htabled.consistent.bound other ip hother
        rw [hunused] at hbound
        cases hbound
      · intro other ip' hother hchosen _
        have hsingle :=
          htabled.single other socket (by rw [hchosen]; nofun) (by rw [hthread]; nofun)
        exact absurd hsingle hother
  | replacing token ip =>
      simp only [hthread] at hstep hdescribed
      cases hstep
      have hsettled := htabled.settled hthread rfl rfl hdescribed
      obtain ⟨old, hold, _⟩ := htabled.consistent.bound token ip hsettled
      refine ⟨_, htabled.bound hthread rfl hdescribed (htabled.consistent.nonzero token ip hsettled)
        ?_ ?_⟩
      · intro other hdifferent hother
        exact hdifferent (htabled.consistent.distinct other token ip hother hsettled)
      · rintro other ip' _ _ hfree rfl
        rw [hold] at hfree
        cases hfree
  | connected | dropping | passing | receiving | served => simp [hthread] at hstep

theorem Tabled.seek_progress {itr : Option Token} (htabled : table.Tabled trace)
    (hallowed : table.Undisturbed localTunnelIp (.seek socket itr))
    (hstep : table.seek socket itr = some (next, events)) :
    ∃ thread, table.Progress next socket thread trace events := by
  unfold seek at hstep
  unfold Undisturbed at hallowed
  cases hthread : table.threads socket with
  | connected | passing =>
      simp only [hthread] at hstep
      obtain ⟨hvalid, rfl, rfl⟩ := place_eq hstep
      exact ⟨_, .of_same htabled hthread rfl rfl rfl rfl rfl nofun (absurd rfl)
        (described_cleaning hvalid)⟩
  | dropping token =>
      simp only [hthread] at hstep hallowed
      obtain ⟨hvalid, rfl, rfl⟩ := place_eq hstep
      refine ⟨_, htabled.dropping hthread (fun other hother => ?_) hvalid⟩
      rcases Nat.lt_or_ge other table.accepted with hlt | hge
      · exact hallowed other hlt hother
      · rw [htabled.fresh other hge]
        nofun
  | _ => simp [hthread] at hstep

/-- An undisturbed step keeps the tables in order. -/
theorem Tabled.step (htabled : table.Tabled trace)
    (hallowed : table.Undisturbed localTunnelIp action)
    (hstep : table.step localTunnelIp action = some (next, events)) :
    next.Tabled (trace ++ events) := by
  unfold UserTable.step at hstep
  split at hstep
  next => cases hstep
  next =>
    cases action with
    | accept =>
        cases hstep
        rw [List.append_nil]
        exact { htabled with
          fresh := fun socket hle => htabled.fresh socket (Nat.le_of_succ_le hle) }
    | die socket =>
        cases hstep
        rw [List.append_nil]
        exact { htabled with }
    | seek socket itr =>
        dsimp only at hstep
        split at hstep
        next hlt =>
          obtain ⟨_, hprogress⟩ := htabled.seek_progress hallowed hstep
          exact htabled.progress hlt hprogress
        next => cases hstep
    | token socket token =>
        dsimp only at hstep
        split at hstep
        next hthread =>
          cases hstep
          have hlt : socket < table.accepted := by
            by_contra hge
            rw [htabled.fresh socket (by omega)] at hthread
            cases hthread
          exact htabled.progress hlt
            (.of_same htabled hthread rfl rfl rfl rfl rfl nofun (absurd rfl) trivial)
        next => cases hstep
    | run socket =>
        dsimp only at hstep
        split at hstep
        next hlt =>
          obtain ⟨_, hprogress⟩ := htabled.run_progress hallowed hstep
          exact htabled.progress hlt hprogress
        next => cases hstep

theorem Tabled.initial : Tabled ({} : UserTable Token) [] where
  fresh _ _ := rfl
  exclusive _ _ _ hfirst _ := by cases hfirst
  single _ _ hfirst _ := absurd rfl hfirst
  described _ := trivial
  consistent :=
    { distinct := fun _ _ _ hfirst _ => nomatch hfirst.1
      nonzero := fun _ _ hentry => nomatch hentry.1
      bound := fun _ _ hentry => nomatch hentry.1 }
  safe _ hevent := nomatch hevent

/-- Nothing goes wrong while the tables are in order. -/
theorem Tabled.faultless (htabled : table.Tabled trace) :
    .nullDereferenced ∉ trace ∧ .staleIterator ∉ trace := by
  constructor <;>
  · intro hmem
    obtain ⟨_, _, hbound⟩ := htabled.safe _ hmem
    cases hbound

/-- In every run of undisturbed steps the tables are consistent whenever no handshake is
part-way through, no null pointer is dereferenced, and no iterator used whose entry is gone. -/
theorem tables_consistent
    (hreach : (tableMachine Token localTunnelIp).Reach
      (fun table _ action _ => table.Undisturbed localTunnelIp action) {} table trace) :
    (table.Quiet →
      Consistent (fun token ip => table.userMap token = some ip) table.ipMap trace) ∧
      .nullDereferenced ∉ trace ∧ .staleIterator ∉ trace := by
  have htabled : table.Tabled trace :=
    hreach.invariant Tabled Tabled.initial fun _ _ _ _ _ htabled hstep hallowed =>
      htabled.step hallowed hstep
  refine ⟨fun hquiet => htabled.consistent.mono fun token ip htoken => ⟨htoken, ?_⟩,
    htabled.faultless⟩
  intro socket hunsettled
  refine htabled.unheld (fun other hlt hother => ?_) socket
    (FuncSocket.held_of_unsettled hunsettled)
  rw [hquiet other hlt] at hother
  cases hother

/-- Two clients with new tokens handshake side by side. When the socket of the second one is dead
both come back on other sockets, whose threads clean up side by side: one drops the second token
while the iterator of the other stands on the first. -/
theorem tables_consistent_reconnect : ∃ table trace,
    (tableMachine Bytes 0x0a070001).Reach
      (fun table _ action _ => table.Undisturbed 0x0a070001 action) {} table trace ∧
    table.Quiet ∧ trace = [.bound [1] 0, .bound [2] 1, .bound [1] 2, .bound [2] 3] ∧
    Consistent (fun token ip => table.userMap token = some ip) table.ipMap trace := by
  obtain ⟨table, trace, hreach, hview⟩ := Machine.reach_of_exec
    (fun (table : UserTable Bytes) (trace : List (TableEvent Bytes)) =>
      (decide table.Quiet, trace))
    (show ((tableMachine Bytes 0x0a070001).exec
      (fun table _ action _ => table.Undisturbed 0x0a070001 action) {} []
      [.accept, .accept, .seek 0 none, .seek 1 none, .run 0, .run 1, .token 0 [1], .token 1 [2],
        .run 0, .run 1, .run 0, .run 0, .run 0, .run 1, .run 1, .run 1, .accept, .accept,
        .seek 2 (some [1]), .run 2, .run 2, .seek 2 (some [2]), .die 1, .run 2, .run 2, .run 2,
        .run 2, .seek 3 (some [1]), .seek 2 none, .run 3, .run 3, .seek 3 none, .run 2, .run 3,
        .die 0, .token 2 [1], .run 2, .run 2, .run 2, .run 2, .run 2, .token 3 [2], .run 3, .run 3,
        .run 3, .run 3]).map _ =
      some (true, [.bound [1] 0, .bound [2] 1, .bound [1] 2, .bound [2] 3]) by decide +kernel)
  simp only [Prod.mk.injEq, decide_eq_true_eq] at hview
  obtain ⟨hquiet, htrace⟩ := hview
  exact ⟨table, trace, hreach, hquiet, htrace, (tables_consistent hreach).1 hquiet⟩

/-- Two threads look for an address before either has put its own into `ip_map`. Both tokens
get the same address. When its socket is dead, the cleanup loop of a third thread removes
the address with the first token and finds a null pointer for the second. And of two cleanup
loops that have come to the same entry, one goes on with an iterator that the other has made
invalid. -/
theorem two_tokens_one_address :
    (∃ table trace, (tableMachine Bytes 0x0a070001).Reach Machine.always {} table trace ∧
      table.Quiet ∧ table.userMap [1] = some 0x0200070a ∧ table.userMap [2] = some 0x0200070a ∧
      ¬Consistent (fun token ip => table.userMap token = some ip) table.ipMap trace) ∧
    (∃ table trace, (tableMachine Bytes 0x0a070001).Reach Machine.always {} table trace ∧
      .nullDereferenced ∈ trace) ∧
    ∃ table trace, (tableMachine Bytes 0x0a070001).Reach Machine.always {} table trace ∧
      .staleIterator ∈ trace := by
  refine ⟨?_, ?_, ?_⟩
  · obtain ⟨table, trace, hreach, hview⟩ := Machine.reach_of_exec
      (fun (table : UserTable Bytes) (_ : List (TableEvent Bytes)) =>
        (decide table.Quiet, table.userMap [1], table.userMap [2]))
      (show ((tableMachine Bytes 0x0a070001).exec Machine.always {} []
        [.accept, .accept, .seek 0 none, .seek 1 none, .run 0, .run 1, .token 0 [1],
          .token 1 [2], .run 0, .run 1, .run 0, .run 1, .run 0, .run 0, .run 1, .run 1]).map _ =
        some (true, some 0x0200070a, some 0x0200070a) by decide +kernel)
    simp only [Prod.mk.injEq, decide_eq_true_eq] at hview
    obtain ⟨hquiet, hfirst, hsecond⟩ := hview
    refine ⟨table, trace, hreach, hquiet, hfirst, hsecond, fun hconsistent => ?_⟩
    have hsame := hconsistent.distinct [1] [2] _ hfirst hsecond
    cases hsame
  · obtain ⟨table, trace, hreach, hview⟩ := Machine.reach_of_exec
      (fun (_ : UserTable Bytes) (trace : List (TableEvent Bytes)) => trace)
      (show ((tableMachine Bytes 0x0a070001).exec Machine.always {} []
        [.accept, .accept, .seek 0 none, .seek 1 none, .run 0, .run 1, .token 0 [1],
          .token 1 [2], .run 0, .run 1, .run 0, .run 1, .run 0, .run 0, .run 1, .run 1, .die 1,
          .accept, .seek 2 (some [1]), .run 2, .run 2, .run 2, .run 2, .seek 2 (some [2]), .run 2,
          .run 2]).map _ =
        some [.bound [1] 0, .bound [2] 1, .nullDereferenced] by decide +kernel)
    exact ⟨table, trace, hreach, by simp [hview]⟩
  · obtain ⟨table, trace, hreach, hview⟩ := Machine.reach_of_exec
      (fun (_ : UserTable Bytes) (trace : List (TableEvent Bytes)) => trace)
      (show ((tableMachine Bytes 0x0a070001).exec Machine.always {} []
        [.accept, .seek 0 none, .run 0, .token 0 [1], .run 0, .run 0, .run 0, .run 0, .die 0,
          .accept, .accept, .seek 1 (some [1]), .seek 2 (some [1]), .run 1, .run 1, .run 1, .run 1,
          .seek 1 none, .run 2]).map _ =
        some [.bound [1] 0, .staleIterator] by decide +kernel)
    exact ⟨table, trace, hreach, by simp [hview]⟩

end UserTable

end Sharpvpn
