import Sharpvpn.Dns.RecordAccess
import Sharpvpn.Vpn.Chinadns

/-!
# The filter for responses

A server within the listed networks is trusted with addresses within them only. The filter
goes over the answers of a response until one of them settles what becomes of it.
-/

namespace Sharpvpn

open Foundation.Layout

/-- The settings and lists that the proxy reads. -/
structure DnsConfig where
  compression : Bool
  bidirectional : Bool
  /-- Whether there is a `chnroute_file`. -/
  chnrouteFile : Bool
  chnrouteList : List NetMask
  ipList : List UInt32
  dnsServersLen : Nat
  /-- With `compression`, the servers below this number are within the networks. -/
  hasChnDns : Nat

/-- What `should_filter_query` returns: 0, -1 or 1. -/
inductive Verdict
  | pass
  | delay
  | filter
  deriving DecidableEq, Repr

/-- `*(struct in_addr *)rd`. The length of the data is not consulted. -/
def inAddr (mem : Octets) (rd : Nat) : UInt32 :=
  octetAddress (mem rd).toNat (mem (rd + 1)).toNat (mem (rd + 2)).toNat (mem (rd + 3)).toNat

/-- Put bytes at the start of a buffer. -/
def overwrite (bytes : Bytes) (mem : Octets) : Octets := fun i => bytes[i]?.getD (mem i)

namespace DnsConfig

variable (config : DnsConfig)

def dnsIsChn (dnsAddr : UInt32) : Bool :=
  config.chnrouteFile && 1 < config.dnsServersLen && testIpInList dnsAddr config.chnrouteList ≠ 0

def dnsIsForeign (dnsAddr : UInt32) : Bool :=
  config.chnrouteFile && 1 < config.dnsServersLen && testIpInList dnsAddr config.chnrouteList = 0

/-- The body of the loop over the answers. -/
def judge (mem : Octets) (dnsAddr : UInt32) (rr : NsRr) : Option Verdict :=
  if rr.type = 1 then
    rr.rdata.bind fun rd =>
      -- `bsearch` over a sorted list
      if !config.compression ∧ inAddr mem rd ∈ config.ipList then some .filter
      else if testIpInList (inAddr mem rd) config.chnrouteList ≠ 0 then
        if config.dnsIsForeign dnsAddr then
          if config.bidirectional then some .filter else none
        else none
      else if config.dnsIsChn dnsAddr then some .filter
      else none
  else if rr.type = 28 ∨ rr.type = 12 then some .pass
  else none

/-- The loop over the answers. -/
def judgeAnswers (dnExpand : DnExpand) (mem : Octets) (dnsAddr : UInt32) :
    NsMsg → List Nat → Option Verdict
  | _, [] => none
  | msg, rrnum :: rest =>
      match msg.parserr dnExpand.expand mem .an rrnum with
      | (_, none) => some .pass
      | (msg, some rr) =>
          match config.judge mem dnsAddr rr with
          | some verdict => some verdict
          | none => judgeAnswers dnExpand mem dnsAddr msg rest

def shouldFilterQuery (dnExpand : DnExpand) (mem : Octets) (msg : NsMsg) (dnsAddr : UInt32) :
    Verdict :=
  let rrmax := (msg.counts .an).toNat
  if rrmax = 0 then
    if config.compression then
      -- Wait for foreign dns
      if config.dnsIsChn dnsAddr then .filter else .pass
    else .delay
  else
    match config.judgeAnswers dnExpand mem dnsAddr msg (List.range rrmax) with
    | some verdict => verdict
    | none => if rrmax = 1 then if config.compression then .pass else .delay else .pass

/-- The server should not have given this address. -/
def Suspect (dnsAddr ip : UInt32) : Prop :=
  config.compression = false ∧ ip ∈ config.ipList ∨
    testIpInList ip config.chnrouteList ≠ 0 ∧ config.dnsIsForeign dnsAddr ∧ config.bidirectional ∨
    testIpInList ip config.chnrouteList = 0 ∧ config.dnsIsChn dnsAddr

/-- The answer is an address the server should not have given. -/
def Rejects (mem : Octets) (dnsAddr : UInt32) (rr : NsRr) : Prop :=
  rr.type = 1 ∧ ∃ rd ∈ rr.rdata, config.Suspect dnsAddr (inAddr mem rd)

/-- The answer leaves the response to the next one. -/
def Neutral (mem : Octets) (dnsAddr : UInt32) (rr : NsRr) : Prop :=
  rr.type ≠ 28 ∧ rr.type ≠ 12 ∧ ¬config.Rejects mem dnsAddr rr

variable {config} {mem : Octets} {dnsAddr : UInt32} {rr : NsRr}

theorem judge_eq_filter : config.judge mem dnsAddr rr = some .filter ↔
    config.Rejects mem dnsAddr rr := by
  unfold judge Rejects Suspect
  split
  next htype =>
    rw [Option.bind_eq_some_iff]
    simp only [htype, true_and, Option.mem_def]
    refine exists_congr fun rd => and_congr_right fun _ => ?_
    grind
  next htype =>
    simp only [htype, false_and, iff_false]
    split <;> simp

/-- An address is never let pass by itself. -/
theorem judge_address (htype : rr.type = 1) :
    config.judge mem dnsAddr rr = some .filter ∨ config.judge mem dnsAddr rr = none := by
  unfold judge
  rw [if_pos htype]
  cases rr.rdata with
  | none => exact .inr rfl
  | some rd =>
      rw [Option.bind_some]
      grind

theorem judge_other (htype : rr.type ≠ 1) : config.judge mem dnsAddr rr =
    if rr.type = 28 ∨ rr.type = 12 then some .pass else none := by
  unfold judge
  rw [if_neg htype]

theorem judge_eq_none : config.judge mem dnsAddr rr = none ↔ config.Neutral mem dnsAddr rr := by
  unfold Neutral
  rw [← judge_eq_filter]
  by_cases htype : rr.type = 1
  · have hjudge : config.judge mem dnsAddr rr = some .filter ∨
        config.judge mem dnsAddr rr = none := judge_address htype
    rw [htype]
    rcases hjudge with hfilter | hnone
    · simp [hfilter]
    · simp [hnone]
  · rw [judge_other htype]
    split <;> grind

theorem judge_ne_delay : config.judge mem dnsAddr rr ≠ some .delay := by
  by_cases htype : rr.type = 1
  · intro hdelay
    rcases judge_address htype with h | h <;> cases hdelay.symm.trans h
  · rw [judge_other htype]
    split <;> simp

end DnsConfig

section Overwrite

variable {mem : Octets} {bytes : Bytes}

theorem standsAt_overwrite : StandsAt (overwrite bytes mem) 0 bytes := by
  intro i hi
  unfold overwrite
  rw [Nat.zero_add, List.getElem?_eq_getElem hi, Option.getD_some]

theorem standsAt_overwrite_behind {rest : Bytes} (hrest : StandsAt mem bytes.length rest) :
    StandsAt (overwrite bytes mem) bytes.length rest := by
  intro i hi
  unfold overwrite
  rw [List.getElem?_eq_none (Nat.le_add_right _ _), Option.getD_none]
  exact hrest i hi

/-- The message with another identifier. -/
theorem standsAt_renamed {message : DnsMessage} (hstands : StandsAt mem 0 message.bytes)
    (id : UInt16) : StandsAt (overwrite (put16 id) mem) 0 { message with id }.bytes := by
  have hsplit : ∀ word : UInt16, { message with id := word }.bytes =
      put16 word ++ message.bytes.drop 2 := fun word => rfl
  have hrest := (standsAt_append.mp (hsplit message.id ▸ hstands)).2
  rw [Nat.zero_add] at hrest
  rw [hsplit, standsAt_append, Nat.zero_add]
  exact ⟨standsAt_overwrite, standsAt_overwrite_behind hrest⟩

end Overwrite

theorem findSome?_range {β : Type} (f : Nat → Option β) (count : Nat) (value : β) :
    (List.range count).findSome? f = some value ↔
      ∃ i < count, f i = some value ∧ ∀ j < i, f j = none := by
  induction count with
  | zero => simp
  | succ count ih =>
      rw [List.range_succ, List.findSome?_append, Option.or_eq_some_iff, ih,
        List.findSome?_singleton, List.findSome?_eq_none_iff]
      simp only [List.mem_range]
      constructor
      · rintro (⟨i, hi, hvalue, hbefore⟩ | ⟨hbefore, hvalue⟩)
        · exact ⟨i, by omega, hvalue, hbefore⟩
        · exact ⟨count, by omega, hvalue, hbefore⟩
      · rintro ⟨i, hi, hvalue, hbefore⟩
        rcases Nat.lt_succ_iff_lt_or_eq.mp hi with hlt | rfl
        · exact .inl ⟨i, hlt, hvalue, hbefore⟩
        · exact .inr ⟨hbefore, hvalue⟩

namespace DnsMessage

variable {message : DnsMessage} {mem : Octets} {msg : NsMsg} {config : DnsConfig}

/-- What the answer at a place settles. One that is not read lets the response pass. -/
def settled (message : DnsMessage) (config : DnsConfig) (dnExpand : DnExpand) (mem : Octets)
    (dnsAddr : UInt32) (i : Nat) : Option Verdict :=
  match message.entryAt dnExpand mem .an i with
  | none => some .pass
  | some rr => config.judge mem dnsAddr rr

/-- What becomes of a response, by its answers alone. -/
def verdict (message : DnsMessage) (config : DnsConfig) (dnExpand : DnExpand) (mem : Octets)
    (dnsAddr : UInt32) : Verdict :=
  if message.entries .an = [] then
    if config.compression then if config.dnsIsChn dnsAddr then .filter else .pass else .delay
  else
    ((List.range (message.entries .an).length).findSome?
        (message.settled config dnExpand mem dnsAddr)).getD
      (if (message.entries .an).length = 1 ∧ config.compression = false then .delay else .pass)

section Settled

variable {dnExpand : DnExpand} {dnsAddr : UInt32} {i : Nat}

theorem settled_eq_filter : message.settled config dnExpand mem dnsAddr i = some .filter ↔
    ∃ rr, message.entryAt dnExpand mem .an i = some rr ∧ config.Rejects mem dnsAddr rr := by
  unfold settled
  cases message.entryAt dnExpand mem .an i with
  | none => simp
  | some rr => simp [DnsConfig.judge_eq_filter]

theorem settled_eq_none : message.settled config dnExpand mem dnsAddr i = none ↔
    ∃ rr, message.entryAt dnExpand mem .an i = some rr ∧ config.Neutral mem dnsAddr rr := by
  unfold settled
  cases message.entryAt dnExpand mem .an i with
  | none => simp
  | some rr => simp [DnsConfig.judge_eq_none]

theorem settled_ne_delay : message.settled config dnExpand mem dnsAddr i ≠ some .delay := by
  unfold settled
  cases message.entryAt dnExpand mem .an i with
  | none => simp
  | some rr => exact DnsConfig.judge_ne_delay

theorem lt_of_entryAt {rr : NsRr} (hrr : message.entryAt dnExpand mem .an i = some rr) :
    i < (message.entries .an).length := by
  obtain ⟨entry, hentry, -⟩ := Option.bind_eq_some_iff.mp hrr
  exact (List.getElem?_eq_some_iff.mp hentry).1

theorem verdict_eq_filter : message.verdict config dnExpand mem dnsAddr = .filter ↔
    (message.entries .an = [] ∧ config.compression ∧ config.dnsIsChn dnsAddr) ∨
      ∃ i rr, message.entryAt dnExpand mem .an i = some rr ∧ config.Rejects mem dnsAddr rr ∧
        ∀ j < i, message.settled config dnExpand mem dnsAddr j = none := by
  have hfound := findSome?_range (message.settled config dnExpand mem dnsAddr)
    (message.entries .an).length .filter
  simp only [settled_eq_filter] at hfound
  unfold verdict
  split
  next hnone =>
    have hno : ∀ i rr, message.entryAt dnExpand mem .an i ≠ some rr := by
      intro i rr hrr
      have hlt := lt_of_entryAt hrr
      rw [hnone] at hlt
      exact absurd hlt (Nat.not_lt_zero i)
    grind
  next hsome =>
    simp only [hsome, false_and, false_or]
    have hsame : (∃ i rr, message.entryAt dnExpand mem .an i = some rr ∧
        config.Rejects mem dnsAddr rr ∧
          ∀ j < i, message.settled config dnExpand mem dnsAddr j = none) ↔
        (List.range (message.entries .an).length).findSome?
          (message.settled config dnExpand mem dnsAddr) = some .filter := by
      rw [hfound]
      constructor
      · rintro ⟨i, rr, hrr, hrejects, hbefore⟩
        exact ⟨i, lt_of_entryAt hrr, ⟨rr, hrr, hrejects⟩, hbefore⟩
      · rintro ⟨i, -, ⟨rr, hrr, hrejects⟩, hbefore⟩
        exact ⟨i, rr, hrr, hrejects, hbefore⟩
    rw [hsame]
    cases (List.range (message.entries .an).length).findSome?
        (message.settled config dnExpand mem dnsAddr) with
    | none =>
        rw [Option.getD_none]
        split <;> simp
    | some verdict => simp

theorem verdict_eq_delay : message.verdict config dnExpand mem dnsAddr = .delay ↔
    config.compression = false ∧ (message.entries .an).length ≤ 1 ∧
      ∀ i < (message.entries .an).length,
        message.settled config dnExpand mem dnsAddr i = none := by
  have hfound := findSome?_range (message.settled config dnExpand mem dnsAddr)
    (message.entries .an).length .delay
  have hnone : (List.range (message.entries .an).length).findSome?
      (message.settled config dnExpand mem dnsAddr) = none ↔
      ∀ i < (message.entries .an).length,
        message.settled config dnExpand mem dnsAddr i = none := by
    simp only [List.findSome?_eq_none_iff, List.mem_range]
  rw [← hnone]
  unfold verdict
  split
  next hempty =>
    rw [hempty]
    grind
  next hsome =>
    have hpos : 0 < (message.entries .an).length := List.length_pos_of_ne_nil hsome
    cases hlast : (List.range (message.entries .an).length).findSome?
        (message.settled config dnExpand mem dnsAddr) with
    | none =>
        rw [Option.getD_none]
        split
        next hone => simp [hone]
        next hmany =>
          simp only [reduceCtorEq, false_iff]
          grind
    | some verdict =>
        simp only [Option.getD_some, reduceCtorEq, and_false, iff_false]
        rintro rfl
        obtain ⟨i, -, hdelay, -⟩ := hfound.mp hlast
        exact settled_ne_delay hdelay

end Settled

theorem Handles.judgeAnswers (hhandles : message.Handles msg)
    (hstands : StandsAt mem 0 message.bytes) (dnExpand : DnExpand) (dnsAddr : UInt32)
    (rrnums : List Nat) :
    config.judgeAnswers dnExpand mem dnsAddr msg rrnums =
      rrnums.findSome? (message.settled config dnExpand mem dnsAddr) := by
  induction rrnums generalizing msg with
  | nil => rfl
  | cons rrnum rest ih =>
      obtain ⟨hmoved, hanswer⟩ := hhandles.parserr hstands dnExpand .an rrnum
      rw [List.findSome?_cons, settled]
      unfold DnsConfig.judgeAnswers
      generalize msg.parserr dnExpand.expand mem .an rrnum = answer at hmoved hanswer
      obtain ⟨moved, answer⟩ := answer
      dsimp only at hmoved hanswer
      subst hanswer
      cases hentry : message.entryAt dnExpand mem .an rrnum with
      | none => rfl
      | some rr =>
          dsimp only
          rw [ih hmoved]
          cases config.judge mem dnsAddr rr <;> rfl

theorem Handles.shouldFilterQuery (hhandles : message.Handles msg)
    (hstands : StandsAt mem 0 message.bytes) (dnExpand : DnExpand) (dnsAddr : UInt32) :
    config.shouldFilterQuery dnExpand mem msg dnsAddr =
      message.verdict config dnExpand mem dnsAddr := by
  unfold DnsConfig.shouldFilterQuery verdict
  dsimp only
  rw [hhandles.counts_eq, message.toNat_count, hhandles.judgeAnswers hstands]
  simp only [List.length_eq_zero_iff]
  split
  next => rfl
  next =>
    cases (List.range (message.entries .an).length).findSome?
        (message.settled config dnExpand mem dnsAddr) with
    | some verdict => rfl
    | none =>
        rw [Option.getD_none]
        grind

end DnsMessage

/-- The response that the filter sees is the one that was accepted, with another identifier. It
is filtered if it has an address that the server should not have given, unless an answer before
lets it pass. It is delayed if it has at most one answer, and that one is neutral. -/
theorem shouldFilterQuery_of_initparse {mem : Octets} {msglen : Nat} {msg : NsMsg}
    (hparse : NsMsg.initparse mem msglen = some msg) (config : DnsConfig) (dnExpand : DnExpand)
    (id : UInt16) (dnsAddr : UInt32) :
    ∃ message : DnsMessage, StandsAt (overwrite (put16 id) mem) 0 message.bytes ∧
      message.bytes.length = msglen ∧ message.id = id ∧
      (config.shouldFilterQuery dnExpand (overwrite (put16 id) mem) msg dnsAddr = .filter ↔
        (message.entries .an = [] ∧ config.compression ∧ config.dnsIsChn dnsAddr) ∨
        ∃ i rr, message.entryAt dnExpand (overwrite (put16 id) mem) .an i = some rr ∧
          config.Rejects (overwrite (put16 id) mem) dnsAddr rr ∧
          ∀ j < i, ∃ earlier,
            message.entryAt dnExpand (overwrite (put16 id) mem) .an j = some earlier ∧
            config.Neutral (overwrite (put16 id) mem) dnsAddr earlier) ∧
      (config.shouldFilterQuery dnExpand (overwrite (put16 id) mem) msg dnsAddr = .delay ↔
        config.compression = false ∧
        (message.entries .an).length ≤ 1 ∧
          ∀ i < (message.entries .an).length, ∃ rr,
            message.entryAt dnExpand (overwrite (put16 id) mem) .an i = some rr ∧
              config.Neutral (overwrite (put16 id) mem) dnsAddr rr) := by
  obtain ⟨message, hstands, rfl, rfl⟩ := NsMsg.initparse_eq_some_iff.mp hparse
  have hhandles : { message with id }.Handles message.handle :=
    ⟨rfl, rfl, rfl, fun _ hsect => nomatch hsect⟩
  refine ⟨{ message with id }, standsAt_renamed hstands id, rfl, rfl, ?_⟩
  have hverdict : config.shouldFilterQuery _ _ _ _ = _ :=
    hhandles.shouldFilterQuery (standsAt_renamed hstands id) dnExpand dnsAddr
  generalize { message with id } = renamed at hverdict ⊢
  rw [hverdict]
  simp only [← DnsMessage.settled_eq_none]
  exact ⟨DnsMessage.verdict_eq_filter, DnsMessage.verdict_eq_delay⟩

/-- Two servers, and the one network 1.0.1.0/24. -/
def twoServers : DnsConfig where
  compression := false
  bidirectional := false
  chnrouteFile := true
  chnrouteList := [⟨octetAddress 1 0 1 0, 255⟩]
  ipList := []
  dnsServersLen := 2
  hasChnDns := 1

/-- The server 1.0.1.1 should not have given 10.7.0.2. -/
theorem shouldFilterQuery_of_initparse_root : ∃ msg,
    NsMsg.initparse (octetsOf rootResponse) 32 = some msg ∧
    twoServers.shouldFilterQuery .root (overwrite (put16 5) (octetsOf rootResponse)) msg
      (octetAddress 1 0 1 1) = .filter ∧
    ∃ message : DnsMessage, message.id = 5 ∧ ∃ i rr,
      message.entryAt .root (overwrite (put16 5) (octetsOf rootResponse)) .an i = some rr ∧
      twoServers.Rejects (overwrite (put16 5) (octetsOf rootResponse)) (octetAddress 1 0 1 1)
        rr := by
  obtain ⟨msg, hmsg⟩ := Option.isSome_iff_exists.mp
    (show (NsMsg.initparse (octetsOf rootResponse) 32).isSome by decide +kernel)
  have hverdict : (NsMsg.initparse (octetsOf rootResponse) 32).map (fun msg =>
      twoServers.shouldFilterQuery .root (overwrite (put16 5) (octetsOf rootResponse)) msg
        (octetAddress 1 0 1 1)) = some .filter := by
    decide +kernel
  rw [hmsg] at hverdict
  have hfilter := Option.some.inj hverdict
  refine ⟨msg, hmsg, hfilter, ?_⟩
  obtain ⟨message, -, -, hid, hiff, -⟩ :=
    shouldFilterQuery_of_initparse hmsg twoServers .root 5 (octetAddress 1 0 1 1)
  rcases hiff.mp hfilter with ⟨-, hcontra, -⟩ | ⟨i, rr, hrr, hrejects, -⟩
  · cases hcontra
  · exact ⟨message, hid, i, rr, hrr, hrejects⟩

end Sharpvpn
