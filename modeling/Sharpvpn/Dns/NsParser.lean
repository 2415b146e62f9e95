import Mathlib.Logic.Function.Basic
import Sharpvpn.Crypto
import Sharpvpn.Foundation.Layout

/-!
# The parser of DNS messages

Pointers are offsets from the start of the message. The memory behind the message belongs to
the parser's buffer and holds what was there before.
-/

namespace Sharpvpn

open Foundation.Layout

/-- What stands in memory from the start of a message on. -/
abbrev Octets := Nat → UInt8

/-- `NS_GET16` -/
def nsGet16 (mem : Octets) (pos : Nat) : UInt16 :=
  UInt16.ofNat (256 * (mem pos).toNat + (mem (pos + 1)).toNat)

/-- `NS_GET32` -/
def nsGet32 (mem : Octets) (pos : Nat) : UInt32 :=
  UInt32.ofNat (65536 * (nsGet16 mem pos).toNat + (nsGet16 mem (pos + 2)).toNat)

/-- The sections `ns_s_qd`, `ns_s_an`, `ns_s_ns` and `ns_s_ar`. -/
inductive NsSect
  | qd
  | an
  | ns
  | ar
  deriving DecidableEq, Repr

/-- The section behind, unless that is `ns_s_max`. -/
def NsSect.next : NsSect → Option NsSect
  | .qd => some .an
  | .an => some .ns
  | .ns => some .ar
  | .ar => none

/-- The sections in the order of the message. -/
def NsSect.all : List NsSect := [.qd, .an, .ns, .ar]

/-- `ns_msg`. A section without entries has a null pointer. -/
structure NsMsg where
  eom : Nat
  id : UInt16
  flags : UInt16
  counts : NsSect → UInt16
  sections : NsSect → Option Nat
  /-- `none` stands for `ns_s_max`. -/
  sect : Option NsSect
  rrnum : Int
  msgPtr : Option Nat

/-- `ns_rr`; the data are given by their position. -/
structure NsRr where
  name : Bytes
  type : UInt16
  rrClass : UInt16
  ttl : UInt32
  rdlength : UInt16
  rdata : Option Nat
  deriving DecidableEq, Repr

/-- `ns_rr_name` -/
def NsRr.nsRrName (rr : NsRr) : Bytes := if rr.name = [] then [46] else rr.name

/-- `none` stands for -1. -/
def localNsLabellen (mem : Octets) (lp : Nat) : Option Nat :=
  if mem lp &&& 0xc0 = 0xc0 then none
  else if mem lp &&& 0xc0 = 0x40 then
    if mem lp = 0x41 then
      -- The length in bits may be read behind the message.
      let bitlen := if mem (lp + 1) = 0 then 256 else (mem (lp + 1)).toNat
      some ((bitlen + 7) / 8 + 1)
    else none
  else some (mem lp).toNat

/-- The position behind a name. -/
def localNsNameSkip (mem : Octets) (eom cp : Nat) : Option Nat :=
  if cp < eom then
    if mem cp = 0 then some (cp + 1)
    -- normal case
    else if mem cp &&& 0xc0 = 0 then localNsNameSkip mem eom (cp + 1 + (mem cp).toNat)
    -- EDNS0 extended label
    else if mem cp &&& 0xc0 = 0x40 then
      match localNsLabellen mem cp with
      | none => none
      | some l => localNsNameSkip mem eom (cp + 1 + l)
    -- indirection
    else if mem cp &&& 0xc0 = 0xc0 then if cp + 2 > eom then none else some (cp + 2)
    else none
  -- A name that runs up to the end of the message passes without an end of its own.
  else if cp > eom then none
  else some cp
termination_by eom - cp

/-- The loop's body in `local_ns_skiprr`. -/
def skipRr (mem : Octets) (eom : Nat) (section_ : NsSect) (ptr : Nat) : Option Nat :=
  (localNsNameSkip mem eom ptr).bind fun behind =>
    if section_ = .qd then some (behind + 4)
    else if behind + 10 > eom then none
    else some (behind + 10 + (nsGet16 mem (behind + 8)).toNat)

/-- The length of `count` entries of a section. -/
def localNsSkiprr (mem : Octets) (eom : Nat) (section_ : NsSect) (count ptr : Nat) : Option Nat :=
  (skipMany (skipRr mem eom section_) count ptr).bind fun next =>
    if next > eom then none else some (next - ptr)

/-- The loop of `local_ns_initparse` over the sections. -/
def parseSections (mem : Octets) (eom : Nat) (counts : NsSect → UInt16) :
    List NsSect → (NsSect → Option Nat) → Nat → Option ((NsSect → Option Nat) × Nat)
  | [], sections, msg => some (sections, msg)
  | section_ :: rest, sections, msg =>
      if counts section_ = 0 then
        parseSections mem eom counts rest (Function.update sections section_ none) msg
      else
        (localNsSkiprr mem eom section_ (counts section_).toNat msg).bind fun b =>
          parseSections mem eom counts rest (Function.update sections section_ (some msg)) (msg + b)

namespace NsMsg

/-- `local_ns_setsection` -/
def setSection (handle : NsMsg) : Option NsSect → NsMsg
  | none => { handle with sect := none, rrnum := -1, msgPtr := none }
  | some sect => { handle with sect, rrnum := 0, msgPtr := handle.sections sect }

/-- The counts in the header of a message. -/
def readCounts (mem : Octets) : NsSect → UInt16
  | .qd => nsGet16 mem 4
  | .an => nsGet16 mem 6
  | .ns => nsGet16 mem 8
  | .ar => nsGet16 mem 10

/-- `local_ns_initparse` -/
def initparse (mem : Octets) (msglen : Nat) : Option NsMsg :=
  -- The test is made anew for each of the six words.
  if msglen < 12 then none
  else
    (parseSections mem msglen (readCounts mem) NsSect.all (fun _ => none) 12).bind
      fun parsed =>
        if parsed.2 = msglen then
          some ⟨msglen, nsGet16 mem 0, nsGet16 mem 2, readCounts mem, parsed.1, none, -1, none⟩
        else none

/-- What follows the name in `local_ns_parserr`, from `ptr` on. -/
def parseFields (mem : Octets) (handle : NsMsg) (section_ : NsSect) (name : Bytes) (ptr : Nat) :
    NsMsg × Option NsRr :=
  let counted (behind : Nat) : NsMsg :=
    let handle := { handle with msgPtr := some behind, rrnum := handle.rrnum + 1 }
    if handle.rrnum > (handle.counts section_).toNat then handle.setSection section_.next
    else handle
  if ptr + 4 > handle.eom then ({ handle with msgPtr := some ptr }, none)
  else if section_ = .qd then
    (counted (ptr + 4), some ⟨name, nsGet16 mem ptr, nsGet16 mem (ptr + 2), 0, 0, none⟩)
  else if ptr + 10 > handle.eom then ({ handle with msgPtr := some (ptr + 4) }, none)
  else
    let rdlength := nsGet16 mem (ptr + 8)
    if ptr + 10 + rdlength.toNat > handle.eom then
      ({ handle with msgPtr := some (ptr + 10) }, none)
    else
      (counted (ptr + 10 + rdlength.toNat), some ⟨name, nsGet16 mem ptr, nsGet16 mem (ptr + 2),
        nsGet32 mem (ptr + 4), rdlength, some (ptr + 10)⟩)

/-- The handle at an entry of a section, or none if there is no such entry or it is not reached. -/
def seek (mem : Octets) (handle : NsMsg) (section_ : NsSect) (rrnum : Int) :
    NsMsg × Option Nat :=
  -- Make section right.
  let handle := if handle.sect = some section_ then handle else handle.setSection (some section_)
  -- Make rrnum right.
  let rrnum := if rrnum = -1 then handle.rrnum else rrnum
  if rrnum < 0 ∨ rrnum ≥ (handle.counts section_).toNat then (handle, none)
  else
    let handle := if rrnum < handle.rrnum then handle.setSection (some section_) else handle
    match handle.msgPtr with
    -- no entry stands at a null pointer
    | none => (handle, none)
    | some ptr =>
        if rrnum > handle.rrnum then
          match localNsSkiprr mem handle.eom section_ (rrnum - handle.rrnum).toNat ptr with
          | none => (handle, none)
          | some b => ({ handle with msgPtr := some (ptr + b), rrnum }, some (ptr + b))
        else (handle, some ptr)

/-- `local_ns_parserr`. `dn_expand` gives the length of the name at a position, and the name. -/
def parserr (dnExpand : Octets → Nat → Nat → Option (Nat × Bytes)) (mem : Octets) (handle : NsMsg)
    (section_ : NsSect) (rrnum : Int) : NsMsg × Option NsRr :=
  match handle.seek mem section_ rrnum with
  | (handle, none) => (handle, none)
  | (handle, some ptr) =>
      match dnExpand mem handle.eom ptr with
      | none => (handle, none)
      | some (b, name) => handle.parseFields mem section_ name (ptr + b)

end NsMsg

end Sharpvpn
