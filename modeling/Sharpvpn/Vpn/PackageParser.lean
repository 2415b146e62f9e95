import Sharpvpn.Vpn.Inet

/-!
# The packages of a tunnel

The forwarder reads packages into one buffer, over what it has read before. It skips what is no
IPv4 package and what goes to a multicast address. A package shorter than the header is judged
with the bytes that older ones have left behind it.
-/

namespace Sharpvpn

inductive IpType
  | ipv4
  | ipv6
  | unknownIpver
  deriving DecidableEq, Repr

/-- What the forwarder uses of the parser; `daddr` is read through `ipv4_hdr`. -/
structure SharpPackageParser where
  daddr : UInt32
  ipType : IpType
  multicast : Bool
  deriving DecidableEq, Repr

namespace SharpPackageParser

/-- The `uint32_t` at an offset, on a little-endian machine. -/
def wordAt (raw : Bytes) (offset : Nat) : UInt32 :=
  octetAddress (raw.getD offset 0).toNat (raw.getD (offset + 1) 0).toNat
    (raw.getD (offset + 2) 0).toNat (raw.getD (offset + 3) 0).toNat

def parsePackage (rawTunnelPackage : Bytes) : SharpPackageParser :=
  let ver := rawTunnelPackage.getD 0 0
  let daddr := wordAt rawTunnelPackage 16
  { daddr
    ipType :=
      if ver &&& 0xf0 = 0x60 then .ipv6
      else if ver &&& 0xf0 = 0x40 then .ipv4
      else .unknownIpver
    multicast := daddr &&& 0x000000f0 == 0x000000e0 }

end SharpPackageParser

/-- `sizeof(ipv4_hdr_t)` -/
def headerBytes : Nat := 20

/-- The buffer after `read` has put a package at its start. -/
def readInto (tunBuf package : Bytes) : Bytes := package ++ tunBuf.drop package.length

/-- The forwarder goes on with what is in its buffer. -/
def passes (tunBuf : Bytes) : Bool :=
  let parser := SharpPackageParser.parsePackage tunBuf
  parser.ipType == .ipv4 && !parser.multicast

/-- The packages the forwarder goes on with, of all those it reads into a buffer. -/
def carried (tunBuf : Bytes) : List Bytes → List Bytes
  | [] => []
  | package :: rest =>
      if passes (readInto tunBuf package) then package :: carried (readInto tunBuf package) rest
      else carried (readInto tunBuf package) rest

/-- The packages that are sent to an address, as far as they carry one. -/
def AddressedTo (address : UInt32) (package : Bytes) : Prop :=
  headerBytes ≤ package.length → (SharpPackageParser.parsePackage package).daddr = address

section Headers

variable {tunBuf package : Bytes}

theorem getD_readInto {index : Nat} (hindex : index < package.length) :
    (readInto tunBuf package).getD index 0 = package.getD index 0 := by
  unfold readInto
  rw [List.getD_eq_getElem?_getD, List.getElem?_append_left hindex, List.getD_eq_getElem?_getD]

theorem take_readInto : (readInto tunBuf package).take package.length = package :=
  List.take_left' rfl

/-- A package with a whole header is judged by its own bytes. -/
theorem parsePackage_readInto (hlength : headerBytes ≤ package.length) :
    SharpPackageParser.parsePackage (readInto tunBuf package) =
      SharpPackageParser.parsePackage package := by
  unfold headerBytes at hlength
  unfold SharpPackageParser.parsePackage SharpPackageParser.wordAt
  rw [getD_readInto (by omega), getD_readInto (by omega), getD_readInto (by omega),
    getD_readInto (by omega), getD_readInto (by omega)]

theorem passes_readInto (hlength : headerBytes ≤ package.length) :
    passes (readInto tunBuf package) = passes package := by
  unfold passes
  rw [parsePackage_readInto hlength]

/-- The masks of the parser, on the first byte of the header and of the address. -/
theorem passes_iff : passes tunBuf = true ↔
    (tunBuf.getD 0 0).toNat / 16 = 4 ∧ (tunBuf.getD 16 0).toNat / 16 ≠ 14 := by
  have hclass : ∀ octet < 256, (octet &&& 240 = 64 ↔ octet / 16 = 4) ∧
      (octet &&& 240 = 96 ↔ octet / 16 = 6) ∧ (octet &&& 240 = 224 ↔ octet / 16 = 14) := by
    decide +kernel
  have hversion : ∀ byte : UInt8, (byte &&& 0xf0 = 0x40 ↔ byte.toNat / 16 = 4) ∧
      (byte &&& 0xf0 = 0x60 ↔ byte.toNat / 16 = 6) := by
    intro byte
    obtain ⟨hfour, hsix, -⟩ := hclass byte.toNat byte.toNat_lt
    simp only [← UInt8.toNat_inj, UInt8.toNat_and]
    exact ⟨hfour, hsix⟩
  have hoctet : ∀ a b c d : Nat, a < 256 →
      (octetAddress a b c d &&& 0x000000f0 = 0x000000e0 ↔ a / 16 = 14) := by
    intro a b c d hlt
    have hle : (octetAddress a b c d).toNat &&& 240 ≤ 240 := Nat.and_le_right
    have hlow := @Nat.and_mod_two_pow (octetAddress a b c d).toNat 240 8
    have hbyte : (octetAddress a b c d).toNat % 2 ^ 8 = a := by
      simp only [octetAddress, UInt32.toNat_ofNat']
      omega
    rw [Nat.mod_eq_of_lt (by omega), hbyte, Nat.mod_eq_of_lt (by decide)] at hlow
    rw [← UInt32.toNat_inj, UInt32.toNat_and, ← (hclass a hlt).2.2]
    exact hlow ▸ Iff.rfl
  have hsix := (hversion (tunBuf.getD 0 0)).2
  have hfour := (hversion (tunBuf.getD 0 0)).1
  have hmulticast := hoctet (tunBuf.getD 16 0).toNat (tunBuf.getD 17 0).toNat
    (tunBuf.getD 18 0).toNat (tunBuf.getD 19 0).toNat (UInt8.toNat_lt _)
  unfold passes SharpPackageParser.parsePackage SharpPackageParser.wordAt
  simp only [Bool.and_eq_true, Bool.not_eq_true', beq_iff_eq, beq_eq_false_iff_ne, ne_eq,
    hmulticast, hsix, hfour]
  refine and_congr_left' ?_
  split
  next hold => exact iff_of_false (by decide) (by omega)
  next =>
    split
    next hnew => exact iff_of_true rfl hnew
    next hnew => exact iff_of_false (by decide) hnew

end Headers

section Reading

variable {tunBuf package : Bytes} {packages more : List Bytes}

theorem carried_append : carried tunBuf (packages ++ more) =
    carried tunBuf packages ++ carried (packages.foldl readInto tunBuf) more := by
  induction packages generalizing tunBuf with
  | nil => rfl
  | cons package rest ih =>
      rw [List.cons_append, carried, carried, List.foldl_cons, ih]
      split <;> rfl

theorem carried_singleton : carried tunBuf [package] =
    if passes (readInto tunBuf package) then [package] else [] := rfl

theorem carried_sublist (tunBuf : Bytes) (packages : List Bytes) :
    (carried tunBuf packages).Sublist packages := by
  induction packages generalizing tunBuf with
  | nil => exact .slnil
  | cons package rest ih =>
      unfold carried
      split
      next => exact (ih _).cons_cons package
      next => exact (ih _).cons package

/-- Packages with whole headers are carried or not one by one. -/
theorem carried_eq_filter (hlength : ∀ package ∈ packages, headerBytes ≤ package.length) :
    carried tunBuf packages = packages.filter passes := by
  induction packages generalizing tunBuf with
  | nil => rfl
  | cons package rest ih =>
      obtain ⟨hfirst, hrest⟩ := List.forall_mem_cons.mp hlength
      rw [carried, List.filter_cons, passes_readInto hfirst, ih hrest]

end Reading

end Sharpvpn
