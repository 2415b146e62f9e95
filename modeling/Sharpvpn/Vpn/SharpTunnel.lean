import Sharpvpn.Vpn.Chinadns
import Sharpvpn.Vpn.UserTable

/-!
# The addresses of the tunnel

The server takes its tunnel address from its configuration and gives clients the addresses
that follow it. A client takes the first address of its network to be the server's.
-/

namespace Sharpvpn

/-- The requests of `set_ip` to the kernel. -/
inductive Ioctl
  | siocsifaddr (address : UInt32)
  | siocsifmtu (mtu : Int)
  | siocsifnetmask (netmask : UInt32)
  /-- Sets `IFF_UP`. -/
  | siocsifflags
  deriving DecidableEq

structure SharpTunnel where
  ipAddress : Bytes
  mtu : Int
  tunnelIp : UInt32 := 0
  tunnelGateway : Bytes := []
  deriving DecidableEq

namespace SharpTunnel

/-- What both forms of `set_ip` ask of the kernel. -/
def configure (ioctl : Ioctl → Bool) (tunnel : SharpTunnel) (address : UInt32) : Int :=
  let netmask := inetPton (ascii "255.255.255.0") 0
  if !ioctl (.siocsifaddr address) then -1
  else if !ioctl (.siocsifmtu tunnel.mtu) then -1
  else if netmask.1 = 0 then -1
  else if !ioctl (.siocsifnetmask netmask.2) then -1
  else if !ioctl .siocsifflags then -1
  else 0

/-- `set_ip()`, on the server. -/
def setIp (ioctl : Ioctl → Bool) (tunnel : SharpTunnel) : Int × SharpTunnel :=
  let parsed := inetPton tunnel.ipAddress 0
  -- the address is kept also when it is refused
  let next := { tunnel with tunnelIp := ntohl parsed.2 }
  if parsed.1 = 0 then (-1, next)
  else if parsed.1 = -1 then (-1, next)
  else (next.configure ioctl parsed.2, next)

/-- `set_ip(uint32_t)`, on a client. -/
def setIpTo (ioctl : Ioctl → Bool) (ip : UInt32) (tunnel : SharpTunnel) : Int × SharpTunnel :=
  if tunnel.configure ioctl ip = -1 then (-1, tunnel)
  else (0, { tunnel with tunnelGateway := inetNtoa (htonl (ntohl (ip &&& 0xffffff) + 1)) })

/-- A server that runs has the address of its configuration. -/
theorem tunnelIp_of_setIp {ioctl : Ioctl → Bool} {tunnel next : SharpTunnel}
    (hset : tunnel.setIp ioctl = (0, next)) :
    inetPton tunnel.ipAddress 0 = (1, htonl next.tunnelIp) := by
  unfold setIp inetPton at *
  cases hquad : parseQuad (cString tunnel.ipAddress) with
  | none => simp [hquad] at hset
  | some address =>
      simp only [hquad] at hset ⊢
      obtain ⟨-, rfl⟩ := Prod.mk.inj hset
      rw [ntohl, htonl_htonl]

end SharpTunnel

/-- An address that `get_useable_ip` finds is unused, in the network of the server's, and
leads the client to the server's. -/
structure AddressUsable (tunnelIp : UInt32) (ipMap : UInt32 → Option (Option Nat))
    (address : UInt32) : Prop where
  unused : ipMap address = none
  network : ntohl address &&& 0xffffff00 = tunnelIp &&& 0xffffff00
  octet : 1 ≤ (ntohl address).toNat % 256 ∧ (ntohl address).toNat % 256 ≤ 254
  notServer : ntohl address ≠ tunnelIp
  gateway : ∀ ioctl client next, SharpTunnel.setIpTo ioctl address client = (0, next) →
    next.tunnelGateway = inetNtoa (htonl tunnelIp)

section Addresses

variable {tunnelIp : UInt32} {ipMap : UInt32 → Option (Option Nat)} {i : Nat}

theorem toNat_and_network (address : UInt32) :
    (address &&& 0xffffff00).toNat = address.toNat / 256 * 256 := by
  have hlt := address.toNat_lt
  rw [UInt32.toNat_and]
  apply Nat.eq_of_testBit_eq
  intro bit
  have hmask : (0xffffff00 : UInt32).toNat = (2 ^ 24 - 1) * 2 ^ 8 := rfl
  have hdiv : address.toNat / 256 * 256 = address.toNat / 2 ^ 8 * 2 ^ 8 := rfl
  rw [hmask, hdiv, Nat.testBit_and, Nat.testBit_mul_two_pow, Nat.testBit_mul_two_pow,
    Nat.testBit_two_pow_sub_one, Nat.testBit_div_two_pow]
  by_cases hlow : 8 ≤ bit
  · by_cases hhigh : bit < 32
    · have hbit : bit - 8 + 8 = bit := by omega
      have hin : bit - 8 < 24 := by omega
      simp [hlow, hin, hbit]
    · have hzero : address.toNat.testBit bit = false :=
        Nat.testBit_lt_two_pow (hlt.trans_le (Nat.pow_le_pow_right (by decide) (by omega)))
      have hbit : bit - 8 + 8 = bit := by omega
      simp [hzero, hbit]
  · simp [hlow]

theorem ntohl_proposedIp : ntohl (proposedIp tunnelIp i) = tunnelIp + UInt32.ofNat i :=
  htonl_htonl _

theorem htonl_inj {a b : UInt32} : htonl a = htonl b ↔ a = b := by
  constructor
  · intro heq
    rw [← htonl_htonl a, heq, htonl_htonl]
  · rintro rfl
    rfl

theorem inetNtoa_inj {a b : UInt32} : inetNtoa a = inetNtoa b ↔ a = b := by
  constructor
  · intro heq
    have htext := inetPton_inetNtoa a 0
    rw [heq, inetPton_inetNtoa] at htext
    exact (Prod.mk.inj htext).2.symm
  · rintro rfl
    rfl

/-- What the client computes from an address in the server's byte order. -/
theorem gateway_htonl (ip : UInt32) :
    ntohl (htonl ip &&& 0xffffff) = ip &&& 0xffffff00 := by
  rw [ntohl, htonl_and, htonl_htonl]
  rfl

theorem toNat_add_of_lt (htunnel : tunnelIp.toNat + i < 2 ^ 32) :
    (tunnelIp + UInt32.ofNat i).toNat = tunnelIp.toNat + i := by
  rw [UInt32.toNat_add, UInt32.toNat_ofNat', Nat.add_mod_mod]
  exact Nat.mod_eq_of_lt htunnel

/-- The address found, unless it is 0, is one of those looked at, and not in use. -/
theorem getUseableIp_eq (hnonzero : getUseableIp tunnelIp ipMap ≠ 0) :
    ∃ i < 200, 1 ≤ i ∧ getUseableIp tunnelIp ipMap = proposedIp tunnelIp i ∧
      ipMap (proposedIp tunnelIp i) = none ∧
      ∀ j < i, 1 ≤ j → ipMap (proposedIp tunnelIp j) ≠ none := by
  unfold getUseableIp at hnonzero ⊢
  cases hfind : (List.range' 1 199).find? fun i => (ipMap (proposedIp tunnelIp i)).isNone with
  | none => simp [hfind] at hnonzero
  | some i =>
      rw [List.find?_range'_eq_some] at hfind
      obtain ⟨hnone, hrange, hused⟩ := hfind
      obtain ⟨hle, hlt⟩ := List.mem_range'_1.mp hrange
      refine ⟨i, hlt, hle, rfl, by simpa using hnone, fun j hhigh hlow => ?_⟩
      simpa [Option.isSome_iff_ne_none] using hused j hlow hhigh

theorem getUseableIp_ne_zero : getUseableIp tunnelIp ipMap ≠ 0 ↔ FreeAddress tunnelIp ipMap := by
  constructor
  · intro hnonzero
    obtain ⟨i, hlt, hle, heq, hnone, hused⟩ := getUseableIp_eq hnonzero
    exact ⟨i, hlt, hle, hnone, heq ▸ hnonzero, hused⟩
  · exact fun hfree => hfree.getUseableIp.2

/-- The network's first address is the server's just when its last octet is 1. -/
theorem gateway_of_octet (hi : i < 200) (hoctet : tunnelIp.toNat % 256 = 1) :
    (tunnelIp + UInt32.ofNat i) &&& 0xffffff00 = tunnelIp &&& 0xffffff00 ∧
      (tunnelIp &&& 0xffffff00) + 1 = tunnelIp := by
  have hlt := tunnelIp.toNat_lt
  have hsum : (tunnelIp + UInt32.ofNat i).toNat = tunnelIp.toNat + i :=
    toNat_add_of_lt (by omega)
  constructor
  · apply UInt32.toNat_inj.mp
    rw [toNat_and_network, toNat_and_network, hsum]
    omega
  · apply UInt32.toNat_inj.mp
    rw [UInt32.toNat_add, toNat_and_network, UInt32.toNat_one]
    omega

theorem octet_of_gateway {address : UInt32} (hgateway : (address &&& 0xffffff00) + 1 = tunnelIp) :
    tunnelIp.toNat % 256 = 1 := by
  rw [← hgateway, UInt32.toNat_add, toNat_and_network, UInt32.toNat_one]
  omega

/-- An address that follows one with last octet 1 in its network is usable. -/
theorem addressUsable_of_octet (hoctet : tunnelIp.toNat % 256 = 1) (hlt : i < 200) (hle : 1 ≤ i)
    (hnone : ipMap (proposedIp tunnelIp i) = none) :
    AddressUsable tunnelIp ipMap (proposedIp tunnelIp i) := by
  have htunnel := tunnelIp.toNat_lt
  have hsum : (tunnelIp + UInt32.ofNat i).toNat = tunnelIp.toNat + i :=
    toNat_add_of_lt (by omega)
  obtain ⟨hnetwork, hfirst⟩ := gateway_of_octet hlt hoctet
  refine ⟨hnone, ?_, ?_, ?_, ?_⟩
  · rw [ntohl_proposedIp, hnetwork]
  · rw [ntohl_proposedIp, hsum]
    omega
  · rw [ntohl_proposedIp]
    intro heq
    rw [heq] at hsum
    omega
  · intro ioctl client next hset
    unfold SharpTunnel.setIpTo at hset
    split at hset
    next => cases hset
    next =>
      obtain ⟨-, rfl⟩ := Prod.mk.inj hset
      rw [proposedIp, gateway_htonl, hnetwork, hfirst]

/-- The gateway the client computes shows the last octet of the server's address. -/
theorem AddressUsable.octet_eq {address : UInt32}
    (husable : AddressUsable tunnelIp ipMap address) : tunnelIp.toNat % 256 = 1 := by
  have hgateway := husable.gateway (fun _ => true) ⟨[], 0, 0, []⟩ _ rfl
  rw [inetNtoa_inj, htonl_inj, ← htonl_htonl address, gateway_htonl] at hgateway
  exact octet_of_gateway hgateway

/-- The addresses that are given out are usable just when the last octet of the server's is
1, or none can be given out. -/
theorem addressUsable_iff :
    (getUseableIp tunnelIp ipMap ≠ 0 →
        AddressUsable tunnelIp ipMap (getUseableIp tunnelIp ipMap)) ↔
      tunnelIp.toNat % 256 = 1 ∨ ¬FreeAddress tunnelIp ipMap := by
  constructor
  · intro husable
    by_cases hfree : FreeAddress tunnelIp ipMap
    · exact .inl (husable (getUseableIp_ne_zero.mpr hfree)).octet_eq
    · exact .inr hfree
  · rintro (hoctet | hnone) hnonzero
    · obtain ⟨i, hlt, hle, heq, hunused, -⟩ := getUseableIp_eq hnonzero
      rw [heq]
      exact addressUsable_of_octet hoctet hlt hle hunused
    · exact absurd (getUseableIp_ne_zero.mp hnonzero) hnone

/-- A server at 10.7.0.100 gives its first client the address 10.7.0.101, and the client takes
10.7.0.1 to be the server. -/
theorem not_addressUsable_hundred : ∃ tunnel : SharpTunnel,
    (SharpTunnel.mk (ascii "10.7.0.100") 1408 0 []).setIp (fun _ => true) = (0, tunnel) ∧
      ¬(getUseableIp tunnel.tunnelIp (fun _ => none) ≠ 0 →
        AddressUsable tunnel.tunnelIp (fun _ => none)
          (getUseableIp tunnel.tunnelIp fun _ => none)) := by
  refine ⟨⟨ascii "10.7.0.100", 1408, 0x0a070064, []⟩, by decide, ?_⟩
  intro husable
  have hoctet := (husable (by decide)).octet_eq
  exact absurd hoctet (by decide)

end Addresses

end Sharpvpn
