import Sharpvpn.Foundation.LongestPrefix
import Sharpvpn.Vpn.RouteTable

/-!
# Which routes the tunnel's own datagrams take

At start-up the client adds a host route for its server, the routes of a file, and two
routes of length 1 through the tunnel that together cover every address. `inet_pton` reads
the server's name for the host route; `getaddrinfo` resolves it for the socket.
-/

namespace Sharpvpn

open Foundation

/-- Every request is inserted. -/
def insertRoute : Siocaddrt := fun route routes => .ok (route :: routes)

def setBits (mask : UInt32) : Nat := (List.range 32).countP fun i => mask.toNat.testBit i

namespace Rtentry

/-- A host route has the whole address as its prefix. -/
def mask (route : Rtentry) : UInt32 := if route.host then 0xffffffff else route.genmask

def prefixLength (route : Rtentry) : Nat := setBits route.mask

def Covers (route : Rtentry) (address : UInt32) : Prop :=
  (address ^^^ route.dst) &&& route.mask = 0

instance (route : Rtentry) (address : UInt32) : Decidable (route.Covers address) :=
  inferInstanceAs (Decidable (_ = _))

end Rtentry

/-- Longest-prefix match sends datagrams for an address to a gateway, whichever of equally
long routes it takes. -/
def SendsTo (routes : List Rtentry) (address gateway : UInt32) : Prop :=
  (∃ route ∈ routes, route.Covers address) ∧
    ∀ route, LongestMatch (·.Covers address) (·.prefixLength) routes route →
      route.gateway = gateway

namespace Network

/-- The length of the prefix; -1 stands for the row's `netmask`, which is 255.255.255.255. -/
def length (network : Network) : Nat :=
  if network.netmaskSharp = -1 then 32 else min network.netmaskSharp.toNat 32

def mask (network : Network) : UInt32 :=
  if network.netmaskSharp = -1 then 0xffffffff else htonl (prefixMask network.netmaskSharp)

def Covers (network : Network) (address : UInt32) : Prop :=
  (address ^^^ (inetPton network.dst 0).2) &&& network.mask = 0

instance (network : Network) (address : UInt32) : Decidable (network.Covers address) :=
  inferInstanceAs (Decidable (_ = _))

end Network

section Requests

theorem inetPton_nonneg (src : Bytes) (dst : UInt32) : ¬(inetPton src dst).1 < 0 := by
  unfold inetPton
  split <;> simp

/-- The request for a row; `inet_pton` refuses no text. -/
def RouteRow.route (row : RouteRow) (host : Bool) : Rtentry :=
  ⟨(inetPton row.dst 0).2, (inetPton row.gateway 0).2,
    if row.netmaskSharp = -1 then (inetPton row.netmask 0).2
    else htonl (prefixMask row.netmaskSharp), host, 100, row.dev⟩

theorem rtentry_eq (row : RouteRow) (host : Bool) : row.rtentry host = some (row.route host) := by
  unfold RouteRow.rtentry RouteRow.route
  by_cases hsharp : row.netmaskSharp = -1
  · simp [hsharp, inetPton_nonneg]
  · simp [hsharp, inetPton_nonneg]

theorem addRouteRow_insert (row : RouteRow) (host : Bool) (table : RouteTable) :
    table.addRouteRow insertRoute row host =
      ({ table with routes := row.route host :: table.routes }, 0) := by
  unfold RouteTable.addRouteRow
  rw [rtentry_eq]
  rfl

/-- The rows of a file are the server's row, if it is in the table already, and those of the
networks of the file. -/
theorem exists_addChnroutes {P : Rtentry → Prop} {lines : List Bytes} {buf : Bytes}
    {row : RouteRow} {table : RouteTable} (hbuf : buf.length = 100)
    (hrow : P (row.route false) → ∃ route ∈ table.routes, P route) :
    (∃ route ∈ (table.addChnroutes insertRoute lines buf row).routes, P route) ↔
      (∃ route ∈ table.routes, P route) ∨
        ∃ network ∈ readNetworks lines buf, P ((row.setNetwork network).route false) := by
  induction lines generalizing buf row table with
  | nil => simp [RouteTable.addChnroutes, readNetworks]
  | cons line rest ih =>
      unfold RouteTable.addChnroutes
      by_cases hline : line.length < 100
      · have hlength := length_storeLine hline hbuf
        rw [if_pos hline, readNetworks_cons hline]
        dsimp only
        rw [scanLine_eq hlength, addRouteRow_insert, ih (by rw [List.length_map, hlength])
          fun hP => ⟨_, List.mem_cons_self, hP⟩]
        cases lineNetwork (storeLine line buf) with
        | none =>
            simp only [Option.elim_none, List.exists_mem_cons_iff, Option.toList_none,
              List.nil_append]
            rw [or_iff_right_of_imp hrow]
        | some network =>
            simp only [Option.elim_some, List.exists_mem_cons_iff, Option.toList_some,
              List.cons_append, List.nil_append]
            rw [@or_comm (P _), or_assoc]
            rfl
      · rw [if_neg hline]
        simp [readNetworks, hline]

/-- No length sets more than the whole mask. -/
theorem prefixMask_of_le {netmaskSharp : Int} (hle : 32 ≤ netmaskSharp) :
    prefixMask netmaskSharp = 0xffffffff := by
  obtain ⟨more, hmore⟩ := Nat.exists_eq_add_of_le (show 32 ≤ netmaskSharp.toNat by omega)
  unfold prefixMask
  rw [hmore]
  clear hmore hle
  induction more with
  | zero => decide
  | succ more ih =>
      rw [Nat.add_succ, List.range_succ, List.foldl_append, ih]
      exact UInt32.neg_one_or

theorem setBits_prefixMask (netmaskSharp : Int) :
    setBits (htonl (prefixMask netmaskSharp)) = min netmaskSharp.toNat 32 := by
  rcases lt_or_ge netmaskSharp 32 with hlt | hge
  · have hshort : ∀ bits < 32, setBits (htonl (prefixMask (bits : Nat))) = bits := by
      decide
    have hsame : prefixMask (netmaskSharp.toNat : Nat) = prefixMask netmaskSharp := by
      unfold prefixMask
      rw [Int.toNat_natCast]
    rw [← hsame, hshort _ (by omega)]
    omega
  · rw [prefixMask_of_le hge]
    have hall : setBits (htonl 0xffffffff) = 32 := by decide
    omega

end Requests

/-- The route of a default gateway in the kernel's table. -/
def defaultRtentry (gateway : UInt32) (metric : Nat) (dev : Bytes) : Rtentry :=
  ⟨0, gateway, 0, false, metric, dev⟩

/-- What `get_default_route` returns for it. -/
def defaultRow (gateway : UInt32) (dev : Bytes) : RouteRow where
  dst := ascii "0.0.0.0"
  netmask := ascii "0.0.0.0"
  gateway := inetNtoa gateway
  dev := dev

/-- The networks of the file that `set_chnroute` is given. -/
def fileNetworks (buf : LineBuffer) (files : Bytes → Option Bytes) (filename : Bytes) :
    List Network :=
  if filename = [] then []
  else ((files filename).map fun content => readNetworks (fileLines content) buf.1).getD []

section Routes

variable {gateway tunnelGateway : UInt32} {dev tunnelName host filename : Bytes}
  {buf : LineBuffer} {files : Bytes → Option Bytes} {table : RouteTable}

def serverRow (gateway : UInt32) (dev host : Bytes) : RouteRow :=
  { defaultRow gateway dev with
    dst := host
    netmask := ascii "255.255.255.255"
    netmaskSharp := 32 }

def tunnelRtentry (dst tunnelGateway : UInt32) (tunnelName : Bytes) : Rtentry :=
  ⟨dst, tunnelGateway, 0x80, false, 100, tunnelName⟩

theorem serverRow_route (isHost : Bool) : (serverRow gateway dev host).route isHost =
    ⟨(inetPton host 0).2, gateway, 0xffffffff, isHost, 100, dev⟩ := by
  have hmask : htonl (prefixMask 32) = 0xffffffff := by decide
  simp [serverRow, defaultRow, RouteRow.route, inetPton_inetNtoa, hmask]

theorem network_route (network : Network) :
    ((serverRow gateway dev host).setNetwork network).route false =
      ⟨(inetPton network.dst 0).2, gateway, network.mask, false, 100, dev⟩ := by
  have hmask : (inetPton (ascii "255.255.255.255") 0).2 = 0xffffffff := by decide
  simp [serverRow, defaultRow, RouteRow.setNetwork, RouteRow.route, inetPton_inetNtoa,
    Network.mask, hmask]

theorem exists_setChnroute {P : Rtentry → Prop}
    (hrow : P ((serverRow gateway dev host).route false) →
      P ((serverRow gateway dev host).route true)) :
    (∃ route ∈ (table.setChnroute insertRoute (defaultRow gateway dev) buf files filename
        host).1.routes, P route) ↔
      P ((serverRow gateway dev host).route true) ∨ (∃ route ∈ table.routes, P route) ∨
        ∃ network ∈ fileNetworks buf files filename,
          P (((serverRow gateway dev host).setNetwork network).route false) := by
  have hserver : ({ defaultRow gateway dev with
      dst := host
      netmask := ascii "255.255.255.255"
      netmaskSharp := 32 } : RouteRow) = serverRow gateway dev host := rfl
  unfold RouteTable.setChnroute fileNetworks
  simp only [hserver, addRouteRow_insert]
  by_cases hname : filename = []
  · simp [hname]
  · simp only [if_neg hname]
    cases files filename with
    | none => simp
    | some content =>
        simp only [Option.map_some, Option.getD_some]
        rw [exists_addChnroutes buf.2 fun hP => ⟨_, List.mem_cons_self, hrow hP⟩,
          List.exists_mem_cons_iff, or_assoc]

theorem exists_startUp {P : Rtentry → Prop}
    (hrow : P ((serverRow gateway dev host).route false) →
      P ((serverRow gateway dev host).route true)) :
    (∃ route ∈ (table.startUp insertRoute (defaultRow gateway dev) buf files filename host
        tunnelName (inetNtoa tunnelGateway)).routes, P route) ↔
      P (tunnelRtentry 0x80 tunnelGateway tunnelName) ∨
        P (tunnelRtentry 0 tunnelGateway tunnelName) ∨
        P ((serverRow gateway dev host).route true) ∨ (∃ route ∈ table.routes, P route) ∨
        ∃ network ∈ fileNetworks buf files filename,
          P (((serverRow gateway dev host).setNetwork network).route false) := by
  have hlow : (inetPton (ascii "0.0.0.0") 0).2 = 0 := by decide
  have hhigh : (inetPton (ascii "128.0.0.0") 0).2 = 0x80 := by decide
  have hmask : htonl (prefixMask 1) = 0x80 := by decide
  unfold RouteTable.startUp RouteTable.setDefaultAsTunnel
  simp only [addRouteRow_insert, List.exists_mem_cons_iff]
  rw [exists_setChnroute hrow]
  simp [RouteRow.route, inetPton_inetNtoa, hlow, hhigh, hmask, tunnelRtentry]

theorem Network.length_eq (network : Network) : setBits network.mask = network.length := by
  unfold Network.mask Network.length
  split
  next => decide
  next => exact setBits_prefixMask _

theorem tunnelRtentry_prefixLength (dst : UInt32) :
    (tunnelRtentry dst tunnelGateway tunnelName).prefixLength = 1 := by
  show setBits 0x80 = 1
  decide

/-- The two routes of the tunnel cover every address between them. -/
theorem tunnel_covers (address : UInt32) :
    (tunnelRtentry 0x80 tunnelGateway tunnelName).Covers address ∨
      (tunnelRtentry 0 tunnelGateway tunnelName).Covers address := by
  show (address ^^^ 0x80) &&& 0x80 = 0 ∨ (address ^^^ 0) &&& 0x80 = 0
  have hbit : ∀ word : UInt32, word &&& 0x80 = 0 ↔ word.toBitVec.getLsbD 7 = false := by
    intro word
    rw [← UInt32.toBitVec_inj, UInt32.toBitVec_and]
    show word.toBitVec &&& BitVec.twoPow 32 7 = 0#32 ↔ _
    rw [BitVec.and_twoPow]
    cases word.toBitVec.getLsbD 7 with
    | true => exact iff_of_false (by decide) (by decide)
    | false => simp
  rw [hbit, hbit, UInt32.toBitVec_xor, UInt32.toBitVec_xor, BitVec.getLsbD_xor, BitVec.getLsbD_xor]
  cases address.toBitVec.getLsbD 7 with
  | true => exact .inl (by decide)
  | false => exact .inr (by decide)

theorem serverRow_covers (isHost : Bool) (address : UInt32) :
    ((serverRow gateway dev host).route isHost).Covers address ↔
      address = (inetPton host 0).2 := by
  rw [serverRow_route]
  unfold Rtentry.Covers Rtentry.mask
  rw [ite_self]
  show (address ^^^ _) &&& -1 = 0 ↔ _
  rw [UInt32.and_neg_one, UInt32.xor_eq_zero_iff]

theorem serverRow_prefixLength (isHost : Bool) :
    ((serverRow gateway dev host).route isHost).prefixLength = 32 := by
  rw [serverRow_route]
  unfold Rtentry.prefixLength Rtentry.mask
  rw [ite_self]
  decide

theorem network_covers (network : Network) (address : UInt32) :
    (((serverRow gateway dev host).setNetwork network).route false).Covers address ↔
      network.Covers address := by
  rw [network_route]
  rfl

theorem network_prefixLength (network : Network) :
    (((serverRow gateway dev host).setNetwork network).route false).prefixLength =
      network.length := by
  rw [network_route]
  exact network.length_eq

/-- The host route of the server: `inet_pton` leaves it at 0.0.0.0 for a name. -/
theorem server_covered (resolve : Bytes → Option UInt32)
    (hresolve : ∀ name address, inetPton name 0 = (1, address) → resolve name = some address)
    {server : UInt32} (hserver : resolve host = some server) :
    server = (inetPton host 0).2 ↔ (inetPton host 0).1 = 1 ∨ server = 0 := by
  have hquad := hresolve host
  unfold inetPton at hquad ⊢
  cases hparse : parseQuad (cString host) with
  | none => simp
  | some address =>
      rw [hparse] at hquad
      have hsame : server = address := Option.some.inj (hserver.symm.trans (hquad address rfl))
      simp [hsame]

section Table

variable {server : UInt32} {metric : Nat} {others : List Rtentry}
  (hothers : ∀ route ∈ others, ¬route.Covers server)
  (hroutes : table.routes = defaultRtentry gateway metric dev :: others)

include hothers hroutes

theorem eq_default_of_covers {route : Rtentry} (hroute : route ∈ table.routes)
    (hcovers : route.Covers server) : route = defaultRtentry gateway metric dev := by
  rw [hroutes] at hroute
  rcases List.mem_cons.mp hroute with hdefault | hother
  · exact hdefault
  · exact absurd hcovers (hothers route hother)

/-- Only the routes of the tunnel do not go to the gateway. -/
theorem prefixLength_of_unwanted {route : Rtentry}
    (hroute : route ∈ (table.startUp insertRoute (defaultRow gateway dev) buf files filename host
      tunnelName (inetNtoa tunnelGateway)).routes)
    (hcovers : route.Covers server) (hnot : ¬route.gateway = gateway) :
    route.prefixLength = 1 := by
  by_contra hlength
  have hsome : ∃ route ∈ (table.startUp insertRoute (defaultRow gateway dev) buf files filename
      host tunnelName (inetNtoa tunnelGateway)).routes, route.Covers server ∧
      ¬route.gateway = gateway ∧ ¬route.prefixLength = 1 :=
    ⟨route, hroute, hcovers, hnot, hlength⟩
  rw [exists_startUp fun hP => ?_] at hsome
  · rcases hsome with htunnel | htunnel | hhost | htable | hfile
    · exact htunnel.2.2 (tunnelRtentry_prefixLength _)
    · exact htunnel.2.2 (tunnelRtentry_prefixLength _)
    · rw [serverRow_route] at hhost
      exact hhost.2.1 rfl
    · obtain ⟨route, hroute, hcovers, hnot, _⟩ := htable
      rw [eq_default_of_covers hothers hroutes hroute hcovers] at hnot
      exact hnot rfl
    · obtain ⟨network, _, _, hnot, _⟩ := hfile
      rw [network_route] at hnot
      exact hnot rfl
  · rw [serverRow_route] at hP
    exact absurd rfl hP.2.1

/-- The routes that are longer than those of the tunnel. -/
theorem exists_longer_iff (resolve : Bytes → Option UInt32)
    (hresolve : ∀ name address, inetPton name 0 = (1, address) → resolve name = some address)
    (hserver : resolve host = some server) :
    (∃ route ∈ (table.startUp insertRoute (defaultRow gateway dev) buf files filename host
      tunnelName (inetNtoa tunnelGateway)).routes, route.Covers server ∧
        1 < route.prefixLength) ↔
      (inetPton host 0).1 = 1 ∨ server = 0 ∨
        ∃ network ∈ fileNetworks buf files filename, 2 ≤ network.length ∧
          network.Covers server := by
  have hdefault : ¬∃ route ∈ table.routes, route.Covers server ∧ 1 < route.prefixLength := by
    rintro ⟨route, hroute, hcovers, hlength⟩
    rw [eq_default_of_covers hothers hroutes hroute hcovers] at hlength
    have hzero : (defaultRtentry gateway metric dev).prefixLength = 0 := by
      show setBits 0 = 0
      decide
    omega
  rw [exists_startUp fun hP => ?_]
  · simp only [tunnelRtentry_prefixLength, lt_irrefl, and_false, false_or, serverRow_covers,
      serverRow_prefixLength, hdefault, network_covers, network_prefixLength]
    rw [and_iff_left (by decide), server_covered resolve hresolve hserver, or_assoc]
    simp only [and_comm, Nat.lt_iff_add_one_le]
  · rw [serverRow_covers, serverRow_prefixLength] at hP ⊢
    exact hP

/-- Datagrams for the server leave through the default gateway, and not through the tunnel,
just if the server is named by a dotted quad (or is 0.0.0.0), or a network of the file
covers it. -/
theorem bypasses_iff (resolve : Bytes → Option UInt32)
    (hresolve : ∀ name address, inetPton name 0 = (1, address) → resolve name = some address)
    (hserver : resolve host = some server) (hgateway : gateway ≠ tunnelGateway) :
    let routes := (table.startUp insertRoute (defaultRow gateway dev) buf files filename host
      tunnelName (inetNtoa tunnelGateway)).routes
    SendsTo routes server gateway ∧ ¬SendsTo routes server tunnelGateway ↔
      (inetPton host 0).1 = 1 ∨ server = 0 ∨
        ∃ network ∈ fileNetworks buf files filename, 2 ≤ network.length ∧
          network.Covers server := by
  intro routes
  have htunnel : ∃ route ∈ routes, route.Covers server ∧ ¬route.gateway = gateway := by
    -- the two routes of the tunnel cover every address between them
    apply (exists_startUp fun hP => ?_).mpr
    · rcases tunnel_covers server with hcovers | hcovers
      · exact .inl ⟨hcovers, hgateway.symm⟩
      · exact .inr (.inl ⟨hcovers, hgateway.symm⟩)
    · rw [serverRow_route] at hP
      exact absurd rfl hP.2
  have hsome : ∃ route ∈ routes, route.Covers server :=
    htunnel.imp fun route hroute => ⟨hroute.1, hroute.2.1⟩
  rw [← exists_longer_iff hothers hroutes resolve hresolve hserver,
    ← longestMatch_wanted_iff
      (fun route => prefixLength_of_unwanted hothers hroutes) htunnel]
  constructor
  · exact fun hsends => hsends.1.2
  · intro hwanted
    refine ⟨⟨hsome, hwanted⟩, fun hsends => hgateway ?_⟩
    obtain ⟨route, hlongest⟩ := exists_longestMatch hsome
    exact (hwanted route hlongest).symm.trans (hsends.2 route hlongest)

end Table

end Routes

/-- A resolver that knows one name besides the dotted quads. -/
def exampleResolve (name : Bytes) : Option UInt32 :=
  if (inetPton name 0).1 = 1 then some (inetPton name 0).2
  else if name = ascii "vpn.example" then some (octetAddress 203 0 113 9)
  else none

theorem exampleResolve_quad (name : Bytes) (address : UInt32)
    (hquad : inetPton name 0 = (1, address)) : exampleResolve name = some address := by
  unfold exampleResolve
  rw [hquad, if_pos rfl]

def zeroBuffer : LineBuffer := ⟨List.replicate 100 0, List.length_replicate⟩

/-- The kernel's table before the start-up. -/
def exampleTable : RouteTable :=
  { routes := [defaultRtentry (octetAddress 192 168 1 1) 100 (ascii "eth0")] }

/-- The start-up with a file of one network, for a server name. -/
def exampleRoutes (host : Bytes) : List Rtentry :=
  (exampleTable.startUp insertRoute (defaultRow (octetAddress 192 168 1 1) (ascii "eth0"))
    zeroBuffer (fun _ => some (ascii "1.0.1.0/24")) (ascii "chnroute.txt") host (ascii "tun0")
    (inetNtoa (octetAddress 10 7 0 1))).routes

theorem bypasses_iff_quad :
    SendsTo (exampleRoutes (ascii "203.0.113.9")) (octetAddress 203 0 113 9)
        (octetAddress 192 168 1 1) ∧
      ¬SendsTo (exampleRoutes (ascii "203.0.113.9")) (octetAddress 203 0 113 9)
        (octetAddress 10 7 0 1) := by
  have hserver : exampleResolve (ascii "203.0.113.9") = some (octetAddress 203 0 113 9) := by
    decide
  exact (bypasses_iff (fun _ hmem => absurd hmem List.not_mem_nil) rfl exampleResolve
    exampleResolve_quad hserver (by decide)).mpr (.inl (by decide))

/-- A server named by a host name is reached through the tunnel. -/
theorem name_routed_into_tunnel :
    exampleResolve (ascii "vpn.example") = some (octetAddress 203 0 113 9) ∧
      SendsTo (exampleRoutes (ascii "vpn.example")) (octetAddress 203 0 113 9)
        (octetAddress 10 7 0 1) ∧
      ¬SendsTo (exampleRoutes (ascii "vpn.example")) (octetAddress 203 0 113 9)
        (octetAddress 192 168 1 1) := by
  have hlongest : ∀ route ∈ exampleRoutes (ascii "vpn.example"),
      route.Covers (octetAddress 203 0 113 9) →
      (∀ other ∈ exampleRoutes (ascii "vpn.example"), other.Covers (octetAddress 203 0 113 9) →
        other.prefixLength ≤ route.prefixLength) →
      route.gateway = octetAddress 10 7 0 1 := by
    decide +kernel
  have hcovered : ∃ route ∈ exampleRoutes (ascii "vpn.example"),
      route.Covers (octetAddress 203 0 113 9) := by
    decide +kernel
  refine ⟨by decide, ⟨hcovered, fun route hroute => ?_⟩, fun hsends => ?_⟩
  · exact hlongest route hroute.mem hroute.covered hroute.longest
  · obtain ⟨route, hroute⟩ := exists_longestMatch hcovered
    have htunnel := hlongest route hroute.mem hroute.covered hroute.longest
    rw [hsends.2 route hroute] at htunnel
    revert htunnel
    decide

end Sharpvpn
