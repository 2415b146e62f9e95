import Sharpvpn.Vpn.Inet

/-!
# The routing table of the client

`RouteTable` builds `rtentry` requests from rows of text and hands them to the kernel. What
`SIOCADDRT` does with a request is a parameter.
-/

namespace Sharpvpn

structure RouteRow where
  dst : Bytes := []
  netmask : Bytes := []
  netmaskSharp : Int := -1
  gateway : Bytes := []
  dev : Bytes := []

/-- The `rtentry` of the kernel; `host` is `RTF_HOST`. -/
structure Rtentry where
  dst : UInt32
  gateway : UInt32
  genmask : UInt32
  host : Bool
  metric : Nat
  dev : Bytes
  deriving DecidableEq, Repr

/-- The netmask loop of `add_route_row`. Shift counts outside the word wrap around, as on
x86. -/
def prefixMask (netmaskSharp : Int) : UInt32 :=
  (List.range netmaskSharp.toNat).foldl
    (fun (mask : UInt32) (i : Nat) => mask ||| 1 <<< UInt32.ofInt (31 - (i : Int))) 0

/-- The request of `add_route_row` for a row, unless a text is refused. -/
def RouteRow.rtentry (row : RouteRow) (host : Bool) : Option Rtentry :=
  let dst := inetPton row.dst 0
  let gateway := inetPton row.gateway 0
  let netmask :=
    -- -1 says that the mask is given as a text
    if row.netmaskSharp = -1 then inetPton row.netmask 0
    else (1, htonl (prefixMask row.netmaskSharp))
  if dst.1 < 0 ∨ gateway.1 < 0 ∨ netmask.1 < 0 then none
  else some ⟨dst.2, gateway.2, netmask.2, host, 100, row.dev⟩

/-- The object, and the kernel's table beside it. -/
structure RouteTable where
  modified : Bool := false
  tunnelGateway : Bytes := []
  defaultGateway : Bytes := []
  defaultDev : Bytes := []
  routes : List Rtentry := []

/-- What `SIOCADDRT` does to the kernel's table, or its `errno`. -/
abbrev Siocaddrt := Rtentry → List Rtentry → Except Nat (List Rtentry)

/-- `char buf[100]` -/
def LineBuffer := {bytes : Bytes // bytes.length = 100}

/-- The lines of a file, without the ends of lines. -/
def fileLines : Bytes → List Bytes
  | [] => []
  | byte :: rest =>
      if byte = 10 then [] :: fileLines rest
      else
        match fileLines rest with
        | [] => [[byte]]
        | line :: lines => (byte :: line) :: lines

/-- The buffer after `getline` has put a line into it. -/
def storeLine (line buf : Bytes) : Bytes := line ++ 0 :: buf.drop (line.length + 1)

/-- One turn of the loop over the buffer in `set_chnroute`. -/
def scanByte (state : Bytes × RouteRow) (i : Nat) : Bytes × RouteRow :=
  if state.1[i]? = some 47 then
    let buf := state.1.set i 0
    (buf, { state.2 with
      dst := cString buf
      netmaskSharp := intOfLong (strtol (buf.drop (i + 1))) })
  else state

/-- The loop over the buffer in `set_chnroute`. -/
def scanLine (buf : Bytes) (row : RouteRow) : Bytes × RouteRow :=
  (List.range 100).foldl scanByte (buf, row)

namespace RouteTable

variable (siocaddrt : Siocaddrt)

/-- An entry that is already there (`EEXIST`) is no error. -/
def addRouteRow (row : RouteRow) (host : Bool) (table : RouteTable) : RouteTable × Int :=
  match row.rtentry host with
  | none => (table, -1)
  | some route =>
      match siocaddrt route table.routes with
      | .ok routes => ({ table with routes := routes }, 0)
      | .error errno => (table, if errno = 17 then 0 else -1)

/-- The lines that `getline` reads into the buffer, up to one that does not fit. -/
def addChnroutes : List Bytes → Bytes → RouteRow → RouteTable → RouteTable
  | [], _, _, table => table
  | line :: rest, buf, row, table =>
      if line.length < 100 then
        let scanned := scanLine (storeLine line buf) row
        -- The row keeps the last network when a line has none.
        addChnroutes rest scanned.1 scanned.2 (table.addRouteRow siocaddrt scanned.2 false).1
      else table

/-- `defaultRoute` is what `get_default_route` returns, `buf` what the memory of the line
buffer holds, and `files` the files that can be opened. -/
def setChnroute (defaultRoute : RouteRow) (buf : LineBuffer) (files : Bytes → Option Bytes)
    (filename remoteIp : Bytes) (table : RouteTable) : RouteTable × Int :=
  let row := { defaultRoute with
    dst := remoteIp
    netmask := ascii "255.255.255.255"
    netmaskSharp := 32 }
  let table := { table with defaultGateway := row.gateway, defaultDev := row.dev }
  -- The route to the server itself stays outside the tunnel.
  let table := { (table.addRouteRow siocaddrt row true).1 with modified := true }
  if filename = [] then (table, 0)
  else
    match files filename with
    | none => (table, -1)
    | some content => (table.addChnroutes siocaddrt (fileLines content) buf.1 row, 0)

def setDefaultAsTunnel (tunnelName tunnelGateway : Bytes) (table : RouteTable) :
    RouteTable × Int :=
  let row : RouteRow :=
    { dst := ascii "0.0.0.0", netmaskSharp := 1, gateway := tunnelGateway,
      netmask := ascii "128.0.0.0", dev := tunnelName }
  let table := { table with tunnelGateway := tunnelGateway }
  -- Two halves of the address space, more specific than the default route.
  let table := (table.addRouteRow siocaddrt row false).1
  ((table.addRouteRow siocaddrt { row with dst := ascii "128.0.0.0" } false).1, 0)

/-- The client's part of `SharpVpn::run`. `init_table` does nothing on Linux, and no result
is looked at. -/
def startUp (defaultRoute : RouteRow) (buf : LineBuffer) (files : Bytes → Option Bytes)
    (filename host tunnelName tunnelGateway : Bytes) (table : RouteTable) : RouteTable :=
  let table := (table.setChnroute siocaddrt defaultRoute buf files filename host).1
  (table.setDefaultAsTunnel siocaddrt tunnelName tunnelGateway).1

end RouteTable

/-- What a line of the file says: the text before its first slash, and the number after its
last one. -/
structure Network where
  dst : Bytes
  netmaskSharp : Int
  deriving DecidableEq, Repr

def lastSlash (bound : Nat) (buf : Bytes) : Option Nat :=
  ((List.range bound).filter fun i => buf[i]? = some 47).getLast?

def Network.after (buf : Bytes) (slash : Nat) : Network where
  dst := buf.takeWhile fun byte => byte ≠ 0 && byte ≠ 47
  netmaskSharp := intOfLong (strtol (buf.drop (slash + 1)))

/-- `none` if there is no slash. -/
def lineNetwork (buf : Bytes) : Option Network := (lastSlash 100 buf).map (Network.after buf)

def RouteRow.setNetwork (row : RouteRow) (network : Network) : RouteRow :=
  { row with dst := network.dst, netmaskSharp := network.netmaskSharp }

/-- The networks of the lines that fit into the buffer, up to one that does not. The first
line stands in the buffer before what is left there. -/
def readNetworks (lines : List Bytes) (buf : Bytes) : List Network :=
  match lines.takeWhile (·.length < 100) with
  | [] => []
  | first :: rest => (storeLine first buf :: rest).filterMap lineNetwork

section Scan

/-- What is left where a slash stood. -/
def blank (byte : UInt8) : UInt8 := if byte = 47 then 0 else byte

/-- A buffer whose first slashes have been overwritten. -/
def blanked (bound : Nat) (buf : Bytes) : Bytes := (buf.take bound).map blank ++ buf.drop bound

theorem takeWhile_append_stop {p : UInt8 → Bool} {stop : UInt8} (hstop : p stop = false)
    (before after : Bytes) : (before ++ stop :: after).takeWhile p = before.takeWhile p := by
  induction before with
  | nil => rw [List.nil_append, List.takeWhile_cons_of_neg (by simp [hstop]), List.takeWhile_nil]
  | cons byte rest ih => rw [List.cons_append, List.takeWhile_cons, List.takeWhile_cons, ih]

theorem cString_append_zero (before after : Bytes) :
    cString (before ++ 0 :: after) = cString before :=
  takeWhile_append_stop (by decide) before after

theorem cString_map_blank (before after : Bytes) :
    cString (before.map blank) =
      (before ++ 47 :: after).takeWhile fun byte => byte ≠ 0 && byte ≠ 47 := by
  induction before with
  | nil => rfl
  | cons byte rest ih =>
      unfold cString at ih ⊢
      rw [List.map_cons, List.cons_append, List.takeWhile_cons, List.takeWhile_cons, ih]
      by_cases hslash : byte = 47
      · simp [blank, hslash]
      · simp [blank, hslash]

theorem lastSlash_succ (bound : Nat) (buf : Bytes) :
    lastSlash (bound + 1) buf =
      if buf[bound]? = some 47 then some bound else lastSlash bound buf := by
  unfold lastSlash
  rw [List.range_succ, List.filter_append]
  split
  next hslash => simp [hslash]
  next hslash => simp [hslash]

/-- The turns of the loop up to a bound have overwritten the slashes there, and the row says
what follows the last of these. -/
theorem scan_prefix (buf : Bytes) (row : RouteRow) (bound : Nat) (hbound : bound ≤ buf.length) :
    (List.range bound).foldl scanByte (buf, row) = (blanked bound buf,
      ((lastSlash bound buf).map (Network.after buf)).elim row row.setNetwork) := by
  induction bound with
  | zero => simp [blanked, lastSlash]
  | succ bound ih =>
      obtain ⟨before, byte, after, rfl, rfl⟩ :
          ∃ before byte after, buf = before ++ byte :: after ∧ before.length = bound :=
        ⟨buf.take bound, buf[bound], buf.drop (bound + 1), by simp, by simp; omega⟩
      have hblanked : blanked before.length (before ++ byte :: after) =
          before.map blank ++ byte :: after := by
        simp [blanked]
      have hnext : blanked (before.length + 1) (before ++ byte :: after) =
          before.map blank ++ blank byte :: after := by
        simp [blanked, List.take_append, List.drop_append, List.take_of_length_le,
          List.drop_of_length_le]
      rw [List.range_succ, List.foldl_append, ih (by omega), lastSlash_succ, hblanked, hnext]
      simp only [List.foldl_cons, List.foldl_nil, scanByte]
      by_cases hslash : byte = 47
      · subst hslash
        have hset : (before.map blank ++ 47 :: after).set before.length 0 =
            before.map blank ++ 0 :: after := by
          simp
        have hafter : (before.map blank ++ 0 :: after).drop (before.length + 1) = after := by
          simp [List.drop_append]
        have hafter' : (before ++ 47 :: after).drop (before.length + 1) = after := by
          simp [List.drop_append]
        rw [if_pos (by simp), if_pos (by simp), hset, hafter, cString_append_zero,
          cString_map_blank before after]
        simp only [Option.map_some, Option.elim_some, Network.after, hafter']
        cases (lastSlash before.length (before ++ 47 :: after)).map _ with
        | none => rfl
        | some network => rfl
      · rw [if_neg (by simpa using hslash), if_neg (by simpa using hslash)]
        simp [blank, hslash]

theorem scanLine_eq {buf : Bytes} (hlength : buf.length = 100) (row : RouteRow) :
    scanLine buf row = (buf.map blank, (lineNetwork buf).elim row row.setNetwork) := by
  have hscan := scan_prefix buf row 100 (by omega)
  rw [blanked, List.take_of_length_le (by omega), List.drop_of_length_le (by omega),
    List.append_nil] at hscan
  exact hscan

theorem length_storeLine {line buf : Bytes} (hline : line.length < 100) (hbuf : buf.length = 100) :
    (storeLine line buf).length = 100 := by
  simp only [storeLine, List.length_append, List.length_cons, List.length_drop]
  omega

theorem strtol_append_zero (before after : Bytes) :
    strtol (before ++ 0 :: after) = strtol before := by
  unfold strtol
  rw [cString_append_zero]

/-- Where the buffer holds no slash behind the line, the line alone says the network. -/
theorem lineNetwork_storeLine {text buf : Bytes} (hbuf : 47 ∉ buf.drop (text.length + 1)) :
    lineNetwork (storeLine text buf) = lineNetwork text := by
  have hslash : ∀ i : Nat, (storeLine text buf)[i]? = some 47 ↔ text[i]? = some 47 := by
    intro i
    unfold storeLine
    rcases Nat.lt_or_ge i text.length with hlt | hge
    · rw [List.getElem?_append_left hlt]
    · rw [List.getElem?_append_right hge, List.getElem?_eq_none hge]
      constructor
      · intro hbyte
        have hmem := List.mem_of_getElem? hbyte
        rcases List.mem_cons.mp hmem with hzero | hdrop
        · cases hzero
        · exact absurd hdrop hbuf
      · intro hnone
        cases hnone
  have hlast : lastSlash 100 (storeLine text buf) = lastSlash 100 text := by
    unfold lastSlash
    simp only [hslash]
  unfold lineNetwork
  rw [hlast]
  cases hfound : lastSlash 100 text with
  | none => rfl
  | some slash =>
      have hmem := List.mem_of_getLast? hfound
      have hat : text[slash]? = some 47 := by simpa using (List.mem_filter.mp hmem).2
      have hlt : slash < text.length := (List.getElem?_eq_some_iff.mp hat).1
      simp only [Option.map_some, Network.after, storeLine]
      rw [List.drop_append_of_le_length (by omega), strtol_append_zero]
      rw [takeWhile_append_stop (by decide)]

theorem readNetworks_of_blank {lines : List Bytes} {buf : Bytes}
    (hbuf : ∀ first ∈ lines.head?, 47 ∉ buf.drop (first.length + 1)) :
    readNetworks lines buf = (lines.takeWhile (·.length < 100)).filterMap lineNetwork := by
  unfold readNetworks
  split
  next hnone => rw [hnone, List.filterMap_nil]
  next first rest hsome =>
    have hfirst : first ∈ lines.head? := by
      cases lines with
      | nil => cases hsome
      | cons line others =>
          rw [List.takeWhile_cons] at hsome
          split at hsome
          next => exact congrArg some (List.cons.inj hsome).1
          next => cases hsome
    rw [hsome, List.filterMap_cons, List.filterMap_cons, lineNetwork_storeLine (hbuf first hfirst)]

theorem not_mem_blank (buf : Bytes) : 47 ∉ buf.map blank := by
  intro hmem
  obtain ⟨byte, -, hblank⟩ := List.mem_map.mp hmem
  unfold blank at hblank
  split at hblank
  next => cases hblank
  next hslash => exact hslash hblank

/-- The networks of the first line and of the others, which find no slash in the buffer. -/
theorem readNetworks_cons {line : Bytes} (hline : line.length < 100) (rest : List Bytes)
    (buf : Bytes) : readNetworks (line :: rest) buf = (lineNetwork (storeLine line buf)).toList ++
      readNetworks rest ((storeLine line buf).map blank) := by
  rw [readNetworks_of_blank fun _ _ hmem => not_mem_blank _ (List.mem_of_mem_drop hmem)]
  unfold readNetworks
  rw [List.takeWhile_cons_of_pos (by simpa using hline)]
  dsimp only
  rw [List.filterMap_cons]
  cases lineNetwork (storeLine line buf) with
  | none => rfl
  | some network => rfl

end Scan

end Sharpvpn
