import Mathlib.Data.List.Sort
import Mathlib.Tactic.IntervalCases
import Sharpvpn.Foundation.Bisection
import Sharpvpn.Vpn.TearDown

/-!
# Which addresses the DNS side takes for direct

The DNS filter reads the file of networks by itself, sorts it by address and looks for the one
network that may hold an address. The routing side adds a route for every line.
-/

namespace Sharpvpn

open Foundation

/-- `mask` has the bits that are free within the network. -/
structure NetMask where
  net : UInt32
  mask : UInt32
  deriving DecidableEq, Repr

/-- What `fgets` puts into a buffer of 32 bytes, call after call; for the first one there is
room for `room` bytes more. -/
def fgetsLines (room : Nat) : Bytes → List Bytes
  | [] => []
  | byte :: rest =>
      -- A line longer than the buffer comes in pieces.
      if byte = 10 ∨ room = 1 then [byte] :: fgetsLines 31 rest
      else
        match fgetsLines (room - 1) rest with
        | [] => [[byte]]
        | piece :: pieces => (byte :: piece) :: pieces

def cmpNetMask (a b : NetMask) : Int :=
  if a.net = b.net then 0 else if ntohl a.net > ntohl b.net then 1 else -1

/-- The piece without its end of line. -/
def lineText (piece : Bytes) : Bytes := ((cString piece).takeWhile (· ≠ 13)).takeWhile (· ≠ 10)

/-- An entry of `chnroute_list`, unless `inet_aton` refuses the address. -/
def parseNet (piece : Bytes) : Option NetMask :=
  let text := lineText piece
  let mask :=
    match text.dropWhile (· ≠ 47) with
    -- No bit is fixed where the line has no slash.
    | [] => 0xffffffff
    | _ :: number => 1 <<< UInt32.ofInt (32 - atoi number) - 1
  (inetAton (text.takeWhile (· ≠ 47))).map fun net => ⟨net, mask⟩

/-- `none` if a line is refused. -/
def parseChnroute (qsort : List NetMask → List NetMask) (content : Bytes) :
    Option (List NetMask) :=
  ((fgetsLines 31 content).mapM parseNet).map qsort

/-- The comparison of the search in `test_ip_in_list`. -/
def netAbove (ip : UInt32) (net : NetMask) : Bool := cmpNetMask ⟨ip, 0⟩ net = -1

def testIpInList (ip : UInt32) (netlist : List NetMask) : Int :=
  match netlist[bisect (aboveAt (netAbove ip) netlist) 0 (netlist.length - 1)]? with
  | none => 0
  | some net =>
      if (ntohl net.net ^^^ ntohl ip) &&& (0xffffffff ^^^ net.mask) ≠ 0 then 0 else 1

/-- A dotted quad, and one to three digits that say a length. -/
structure NetworkLine (line quad digits : Bytes) : Prop where
  text : line = quad ++ 47 :: digits
  isQuad : (parseQuad quad).isSome
  allDigits : ∀ byte ∈ digits, isDigit byte
  pos : 0 < digits.length
  short : digits.length ≤ 3
  one_le : 1 ≤ numberValue 10 digits
  le_32 : numberValue 10 digits ≤ 32

def NetMask.Covers (net : NetMask) (ip : UInt32) : Prop :=
  (ntohl net.net ^^^ ntohl ip) &&& (0xffffffff ^^^ net.mask) = 0

instance (net : NetMask) (ip : UInt32) : Decidable (net.Covers ip) :=
  inferInstanceAs (Decidable (_ = _))

section Words

/-- Where `htonl` takes a bit from. -/
def swapIndex (i : Nat) : Nat := 24 - 8 * (i / 8) + i % 8

theorem htonl_bit (word : UInt32) {i : Nat} (hi : i < 32) :
    (htonl word).toBitVec.getLsbD i = word.toBitVec.getLsbD (swapIndex i) := by
  unfold htonl
  simp only [UInt32.toBitVec_or, UInt32.toBitVec_and, UInt32.toBitVec_shiftLeft,
    UInt32.toBitVec_shiftRight]
  interval_cases i <;> simp [swapIndex]

theorem swapIndex_lt {i : Nat} (hi : i < 32) : swapIndex i < 32 := by
  unfold swapIndex
  omega

theorem swapIndex_swapIndex {i : Nat} (hi : i < 32) : swapIndex (swapIndex i) = i := by
  unfold swapIndex
  omega

theorem word_ext {a b : UInt32}
    (hbits : ∀ i < 32, a.toBitVec.getLsbD i = b.toBitVec.getLsbD i) : a = b :=
  UInt32.toBitVec_inj.mp (BitVec.eq_of_getLsbD_eq hbits)

theorem htonl_and (a b : UInt32) : htonl (a &&& b) = htonl a &&& htonl b := by
  apply word_ext
  intro i hi
  rw [htonl_bit _ hi, UInt32.toBitVec_and, UInt32.toBitVec_and, BitVec.getLsbD_and,
    BitVec.getLsbD_and, htonl_bit _ hi, htonl_bit _ hi]

theorem htonl_xor (a b : UInt32) : htonl (a ^^^ b) = htonl a ^^^ htonl b := by
  apply word_ext
  intro i hi
  rw [htonl_bit _ hi, UInt32.toBitVec_xor, UInt32.toBitVec_xor, BitVec.getLsbD_xor,
    BitVec.getLsbD_xor, htonl_bit _ hi, htonl_bit _ hi]

theorem htonl_htonl (word : UInt32) : htonl (htonl word) = word := by
  apply word_ext
  intro i hi
  rw [htonl_bit _ hi, htonl_bit _ (swapIndex_lt hi), swapIndex_swapIndex hi]

theorem htonl_eq_zero (word : UInt32) : htonl word = 0 ↔ word = 0 := by
  constructor
  · intro hzero
    rw [← htonl_htonl word, hzero]
    rfl
  · rintro rfl
    rfl

end Words

section Lines

/-- Short lines are read piece by piece. -/
theorem fgetsLines_eq {content : Bytes} {room : Nat} (hpos : 0 < room)
    (hroom : ∀ first ∈ (fileLines content).head?, first.length < room)
    (hshort : ∀ line ∈ fileLines content, line.length < 31) :
    (fgetsLines room content).map (·.takeWhile (· ≠ 10)) = fileLines content := by
  induction content generalizing room with
  | nil => rfl
  | cons byte rest ih =>
      unfold fgetsLines
      unfold fileLines at hroom hshort ⊢
      by_cases hend : byte = 10
      · rw [if_pos hend] at hroom hshort ⊢
        rw [if_pos (.inl hend), List.map_cons, ih (by omega)
          (fun first hfirst => hshort first (List.mem_cons_of_mem _ (List.mem_of_mem_head? hfirst)))
          (fun line hline => hshort line (List.mem_cons_of_mem _ hline)), hend]
        rfl
      · rw [if_neg hend] at hroom hshort ⊢
        have hmore : 1 < room := by
          split at hroom
          next => exact hroom [byte] rfl
          next line lines hlines =>
            have hline := hroom (byte :: line) rfl
            rw [List.length_cons] at hline
            omega
        have hrest : (fgetsLines (room - 1) rest).map (·.takeWhile (· ≠ 10)) = fileLines rest := by
          apply ih (by omega)
          · intro first hfirst
            split at hroom
            next hnone =>
              rw [hnone] at hfirst
              cases hfirst
            next line lines hlines =>
              rw [hlines] at hfirst
              obtain rfl := Option.some.inj hfirst
              have hline := hroom (byte :: line) rfl
              rw [List.length_cons] at hline
              omega
          · intro other hother
            split at hshort
            next hnone =>
              rw [hnone] at hother
              cases hother
            next line lines hlines =>
              rw [hlines] at hother
              rcases List.mem_cons.mp hother with rfl | hlater
              · have hline := hshort (byte :: other) List.mem_cons_self
                rw [List.length_cons] at hline
                omega
              · exact hshort other (List.mem_cons_of_mem _ hlater)
        rw [if_neg (not_or.mpr ⟨hend, by omega⟩), ← hrest]
        cases fgetsLines (room - 1) rest with
        | nil => simp [hend]
        | cons piece pieces => simp [hend]

theorem lineText_takeWhile (piece : Bytes) :
    lineText (piece.takeWhile (· ≠ 10)) = lineText piece := by
  unfold lineText cString
  simp only [List.takeWhile_takeWhile]
  congr 1
  funext byte
  grind

theorem parseNet_takeWhile (piece : Bytes) :
    parseNet (piece.takeWhile (· ≠ 10)) = parseNet piece := by
  unfold parseNet
  rw [lineText_takeWhile]

theorem mapM_eq_filterMap {α β : Type} {f : α → Option β} {entries : List α}
    (hsome : ∀ entry ∈ entries, (f entry).isSome) :
    entries.mapM f = some (entries.filterMap f) := by
  induction entries with
  | nil => rfl
  | cons entry rest ih =>
      obtain ⟨value, hvalue⟩ := Option.isSome_iff_exists.mp (hsome entry List.mem_cons_self)
      rw [List.mapM_cons, ih fun other hother => hsome other (List.mem_cons_of_mem _ hother),
        List.filterMap_cons, hvalue]
      rfl

theorem lastSlash_eq {before after : Bytes} (hafter : 47 ∉ after) {bound : Nat}
    (hbound : before.length < bound) :
    lastSlash bound (before ++ 47 :: after) = some before.length := by
  obtain ⟨more, rfl⟩ := Nat.exists_eq_add_of_le hbound
  clear hbound
  induction more with
  | zero => rw [Nat.add_zero, lastSlash_succ, if_pos (by simp)]
  | succ more ih =>
      rw [← Nat.add_assoc, lastSlash_succ, if_neg, ih]
      intro hslash
      rw [List.getElem?_append_right (by omega), show before.length.succ + more - before.length =
        more + 1 by omega, List.getElem?_cons_succ] at hslash
      exact hafter (List.mem_of_getElem? hslash)

variable {line quad digits : Bytes} (hline : NetworkLine line quad digits)

include hline

theorem NetworkLine.byte_ge {byte : UInt8} (hbyte : byte ∈ line) : 46 ≤ byte.toNat := by
  obtain ⟨address, haddress⟩ := Option.isSome_iff_exists.mp hline.isQuad
  rw [hline.text] at hbyte
  rcases List.mem_append.mp hbyte with hquad | hrest
  · exact (isQuadByte_toNat (isQuadByte_of_parseQuad haddress byte hquad)).1
  · rcases List.mem_cons.mp hrest with rfl | hdigit
    · decide
    · have hrange := isDigit_toNat (hline.allDigits byte hdigit)
      omega

theorem NetworkLine.lineText_eq : lineText line = line := by
  have hkeep : ∀ stop : UInt8, stop.toNat < 46 → line.takeWhile (· ≠ stop) = line := by
    intro stop hstop
    refine List.takeWhile_eq_self_iff.mpr fun byte hbyte => decide_eq_true ?_
    rintro rfl
    have hge := hline.byte_ge hbyte
    omega
  unfold lineText cString
  rw [hkeep 0 (by decide), hkeep 13 (by decide), hkeep 10 (by decide)]

theorem NetworkLine.slash_not_mem : 47 ∉ quad ∧ 47 ∉ digits := by
  obtain ⟨address, haddress⟩ := Option.isSome_iff_exists.mp hline.isQuad
  constructor
  · intro hmem
    cases isQuadByte_of_parseQuad haddress 47 hmem
  · intro hmem
    cases hline.allDigits 47 hmem

/-- The length as the DNS side takes it, and as the routing side does. -/
theorem NetworkLine.readings (hshort : line.length < 31) : ∃ address octal,
    (∀ dst, inetPton quad dst = (1, address)) ∧ octal ≤ numberValue 10 digits ∧
      parseNet line =
        some ⟨address, 1 <<< UInt32.ofInt (32 - (numberValue 10 digits : Int)) - 1⟩ ∧
      lineNetwork line = some ⟨quad, (octal : Nat)⟩ := by
  obtain ⟨address, haddress⟩ := Option.isSome_iff_exists.mp hline.isQuad
  obtain ⟨hquad, hdigits⟩ := hline.slash_not_mem
  obtain ⟨hatoi, octal, hle, hstrtol⟩ := number_readings hline.allDigits hline.le_32
  have hstring : cString quad = quad :=
    takeWhile_of_quad (isQuadByte_of_parseQuad haddress) fun byte hbyte => by
      rw [decide_eq_true_eq]
      rintro rfl
      cases hbyte
  have hkeep : ∀ byte ∈ quad, decide (byte ≠ 47) = true := by
    intro byte hbyte
    refine decide_eq_true ?_
    rintro rfl
    exact hquad hbyte
  refine ⟨address, octal, fun dst => ?_, hle, ?_, ?_⟩
  · unfold inetPton
    rw [hstring, haddress]
  · have hbefore : line.takeWhile (· ≠ 47) = quad := by
      rw [hline.text, takeWhile_append_stop (by decide), List.takeWhile_eq_self_iff.mpr hkeep]
    have hafter : line.dropWhile (· ≠ 47) = 47 :: digits := by
      rw [hline.text, List.dropWhile_append_of_pos hkeep]
      rfl
    unfold parseNet
    dsimp only
    rw [hline.lineText_eq, hbefore, hafter, inetAton_of_parseQuad haddress]
    simp only [Option.map_some, hatoi]
  · have hlength : quad.length < 100 := by
      rw [hline.text, List.length_append] at hshort
      omega
    have hdst : ((quad ++ 47 :: digits).takeWhile fun byte => byte ≠ 0 && byte ≠ 47) = quad := by
      rw [takeWhile_append_stop (by decide)]
      refine takeWhile_of_quad (isQuadByte_of_parseQuad haddress) fun byte hbyte => ?_
      rw [Bool.and_eq_true_iff, decide_eq_true_eq, decide_eq_true_eq]
      constructor
      · rintro rfl
        cases hbyte
      · rintro rfl
        cases hbyte
    have hnumber : (quad ++ 47 :: digits).drop (quad.length + 1) = digits := by
      rw [List.drop_append, List.drop_eq_nil_of_le (by omega), Nat.add_sub_cancel_left]
      rfl
    unfold lineNetwork
    rw [hline.text, lastSlash_eq hdigits hlength, Option.map_some]
    unfold Network.after
    rw [hdst, hnumber, hstrtol]

end Lines

section Covers

/-- Both masks of a length leave the same bits. -/
theorem netMask_covers {length : Nat} (hone : 1 ≤ length) (hle : length ≤ 32)
    (address ip : UInt32) :
    (⟨address, 1 <<< UInt32.ofInt (32 - (length : Int)) - 1⟩ : NetMask).Covers ip ↔
      (ip ^^^ address) &&& htonl (prefixMask length) = 0 := by
  have hmask : ∀ length : Nat, length < 33 → 1 ≤ length →
      0xffffffff ^^^ ((1 : UInt32) <<< UInt32.ofInt (32 - (length : Int)) - 1) =
        prefixMask length := by
    decide +kernel
  unfold NetMask.Covers ntohl
  dsimp only
  rw [hmask length (by omega) hone, ← htonl_xor, ← htonl_htonl (prefixMask length), ← htonl_and,
    htonl_eq_zero, UInt32.xor_comm, htonl_htonl]

/-- A network of a shorter prefix covers more. -/
theorem shorter_covers {short long : Nat} (hle : short ≤ long) (hlong : long ≤ 32)
    {word : UInt32} (hword : word &&& htonl (prefixMask long) = 0) :
    word &&& htonl (prefixMask short) = 0 := by
  have hmask : ∀ long : Nat, long < 33 → ∀ short : Nat, short < 33 → short ≤ long →
      prefixMask long &&& prefixMask short = prefixMask short := by
    decide +kernel
  rw [← hmask long (by omega) short (by omega) hle, htonl_and, ← UInt32.and_assoc, hword,
    UInt32.zero_and]

theorem setNetwork_covers {row : RouteRow} (hnetmask : row.netmask = ascii "255.255.255.255")
    (network : Network) (ip : UInt32) :
    ((row.setNetwork network).route false).Covers ip ↔ network.Covers ip := by
  have hmask : (inetPton (ascii "255.255.255.255") 0).2 = 0xffffffff := by decide
  unfold Rtentry.Covers Rtentry.mask RouteRow.route RouteRow.setNetwork Network.Covers Network.mask
  dsimp only
  rw [if_neg Bool.false_ne_true, hnetmask, hmask]

theorem lineNetwork_isSome {text : Bytes} (hslash : 47 ∈ text) (hlength : text.length < 100)
    (buf : Bytes) : (lineNetwork (storeLine text buf)).isSome := by
  obtain ⟨i, hi, hbyte⟩ := List.mem_iff_getElem.mp hslash
  have hmem : i ∈ (List.range 100).filter fun i => (storeLine text buf)[i]? = some 47 := by
    refine List.mem_filter.mpr ⟨List.mem_range.mpr (by omega), decide_eq_true ?_⟩
    unfold storeLine
    rw [List.getElem?_append_left hi, List.getElem?_eq_getElem hi, hbyte]
  unfold lineNetwork lastSlash
  rw [Option.isSome_map, Option.isSome_iff_ne_none, ne_eq, List.getLast?_eq_none_iff]
  exact List.ne_nil_of_mem hmem

/-- A file that has a slash in each line makes one row of every network. -/
theorem lineRows_eq {lines : List Bytes} {buf : Bytes} {row : RouteRow}
    (hlines : ∀ text ∈ lines, 47 ∈ text ∧ text.length < 100) (hbuf : buf.length = 100) :
    lineRows lines buf row = (readNetworks lines buf).map row.setNetwork := by
  induction lines generalizing buf row with
  | nil => rfl
  | cons text rest ih =>
      obtain ⟨⟨hslash, hlength⟩, hrest⟩ := List.forall_mem_cons.mp hlines
      obtain ⟨network, hnetwork⟩ := Option.isSome_iff_exists.mp
        (lineNetwork_isSome hslash hlength buf)
      have hstored := length_storeLine hlength hbuf
      unfold lineRows
      rw [if_pos hlength, readNetworks_cons hlength, hnetwork]
      dsimp only
      rw [scanLine_eq hstored, ih hrest (by rw [List.length_map, hstored]), hnetwork]
      rfl

end Covers

section Agreement

variable {content : Bytes} {qsort : List NetMask → List NetMask}

/-- Every line is a network, and short enough for the buffer. -/
def NetworkFile (content : Bytes) : Prop :=
  ∀ line ∈ fileLines content, line.length < 31 ∧ ∃ quad digits, NetworkLine line quad digits

/-- The memory behind the first line holds a slash. -/
def LeftSlash (content : Bytes) (buf : LineBuffer) : Prop :=
  ∃ first ∈ (fileLines content).head?, 47 ∈ buf.1.drop (first.length + 1)

/-- The entry that the search of the DNS side stops at. -/
def consulted (qsort : List NetMask → List NetMask) (content : Bytes) (ip : UInt32) :
    Option NetMask :=
  lastBelow (fun net => ntohl ip < ntohl net.net) (qsort ((fileLines content).filterMap parseNet))

theorem parseChnroute_eq (hfile : NetworkFile content) :
    parseChnroute qsort content = some (qsort ((fileLines content).filterMap parseNet)) := by
  have hlines : (fgetsLines 31 content).map (·.takeWhile (· ≠ 10)) = fileLines content :=
    fgetsLines_eq (by decide)
      (fun first hfirst => (hfile first (List.mem_of_mem_head? hfirst)).1)
      fun line hline => (hfile line hline).1
  have hpieces : (fgetsLines 31 content).mapM parseNet = (fileLines content).mapM parseNet := by
    rw [← hlines, List.mapM_map]
    congr 1
    funext piece
    exact (parseNet_takeWhile piece).symm
  unfold parseChnroute
  rw [hpieces, mapM_eq_filterMap fun line hline => ?_]
  · rfl
  · obtain ⟨hshort, quad, digits, hform⟩ := hfile line hline
    obtain ⟨address, octal, -, -, hparse, -⟩ := hform.readings hshort
    rw [hparse, Option.isSome_some]

theorem netAbove_iff (ip : UInt32) (net : NetMask) :
    netAbove ip net ↔ ntohl ip < ntohl net.net := by
  unfold netAbove cmpNetMask
  rw [decide_eq_true_eq]
  dsimp only
  split
  next heq => simp [heq]
  next hne =>
    have hwords : ntohl ip ≠ ntohl net.net := fun heq => hne (by
      rw [← htonl_htonl ip, ← htonl_htonl net.net]
      exact congrArg htonl heq)
    have hnat : (ntohl ip).toNat ≠ (ntohl net.net).toNat := fun heq =>
      hwords (UInt32.toNat_inj.mp heq)
    split
    next hgt =>
      rw [gt_iff_lt, UInt32.lt_iff_toNat_lt] at hgt
      refine iff_of_false (by decide) fun hlt => ?_
      rw [UInt32.lt_iff_toNat_lt] at hlt
      omega
    next hle =>
      rw [gt_iff_lt, UInt32.lt_iff_toNat_lt] at hle
      refine iff_of_true rfl (UInt32.lt_iff_toNat_lt.mpr ?_)
      omega

theorem cmpNetMask_le_iff (a b : NetMask) :
    cmpNetMask a b ≤ 0 ↔ ntohl a.net ≤ ntohl b.net := by
  unfold cmpNetMask
  split
  next heq =>
    rw [heq]
    exact iff_of_true le_rfl (UInt32.le_refl _)
  next =>
    split
    next hgt => exact iff_of_false (by decide) (UInt32.not_le.mpr hgt)
    next hnot => exact iff_of_true (by decide) (UInt32.not_lt.mp hnot)

variable (hqsort : ∀ nets, (qsort nets).Perm nets ∧
  (qsort nets).Pairwise fun a b => cmpNetMask a b ≤ 0)

include hqsort

theorem testIpInList_eq_one (ip : UInt32) :
    testIpInList ip (qsort ((fileLines content).filterMap parseNet)) = 1 ↔
      ∃ net ∈ consulted qsort content ip, net.Covers ip := by
  have habove : (netAbove ip) = fun net : NetMask => decide (ntohl ip < ntohl net.net) := by
    funext net
    rw [Bool.eq_iff_iff, netAbove_iff, decide_eq_true_eq]
  have hsorted : (qsort ((fileLines content).filterMap parseNet)).Pairwise fun a b =>
      netAbove ip a → netAbove ip b := by
    refine (hqsort _).2.imp fun {a b} hle ha => ?_
    rw [netAbove_iff] at ha ⊢
    exact UInt32.lt_of_lt_of_le ha ((cmpNetMask_le_iff _ _).mp hle)
  unfold testIpInList
  rw [getElem?_bisect hsorted, habove]
  unfold consulted
  cases lastBelow _ (qsort ((fileLines content).filterMap parseNet)) with
  | none => simp
  | some net =>
      dsimp only
      split
      next hout =>
        refine iff_of_false (by decide) ?_
        rintro ⟨_, hmem, hcovers⟩
        obtain rfl := Option.some.inj hmem
        exact hout hcovers
      next hin => exact iff_of_true rfl ⟨net, rfl, not_not.mp hin⟩

/-- Unless the routing side takes a number from what is left in its buffer, its networks
cover all that the DNS side takes for direct. -/
theorem covered_of_consulted {buf : LineBuffer} (hfile : NetworkFile content)
    (hleft : ¬LeftSlash content buf) {ip : UInt32}
    (hconsulted : ∃ net ∈ consulted qsort content ip, net.Covers ip) :
    ∃ network ∈ readNetworks (fileLines content) buf.1, network.Covers ip := by
  obtain ⟨net, hnet, hcovers⟩ := hconsulted
  have hmem := (hqsort _).1.mem_iff.mp (mem_of_lastBelow hnet)
  obtain ⟨line, hline, hparse⟩ := List.mem_filterMap.mp hmem
  obtain ⟨hshort, quad, digits, hform⟩ := hfile line hline
  obtain ⟨address, octal, hpton, hle, hnet', hnetwork⟩ := hform.readings hshort
  obtain rfl := Option.some.inj (hnet'.symm.trans hparse)
  rw [readNetworks_of_blank fun first hfirst hslash => hleft ⟨first, hfirst, hslash⟩]
  refine ⟨_, List.mem_filterMap.mpr ⟨line, ?_, hnetwork⟩, ?_⟩
  · rw [List.takeWhile_eq_self_iff.mpr fun other hother =>
      decide_eq_true ((hfile other hother).1.trans (by decide))]
    exact hline
  · rw [netMask_covers hform.one_le hform.le_32] at hcovers
    have hshorter := shorter_covers hle hform.le_32 hcovers
    have hsharp : ¬((octal : Nat) : Int) = -1 := by omega
    unfold Network.Covers Network.mask
    dsimp only
    rw [if_neg hsharp, hpton]
    exact hshorter

/-- The sides agree on an address just if it lies in no network of the file, or in the one
that the DNS side consults; and, where a slash is left behind the first line, if the one that
is consulted is not all that holds it. -/
theorem direct_agrees_iff {files : Bytes → Option Bytes} {filename host : Bytes}
    {defaultRoute : RouteRow} {buf : LineBuffer} (hname : filename ≠ [])
    (hopen : files filename = some content) (hfile : NetworkFile content) (ip : UInt32) :
    ((∃ row ∈ fileRows buf files filename (defaultRoute.server host),
        (row.route false).Covers ip) ↔
      (parseChnroute qsort content).map (testIpInList ip) = some 1) ↔
      ((∃ network ∈ readNetworks (fileLines content) buf.1, network.Covers ip) →
        ∃ net ∈ consulted qsort content ip, net.Covers ip) ∧
      (LeftSlash content buf → (∃ net ∈ consulted qsort content ip, net.Covers ip) →
        ∃ network ∈ readNetworks (fileLines content) buf.1, network.Covers ip) := by
  have hroutes : (∃ row ∈ fileRows buf files filename (defaultRoute.server host),
      (row.route false).Covers ip) ↔
      ∃ network ∈ readNetworks (fileLines content) buf.1, network.Covers ip := by
    have hlines : ∀ text ∈ fileLines content, 47 ∈ text ∧ text.length < 100 := by
      intro text htext
      obtain ⟨hshort, quad, digits, hform⟩ := hfile text htext
      refine ⟨?_, hshort.trans (by decide)⟩
      rw [hform.text]
      exact List.mem_append_right _ List.mem_cons_self
    unfold fileRows
    -- Every line has a slash, so each row is the network of its line.
    rw [if_neg hname, hopen, Option.map_some, Option.getD_some, lineRows_eq hlines buf.2]
    constructor
    · rintro ⟨row, hrow, hcovers⟩
      obtain ⟨network, hnetwork, rfl⟩ := List.mem_map.mp hrow
      exact ⟨network, hnetwork, (setNetwork_covers rfl network ip).mp hcovers⟩
    · rintro ⟨network, hnetwork, hcovers⟩
      exact ⟨_, List.mem_map_of_mem hnetwork, (setNetwork_covers rfl network ip).mpr hcovers⟩
  rw [hroutes, parseChnroute_eq hfile, Option.map_some, Option.some_inj,
    testIpInList_eq_one hqsort]
  constructor
  · exact fun hagree => ⟨hagree.mp, fun _ => hagree.mpr⟩
  · rintro ⟨hmp, hmpr⟩
    refine ⟨hmp, fun hconsulted => ?_⟩
    by_cases hleft : LeftSlash content buf
    · exact hmpr hleft hconsulted
    · exact covered_of_consulted hqsort hfile hleft hconsulted

end Agreement

/-- An order that `qsort` may leave. -/
def sortNets (nets : List NetMask) : List NetMask :=
  nets.insertionSort fun a b => ntohl a.net ≤ ntohl b.net

theorem sortNets_qsort (nets : List NetMask) :
    (sortNets nets).Perm nets ∧ (sortNets nets).Pairwise fun a b => cmpNetMask a b ≤ 0 := by
  have htotal : Std.Total fun a b : NetMask => ntohl a.net ≤ ntohl b.net :=
    ⟨fun a b => UInt32.le_total _ _⟩
  have htrans : IsTrans NetMask fun a b => ntohl a.net ≤ ntohl b.net :=
    ⟨fun a b c => UInt32.le_trans⟩
  refine ⟨List.perm_insertionSort _ _, ?_⟩
  exact (List.pairwise_insertionSort _ nets).imp fun {a b} => (cmpNetMask_le_iff a b).mpr

def exampleFile : Bytes := ascii "1.0.1.0/24\n223.0.0.0/8"

theorem exampleFile_lines : NetworkFile exampleFile := by
  have hlines : fileLines exampleFile = [ascii "1.0.1.0/24", ascii "223.0.0.0/8"] := by decide
  unfold NetworkFile
  rw [hlines]
  simp only [List.forall_mem_cons, List.not_mem_nil, false_implies, implies_true, and_true]
  refine ⟨⟨by decide, ascii "1.0.1.0", ascii "24", ?_⟩, by decide, ascii "223.0.0.0", ascii "8", ?_⟩
  · exact ⟨by decide, by decide, List.all_eq_true.mp (by decide), by decide, by decide,
      by decide, by decide⟩
  · exact ⟨by decide, by decide, List.all_eq_true.mp (by decide), by decide, by decide,
      by decide, by decide⟩

/-- The file's routes hold an address. -/
def RoutesHold (ip : UInt32) : Prop :=
  ∃ row ∈ fileRows zeroBuffer (fun _ => some exampleFile) (ascii "chnroute.txt")
    ((defaultRow (octetAddress 192 168 1 1) (ascii "eth0")).server (ascii "203.0.113.9")),
    (row.route false).Covers ip

theorem direct_agrees_first :
    RoutesHold (octetAddress 1 0 1 7) ↔
      (parseChnroute sortNets exampleFile).map (testIpInList (octetAddress 1 0 1 7)) = some 1 := by
  have hconsulted : ∃ net ∈ consulted sortNets exampleFile (octetAddress 1 0 1 7),
      net.Covers (octetAddress 1 0 1 7) := by
    decide +kernel
  have hnetworks : ∃ network ∈ readNetworks (fileLines exampleFile) zeroBuffer.1,
      network.Covers (octetAddress 1 0 1 7) := by
    decide +kernel
  exact (direct_agrees_iff sortNets_qsort (by decide) rfl exampleFile_lines _).mpr
    ⟨fun _ => hconsulted, fun _ _ => hnetworks⟩

/-- The search never looks at the greatest network. -/
theorem greatest_network_not_direct :
    RoutesHold (octetAddress 223 5 5 5) ∧
      (parseChnroute sortNets exampleFile).map (testIpInList (octetAddress 223 5 5 5)) =
        some 0 := by
  unfold RoutesHold
  decide +kernel

end Sharpvpn
