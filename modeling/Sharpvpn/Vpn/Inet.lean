import Mathlib.Data.List.TakeWhile
import Sharpvpn.Crypto

/-!
# Addresses and numbers as text

Addresses are the `s_addr` words of the source: the first octet is the lowest byte, as on a
little-endian machine. Strings of C end at their first zero byte.
-/

namespace Sharpvpn

/-- `htonl` on a little-endian machine. -/
def htonl (value : UInt32) : UInt32 :=
  value <<< 24 ||| value <<< 8 &&& (0xff0000 : UInt32) ||| value >>> 8 &&& (0xff00 : UInt32) |||
    value >>> 24

/-- `ntohl` on a little-endian machine. -/
def ntohl (value : UInt32) : UInt32 := htonl value

/-- A string constant of the source. -/
def ascii (text : String) : Bytes := text.toList.map fun character => UInt8.ofNat character.toNat

/-- The string that starts a buffer. -/
def cString (buf : Bytes) : Bytes := buf.takeWhile (· ≠ 0)

def isDigit (byte : UInt8) : Bool := 48 ≤ byte && byte ≤ 57

/-- The value of a digit or letter as in `strtol`; 255 if it is neither. -/
def digitValue (byte : UInt8) : Nat :=
  if isDigit byte then byte.toNat - 48
  else if 97 ≤ byte && byte ≤ 122 then byte.toNat - 87
  else if 65 ≤ byte && byte ≤ 90 then byte.toNat - 55
  else 255

def numberValue (base : Nat) (digits : Bytes) : Nat :=
  digits.foldl (fun value byte => value * base + digitValue byte) 0

/-- A number up to 255 in decimal without leading zeros. -/
def parseOctet (text : Bytes) : Option Nat :=
  if text ≠ [] ∧ text.all isDigit ∧ (text.head? = some 48 → text.length = 1) ∧
      numberValue 10 text ≤ 255 then
    some (numberValue 10 text)
  else none

def octetAddress (a b c d : Nat) : UInt32 :=
  UInt32.ofNat (a + 256 * (b + 256 * (c + 256 * d)))

/-- A dotted quad. -/
def parseQuad (text : Bytes) : Option UInt32 :=
  match (text.splitOn 46).map parseOctet with
  | [some a, some b, some c, some d] => some (octetAddress a b c d)
  | _ => none

/-- `inet_pton` for `AF_INET`: what it returns, and its output, which it leaves as it was
if the text is no address. -/
def inetPton (src : Bytes) (dst : UInt32) : Int × UInt32 :=
  match parseQuad (cString src) with
  | some address => (1, address)
  | none => (0, dst)

def octetText (octet : Nat) : Bytes :=
  if octet < 10 then [UInt8.ofNat (48 + octet)]
  else if octet < 100 then [UInt8.ofNat (48 + octet / 10), UInt8.ofNat (48 + octet % 10)]
  else [UInt8.ofNat (48 + octet / 100), UInt8.ofNat (48 + octet / 10 % 10),
    UInt8.ofNat (48 + octet % 10)]

def octets (address : UInt32) : List Nat :=
  [address.toNat % 256, address.toNat / 256 % 256, address.toNat / 65536 % 256,
    address.toNat / 16777216]

/-- `inet_ntoa` -/
def inetNtoa (address : UInt32) : Bytes := [46].intercalate ((octets address).map octetText)

/-- The text of a number for `strtol` with base 0: its base, and what follows the mark of it. -/
def numberBase : Bytes → Nat × Bytes
  | 48 :: mark :: digit :: rest =>
      if (mark = 120 ∨ mark = 88) ∧ digitValue digit < 16 then (16, digit :: rest)
      else (8, 48 :: mark :: digit :: rest)
  | 48 :: rest => (8, 48 :: rest)
  | text => (10, text)

def isSpace (byte : UInt8) : Bool := byte == 32 || 9 ≤ byte && byte ≤ 13

/-- `strtol` with base 0 and a 64-bit `long`. -/
def strtol (str : Bytes) : Int :=
  let text := (cString str).dropWhile isSpace
  let negative := text.head? = some 45
  let number := numberBase (if negative ∨ text.head? = some 43 then text.tail else text)
  let value : Int := numberValue number.1 (number.2.takeWhile (digitValue · < number.1))
  if negative then max (-value) (-9223372036854775808) else min value 9223372036854775807

/-- The conversion of a `long` to `int`. -/
def intOfLong (value : Int) : Int := value.bmod 4294967296

/-- `atoi` -/
def atoi (str : Bytes) : Int :=
  let text := (cString str).dropWhile isSpace
  let negative := text.head? = some 45
  let digits := if negative ∨ text.head? = some 43 then text.tail else text
  let value : Int := numberValue 10 (digits.takeWhile isDigit)
  intOfLong (if negative then max (-value) (-9223372036854775808)
    else min value 9223372036854775807)

/-- A number in the notation of C. -/
def parseNumber (text : Bytes) : Option Nat :=
  let number := numberBase text
  if text.head?.any isDigit ∧ number.2.all (digitValue · < number.1) then
    some (numberValue number.1 number.2)
  else none

/-- `inet_aton`: up to three octets, and a number for the rest of the address. -/
def inetAton (cp : Bytes) : Option UInt32 :=
  match (((cString cp).takeWhile fun byte => !isSpace byte).splitOn 46).map parseNumber with
  | [some a] =>
      if a < 4294967296 then
        some (octetAddress (a / 16777216) (a / 65536 % 256) (a / 256 % 256) (a % 256))
      else none
  | [some a, some b] =>
      if a < 256 ∧ b < 16777216 then
        some (octetAddress a (b / 65536) (b / 256 % 256) (b % 256))
      else none
  | [some a, some b, some c] =>
      if a < 256 ∧ b < 256 ∧ c < 65536 then some (octetAddress a b (c / 256) (c % 256))
      else none
  | [some a, some b, some c, some d] =>
      if a < 256 ∧ b < 256 ∧ c < 256 ∧ d < 256 then some (octetAddress a b c d) else none
  | _ => none

section Quads

theorem isDigit_of_parseOctet {text : Bytes} {octet : Nat} (hoctet : parseOctet text = some octet) :
    ∀ byte ∈ text, isDigit byte := by
  unfold parseOctet at hoctet
  split at hoctet
  next hdigits => exact List.all_eq_true.mp hdigits.2.1
  next => cases hoctet

theorem isDigit_toNat {byte : UInt8} (hdigit : isDigit byte) :
    48 ≤ byte.toNat ∧ byte.toNat ≤ 57 := by
  obtain ⟨hlow, hhigh⟩ := Bool.and_eq_true_iff.mp hdigit
  exact ⟨UInt8.le_iff_toNat_le.mp (of_decide_eq_true hlow),
    UInt8.le_iff_toNat_le.mp (of_decide_eq_true hhigh)⟩

theorem digitValue_lt {byte : UInt8} (hdigit : isDigit byte) : digitValue byte < 10 := by
  have hrange := isDigit_toNat hdigit
  unfold digitValue
  rw [if_pos hdigit]
  omega

/-- An octet is the same number to `inet_aton`. -/
theorem parseNumber_of_parseOctet {text : Bytes} {octet : Nat}
    (hoctet : parseOctet text = some octet) : parseNumber text = some octet ∧ octet < 256 := by
  have hdigits := isDigit_of_parseOctet hoctet
  unfold parseOctet at hoctet
  split at hoctet
  next hform =>
    obtain ⟨hne, -, hzero, hle⟩ := hform
    obtain rfl := Option.some.inj hoctet
    refine ⟨?_, by omega⟩
    cases text with
    | nil => exact absurd rfl hne
    | cons first rest =>
        by_cases hfirst : first = 48
        · obtain rfl : rest = [] := by
            have hlength := hzero (by rw [hfirst, List.head?_cons])
            exact List.length_eq_zero_iff.mp (by simpa using hlength)
          subst hfirst
          rfl
        · have hbase : numberBase (first :: rest) = (10, first :: rest) := by
            unfold numberBase
            split
            next heq => exact absurd (List.cons.inj heq).1 hfirst
            next heq => exact absurd (List.cons.inj heq).1 hfirst
            next => rfl
          unfold parseNumber
          rw [hbase, if_pos]
          refine ⟨?_, List.all_eq_true.mpr fun byte hbyte => ?_⟩
          · rw [List.head?_cons, Option.any_some]
            exact hdigits first List.mem_cons_self
          · exact decide_eq_true (digitValue_lt (hdigits byte hbyte))
  next => cases hoctet

theorem map_parseNumber {parts : List Bytes} {octets : List Nat}
    (hparts : parts.map parseOctet = octets.map some) :
    parts.map parseNumber = octets.map some ∧ ∀ octet ∈ octets, octet < 256 := by
  induction parts generalizing octets with
  | nil =>
      obtain rfl := List.map_eq_nil_iff.mp hparts.symm
      exact ⟨rfl, fun octet hoctet => absurd hoctet List.not_mem_nil⟩
  | cons part rest ih =>
      cases octets with
      | nil => cases hparts
      | cons octet octets =>
          obtain ⟨hoctet, hrest⟩ := List.cons.inj hparts
          obtain ⟨hnumber, hlt⟩ := parseNumber_of_parseOctet hoctet
          obtain ⟨hnumbers, hall⟩ := ih hrest
          rw [List.map_cons, List.map_cons, hnumber, hnumbers]
          exact ⟨rfl, List.forall_mem_cons.mpr ⟨hlt, hall⟩⟩

/-- Whether a byte stands in a dotted quad. -/
def isQuadByte (byte : UInt8) : Bool := isDigit byte || byte == 46

theorem isQuadByte_toNat {byte : UInt8} (hbyte : isQuadByte byte) :
    46 ≤ byte.toNat ∧ byte.toNat ≤ 57 := by
  rcases Bool.or_eq_true_iff.mp hbyte with hdigit | hdot
  · have hrange := isDigit_toNat hdigit
    omega
  · rw [beq_iff_eq.mp hdot]
    decide

theorem isQuadByte_of_mem_intercalate {texts : List Bytes}
    (hdigits : ∀ text ∈ texts, ∀ byte ∈ text, isDigit byte) :
    ∀ byte ∈ [46].intercalate texts, isQuadByte byte := by
  induction texts with
  | nil => exact fun byte hbyte => absurd hbyte List.not_mem_nil
  | cons text rest ih =>
      have htext : ∀ byte ∈ text, isQuadByte byte := fun byte hbyte =>
        Bool.or_eq_true_iff.mpr (.inl (hdigits text List.mem_cons_self byte hbyte))
      have hrest := ih fun text htext => hdigits text (List.mem_cons_of_mem _ htext)
      cases rest with
      | nil =>
          rw [List.intercalate_singleton]
          exact htext
      | cons next rest =>
          intro byte hbyte
          rw [List.intercalate_cons_cons, List.mem_append, List.mem_append,
            List.mem_singleton] at hbyte
          rcases hbyte with (hbyte | rfl) | hbyte
          · exact htext byte hbyte
          · rfl
          · exact hrest byte hbyte

theorem takeWhile_of_quad {text : Bytes} {p : UInt8 → Bool}
    (hbytes : ∀ byte ∈ text, isQuadByte byte) (hp : ∀ byte, isQuadByte byte → p byte) :
    text.takeWhile p = text :=
  List.takeWhile_eq_self_iff.mpr fun byte hbyte => hp byte (hbytes byte hbyte)

theorem parseQuad_parts {text : Bytes} {address : UInt32} (hquad : parseQuad text = some address) :
    ∃ a b c d, (text.splitOn 46).map parseOctet = [some a, some b, some c, some d] ∧
      address = octetAddress a b c d := by
  unfold parseQuad at hquad
  split at hquad
  next a b c d hparts => exact ⟨a, b, c, d, hparts, (Option.some.inj hquad).symm⟩
  next => cases hquad

theorem isQuadByte_of_parseQuad {text : Bytes} {address : UInt32}
    (hquad : parseQuad text = some address) : ∀ byte ∈ text, isQuadByte byte := by
  obtain ⟨a, b, c, d, hparts, -⟩ := parseQuad_parts hquad
  have hsplit : List.intercalate [46] (text.splitOn 46) = text := List.intercalate_splitOn 46
  rw [← hsplit]
  apply isQuadByte_of_mem_intercalate
  intro part hpart
  have hmem : parseOctet part ∈ (text.splitOn 46).map parseOctet := List.mem_map_of_mem hpart
  rw [hparts] at hmem
  cases hoctet : parseOctet part with
  | none => simp [hoctet] at hmem
  | some octet => exact isDigit_of_parseOctet hoctet

/-- Dotted quads are the same to `inet_aton` and `inet_pton`. -/
theorem inetAton_of_parseQuad {text : Bytes} {address : UInt32}
    (hquad : parseQuad text = some address) : inetAton text = some address := by
  have hbytes := isQuadByte_of_parseQuad hquad
  have hstring : cString text = text := takeWhile_of_quad hbytes fun byte hbyte => by
    rw [decide_eq_true_eq]
    rintro rfl
    cases hbyte
  have hspace : (text.takeWhile fun byte => !isSpace byte) = text :=
    takeWhile_of_quad hbytes fun byte hbyte => by
      have hrange := isQuadByte_toNat hbyte
      simp only [isSpace, Bool.not_eq_true', Bool.or_eq_false_iff, beq_eq_false_iff_ne, ne_eq,
        Bool.and_eq_false_iff, decide_eq_false_iff_not, UInt8.le_iff_toNat_le,
        ← UInt8.toNat_inj]
      have h32 : (32 : UInt8).toNat = 32 := rfl
      have h13 : (13 : UInt8).toNat = 13 := rfl
      omega
  obtain ⟨a, b, c, d, hparts, rfl⟩ := parseQuad_parts hquad
  obtain ⟨hnumbers, hlt⟩ := @map_parseNumber _ [a, b, c, d] hparts
  unfold inetAton
  rw [hstring, hspace, hnumbers]
  simp only [List.map_cons, List.map_nil]
  simp only [List.forall_mem_cons] at hlt
  rw [if_pos ⟨hlt.1, hlt.2.1, hlt.2.2.1, hlt.2.2.2.1⟩]

end Quads

section Digits

variable {digits : Bytes} (hdigits : ∀ byte ∈ digits, isDigit byte)

include hdigits

theorem cString_digits : cString digits = digits := by
  refine List.takeWhile_eq_self_iff.mpr fun byte hbyte => decide_eq_true ?_
  rintro rfl
  cases hdigits 0 hbyte

theorem dropWhile_isSpace_digits : digits.dropWhile isSpace = digits := by
  cases digits with
  | nil => rfl
  | cons first rest =>
      have hrange := isDigit_toNat (hdigits first List.mem_cons_self)
      refine List.dropWhile_cons_of_neg fun hspace => ?_
      simp only [isSpace, Bool.or_eq_true, beq_iff_eq, Bool.and_eq_true, decide_eq_true_eq,
        UInt8.le_iff_toNat_le, ← UInt8.toNat_inj] at hspace
      have h32 : (32 : UInt8).toNat = 32 := rfl
      have h13 : (13 : UInt8).toNat = 13 := rfl
      omega

theorem head?_digits (sign : UInt8) (hsign : isDigit sign = false) : digits.head? ≠ some sign := by
  intro hhead
  rw [hdigits sign (List.mem_of_head? hhead)] at hsign
  cases hsign

/-- Digits are taken in base 8 or 10. -/
theorem numberBase_digits :
    (numberBase digits).2 = digits ∧ (numberBase digits).1 ≤ 10 := by
  unfold numberBase
  split
  next mark digit rest =>
    rw [if_neg]
    · exact ⟨rfl, Nat.le_add_right 8 2⟩
    · rintro ⟨rfl | rfl, -⟩
      · cases hdigits 120 (by simp)
      · cases hdigits 88 (by simp)
  next => exact ⟨rfl, Nat.le_add_right 8 2⟩
  next => exact ⟨rfl, le_rfl⟩

theorem atoi_digits :
    atoi digits = intOfLong (min (numberValue 10 digits : Int) 9223372036854775807) := by
  have hall : digits.takeWhile isDigit = digits := List.takeWhile_eq_self_iff.mpr hdigits
  unfold atoi
  rw [cString_digits hdigits, dropWhile_isSpace_digits hdigits]
  simp only [head?_digits hdigits 45 rfl, head?_digits hdigits 43 rfl,
    false_or, if_false, hall]

theorem strtol_digits : strtol digits = min (numberValue (numberBase digits).1
    (digits.takeWhile (digitValue · < (numberBase digits).1)) : Int) 9223372036854775807 := by
  unfold strtol
  rw [cString_digits hdigits, dropWhile_isSpace_digits hdigits]
  simp only [head?_digits hdigits 45 rfl, head?_digits hdigits 43 rfl,
    false_or, if_false, (numberBase_digits hdigits).1]

omit hdigits in
theorem le_foldl_digits (value : Nat) :
    value ≤ digits.foldl (fun value byte => value * 10 + digitValue byte) value := by
  induction digits generalizing value with
  | nil => exact le_rfl
  | cons byte rest ih =>
      have hmore := ih (value * 10 + digitValue byte)
      rw [List.foldl_cons]
      omega

omit hdigits in
/-- A smaller base and fewer digits make no greater number. -/
theorem foldl_takeWhile_le {base : Nat} (hbase : base ≤ 10) (p : UInt8 → Bool) {low high : Nat}
    (hle : low ≤ high) :
    (digits.takeWhile p).foldl (fun value byte => value * base + digitValue byte) low ≤
      digits.foldl (fun value byte => value * 10 + digitValue byte) high := by
  induction digits generalizing low high with
  | nil => exact hle
  | cons byte rest ih =>
      rw [List.takeWhile_cons, List.foldl_cons]
      split
      next =>
        rw [List.foldl_cons]
        exact ih (Nat.add_le_add_right (Nat.mul_le_mul hle hbase) _)
      next =>
        have hmore := @le_foldl_digits rest (high * 10 + digitValue byte)
        rw [List.foldl_nil]
        omega

/-- A small decimal number, and what base 0 makes of its digits. -/
theorem number_readings (hsmall : numberValue 10 digits ≤ 32) :
    atoi digits = numberValue 10 digits ∧
      ∃ octal ≤ numberValue 10 digits, intOfLong (strtol digits) = (octal : Nat) := by
  have hle := @foldl_takeWhile_le digits _ (numberBase_digits hdigits).2
    (digitValue · < (numberBase digits).1) 0 0 (le_refl 0)
  have hsame : ∀ value : Nat, value ≤ 32 →
      intOfLong (min (value : Int) 9223372036854775807) = value := by
    intro value hvalue
    rw [Int.min_eq_left (by omega)]
    exact Int.bmod_eq_of_le (by omega) (by omega)
  rw [atoi_digits hdigits, strtol_digits hdigits]
  exact ⟨hsame _ hsmall, _, hle, hsame _ (hle.trans hsmall)⟩

end Digits

section RoundTrip

theorem parseOctet_octetText : ∀ octet < 256, parseOctet (octetText octet) = some octet := by
  decide +kernel

theorem isDigit_of_mem_octetText : ∀ octet < 256, ∀ byte ∈ octetText octet, isDigit byte := by
  have hall : ∀ octet < 256, (octetText octet).all isDigit = true := by decide +kernel
  intro octet hoctet
  exact List.all_eq_true.mp (hall octet hoctet)

theorem lt_of_mem_octets {address : UInt32} {octet : Nat} (hoctet : octet ∈ octets address) :
    octet < 256 := by
  have hlt := address.toNat_lt
  simp only [octets, List.mem_cons, List.not_mem_nil, or_false] at hoctet
  omega

/-- Numbers with dots between them are one string. -/
theorem cString_intercalate {texts : List Bytes}
    (hdigits : ∀ text ∈ texts, ∀ byte ∈ text, isDigit byte) :
    cString ([46].intercalate texts) = [46].intercalate texts := by
  have hdigit : ∀ byte : UInt8, isDigit byte → byte ≠ 0 := by
    rintro byte hbyte rfl
    cases hbyte
  apply List.takeWhile_eq_self_iff.mpr
  simp only [decide_eq_true_eq]
  induction texts with
  | nil => exact fun byte hbyte => absurd hbyte List.not_mem_nil
  | cons text rest ih =>
      cases rest with
      | nil =>
          intro byte hbyte
          rw [List.intercalate_singleton] at hbyte
          exact hdigit byte (hdigits text List.mem_cons_self byte hbyte)
      | cons next rest =>
          intro byte hbyte
          rw [List.intercalate_cons_cons, List.mem_append, List.mem_append,
            List.mem_singleton] at hbyte
          rcases hbyte with (hbyte | rfl) | hbyte
          · exact hdigit byte (hdigits text List.mem_cons_self byte hbyte)
          · decide
          · exact ih (fun text htext => hdigits text (List.mem_cons_of_mem _ htext)) byte hbyte

/-- What `inet_ntoa` writes, `inet_pton` reads back. -/
theorem inetPton_inetNtoa (address dst : UInt32) :
    inetPton (inetNtoa address) dst = (1, address) := by
  have hdigits : ∀ text ∈ (octets address).map octetText, ∀ byte ∈ text, isDigit byte := by
    intro text htext
    obtain ⟨octet, hoctet, rfl⟩ := List.mem_map.mp htext
    exact isDigit_of_mem_octetText octet (lt_of_mem_octets hoctet)
  have hsplit : (inetNtoa address).splitOn 46 = (octets address).map octetText := by
    apply List.splitOn_intercalate
    · intro text htext hdot
      cases hdigits text htext 46 hdot
    · exact List.cons_ne_nil _ _
  have hparse : ((octets address).map octetText).map parseOctet = (octets address).map some := by
    rw [List.map_map]
    exact List.map_congr_left fun octet hoctet =>
      parseOctet_octetText octet (lt_of_mem_octets hoctet)
  have hvalue : address.toNat % 256 + 256 * (address.toNat / 256 % 256 + 256 *
      (address.toNat / 65536 % 256 + 256 * (address.toNat / 16777216))) = address.toNat := by
    omega
  have hquad : parseQuad (inetNtoa address) = some address := by
    unfold parseQuad
    rw [hsplit, hparse]
    simp only [octets, List.map_cons, List.map_nil, octetAddress, hvalue, UInt32.ofNat_toNat]
  unfold inetPton
  rw [show cString (inetNtoa address) = inetNtoa address from cString_intercalate hdigits, hquad]

end RoundTrip

end Sharpvpn
