import Sharpvpn.Rudp.PackLoop
import Sharpvpn.Vpn.Inet

/-!
# The token of a handshake

The client sends its token as a package of its own. `func_socket` receives it into an array
that nothing has been written to, and takes what is there for a string of C.
-/

namespace Sharpvpn

open Foundation

/-- How the first `recv_package` of the server's socket ends. -/
inductive TokenCall
  /-- The payload of the client's first package is there. -/
  | package (payload : Bytes)
  /-- The socket has stopped before it came. -/
  | stopped
  deriving DecidableEq

/-- What that call returns, and the memory from its buffer on. A segment longer than the
array is copied over what lies behind it. -/
def TokenCall.recvPackage (crypto : SharpCrypto) (parser : SegmentParser) (memory : Bytes) :
    TokenCall → Int × Bytes
  | .package payload =>
      let segment := (parser.load crypto payload).nextSegment.1
      (segment.length, segment ++ memory.drop segment.length)
  | .stopped => (-1, memory)

/-- The string of C at the start of the memory. `none`: no zero byte ends it. -/
def stringAt (memory : Bytes) : Option Bytes :=
  if 0 ∈ memory then some (cString memory) else none

/-- `token_s`, the key of the user in `user_map`. The length that `recv_package` returns is
not looked at. -/
def tokenString (crypto : SharpCrypto) (parser : SegmentParser) (memory : Bytes)
    (call : TokenCall) : Option Bytes :=
  stringAt (call.recvPackage crypto parser memory).2

/-- The calls that can come about where the token is configured on the client. Its first
package is packed from the token alone: the client sends nothing else before the reply. -/
inductive ReceivesToken (config : Config) (crypto : SharpCrypto) (token : Bytes) :
    TokenCall → Prop
  | package {turns : Nat} {plain : Bytes} {rest : List Bytes} (nonce : Nonce)
      (hpacked : packOuter config.mtu turns [token] = some (plain :: rest)) :
      ReceivesToken config crypto token (.package (crypto.encrypt nonce plain))
  | stopped : ReceivesToken config crypto token .stopped

section Calls

variable {config : Config} {crypto : SharpCrypto} {parser : SegmentParser}
  {memory token text rest : Bytes} {call : TokenCall}

/-- The steps of `recv_package` on a new socket whose first package is there. -/
theorem recvPackage_package {side : RecvSide} {package : PackageData} (running : Bool)
    (hidle : side.caller = .idle) (hparser : side.segmentRecv.len = 0)
    (hfind : side.recvPool.find side.recvId = some package) :
    (do
      let scanning ← side.recvPackage crypto running
      let taken ← scanning.1.recvPackage crypto running
      let loaded ← taken.1.recvPackage crypto running
      let idle ← loaded.1.recvPackage crypto running
      pure (idle.1.caller, idle.2)) =
    some (.idle, [.returned (side.segmentRecv.load crypto package.payload).nextSegment.1]) := by
  have hnext : side.segmentRecv.nextSegment = ([], side.segmentRecv) := if_pos hparser
  simp [RecvSide.recvPackage, hidle, hnext, hfind]

/-- The steps of `recv_package` on a new socket that has stopped. -/
theorem recvPackage_stopped {side : RecvSide} (hidle : side.caller = .idle)
    (hparser : side.segmentRecv.len = 0) (hfind : side.recvPool.find side.recvId = none) :
    (do
      let scanning ← side.recvPackage crypto false
      let idle ← scanning.1.recvPackage crypto false
      pure (idle.1.caller, idle.2)) = some (.idle, []) := by
  have hnext : side.segmentRecv.nextSegment = ([], side.segmentRecv) := if_pos hparser
  simp [RecvSide.recvPackage, hidle, hnext, hfind]

theorem cString_append (hnone : 0 ∉ text) : cString (text ++ rest) = text ++ cString rest := by
  refine List.takeWhile_append_of_pos fun byte hbyte => ?_
  rw [decide_eq_true_eq]
  rintro rfl
  exact hnone hbyte

theorem zero_notMem_cString (memory : Bytes) : 0 ∉ cString memory := by
  intro hmem
  simpa using List.mem_takeWhile_imp hmem

/-- A string ends behind a text that has no zero byte and is followed by one. -/
theorem stringAt_append : stringAt (text ++ rest) = some text ↔
    0 ∉ text ∧ rest.head? = some 0 := by
  unfold stringAt
  constructor
  · intro hstring
    split at hstring
    next hzero =>
      have htext := Option.some.inj hstring
      have hnone : 0 ∉ text := htext ▸ zero_notMem_cString (text ++ rest)
      refine ⟨hnone, ?_⟩
      rw [cString_append hnone, List.append_right_eq_self] at htext
      cases rest with
      | nil => simp [hnone] at hzero
      | cons byte rest =>
          by_contra hbyte
          rw [cString, List.takeWhile_cons_of_pos (by simpa using hbyte)] at htext
          cases htext
    next => cases hstring
  · rintro ⟨hnone, hhead⟩
    obtain ⟨rest, rfl⟩ := List.head?_eq_some_iff.mp hhead
    rw [if_pos (by simp), cString_append hnone]
    simp [cString]

theorem stringAt_eq_some : stringAt memory = some text ↔
    0 ∉ text ∧ memory[text.length]? = some 0 ∧ text <+: memory := by
  constructor
  · intro hstring
    have hprefix : text <+: memory := by
      unfold stringAt at hstring
      split at hstring
      next =>
        obtain rfl := Option.some.inj hstring
        exact List.takeWhile_prefix _
      next => cases hstring
    obtain ⟨rest, rfl⟩ := hprefix
    obtain ⟨hnone, hhead⟩ := stringAt_append.mp hstring
    refine ⟨hnone, ?_, List.prefix_append text rest⟩
    rw [List.getElem?_append_right le_rfl, Nat.sub_self, ← List.head?_eq_getElem?, hhead]
  · rintro ⟨hnone, hzero, rest, rfl⟩
    rw [List.getElem?_append_right le_rfl, Nat.sub_self, ← List.head?_eq_getElem?] at hzero
    exact stringAt_append.mpr ⟨hnone, hzero⟩

/-- The package of a token, if there is room for it in one. -/
theorem plain_of_packOuter {mtu : Int} {turns : Nat} {plain : Bytes} {plains : List Bytes}
    (hpacked : packOuter mtu turns [token] = some (plain :: plains)) :
    plain = Framing.encode [token] ∧ fitsPackage mtu token [] = true := by
  induction turns with
  | zero => cases hpacked
  | succ turns ih =>
      obtain ⟨⟨written, left⟩, hinner, hloop⟩ := Option.bind_eq_some_iff.mp hpacked
      dsimp only at hloop
      by_cases hfits : fitsPackage mtu token [] = true
      · obtain ⟨taken, htaken, rfl, -⟩ := packInner_takes hfits hinner
        obtain ⟨rfl, rfl⟩ := List.append_eq_nil_iff.mp htaken.symm
        rw [if_pos (length_body_cons token [])] at hloop
        obtain ⟨_, -, heq⟩ := Option.map_eq_some_iff.mp hloop
        exact ⟨(List.cons.inj heq).1.symm, hfits⟩
      · rw [packInner, if_neg hfits] at hinner
        cases hinner
        exact ih hloop

/-- Whatever the parser held, the next segment of the package is the token. -/
theorem nextSegment_token (nonce : Nonce) (hlength : token.length < 65536) :
    (parser.load crypto (crypto.encrypt nonce (Framing.encode [token]))).nextSegment.1 =
      token := by
  have hplain : (Framing.encode [token]).length ≠ 0 := by
    simp [Framing.encode, Framing.word]
  unfold SegmentParser.load
  simp only [crypto.decrypt_encrypt, if_neg hplain]
  unfold SegmentParser.nextSegment
  rw [if_neg hplain, List.drop_zero]
  cases token with
  | nil => rfl
  | cons byte bytes =>
      have hframe : Framing.encode [byte :: bytes] =
          Framing.frame (byte :: bytes) ++ Framing.word 0 := by
        simp [Framing.encode, Framing.body]
      rw [hframe, List.append_assoc, Framing.next_frame (List.cons_ne_nil byte bytes) hlength]

/-- The user is looked up under the client's token just when the token has no zero byte and
the memory already held one behind it; and, where nothing has come, the token before it. -/
theorem tokenString_iff (hcall : ReceivesToken config crypto token call) :
    tokenString crypto parser memory call = some token ↔
      0 ∉ token ∧ memory[token.length]? = some 0 ∧ (call = .stopped → token <+: memory) := by
  unfold tokenString
  cases hcall with
  | package nonce hpacked =>
      obtain ⟨rfl, hfits⟩ := plain_of_packOuter hpacked
      have hlength : token.length < 65536 := by
        have hmtu := config.mtu_le
        rw [fitsPackage_nil] at hfits
        simp only [maxSegment, maxMtu] at hfits hmtu
        omega
      simp only [TokenCall.recvPackage, nextSegment_token nonce hlength]
      rw [stringAt_append, List.head?_drop]
      simp
  | stopped =>
      rw [TokenCall.recvPackage, stringAt_eq_some]
      simp

end Calls

/-- A token of three bytes, as it is sent. -/
def shortCall : TokenCall :=
  .package (SharpCrypto.marking.encrypt .zero (Framing.encode [ascii "abc"]))

theorem receivesToken_short : ReceivesToken .standard .marking (ascii "abc") shortCall :=
  @ReceivesToken.package _ _ _ 1 _ [] .zero (by decide)

theorem tokenString_iff_short :
    tokenString .marking ⟨[], 0, 0⟩ (List.replicate 24 0) shortCall = some (ascii "abc") ↔
      0 ∉ ascii "abc" ∧ (List.replicate 24 (0 : UInt8))[(ascii "abc").length]? = some 0 ∧
        (shortCall = .stopped → ascii "abc" <+: List.replicate 24 0) :=
  tokenString_iff receivesToken_short

/-- The same token is looked up under different keys, as the array happens to hold a zero
byte or another one behind it. -/
theorem tokenString_stale : ReceivesToken .standard .marking (ascii "abc") shortCall ∧
    tokenString .marking ⟨[], 0, 0⟩ (List.replicate 24 0) shortCall = some (ascii "abc") ∧
    tokenString .marking ⟨[], 0, 0⟩ (ascii "wxyz" ++ List.replicate 20 0) shortCall =
      some (ascii "abcz") :=
  ⟨receivesToken_short, by decide, by decide⟩

end Sharpvpn
