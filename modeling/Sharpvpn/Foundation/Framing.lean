import Mathlib.Data.List.TakeWhile
import Mathlib.Tactic.Common

/-!
# Length-prefixed framing

A sequence of frames is written as the concatenation of their contents, each
preceded by its length as a 16-bit little-endian word; a zero word ends the
sequence. Since zero marks the end, an empty frame cannot be told from it: the
reader recovers the frames before the first empty one.
-/

namespace Foundation.Framing

/-- A 16-bit word in little-endian order; higher bits are lost. -/
def word (value : Nat) : List UInt8 := [UInt8.ofNat value, UInt8.ofNat (value / 256)]

/-- The 16-bit word at the start of `bytes`. Bytes that are not there read as 0. -/
def readWord (bytes : List UInt8) : Nat :=
  (bytes.getD 0 0).toNat + 256 * (bytes.getD 1 0).toNat

/-- The first `count` bytes. Bytes that are not there read as 0. -/
def readBytes (count : Nat) (bytes : List UInt8) : List UInt8 :=
  (bytes ++ List.replicate count 0).take count

def frame (content : List UInt8) : List UInt8 := word content.length ++ content

/-- The frames one after another, without the end mark. -/
def body (contents : List (List UInt8)) : List UInt8 := contents.flatMap frame

def encode (contents : List (List UInt8)) : List UInt8 := body contents ++ word 0

/-- The first frame and what follows it, or `none` at the end mark. -/
def next (bytes : List UInt8) : Option (List UInt8 × List UInt8) :=
  if readWord bytes = 0 then none
  else some (readBytes (readWord bytes) (bytes.drop 2), bytes.drop (readWord bytes + 2))

theorem next_rest_lt {bytes content rest : List UInt8} (hnext : next bytes = some (content, rest)) :
    rest.length < bytes.length := by
  unfold next at hnext
  split at hnext
  next => cases hnext
  next hword =>
    simp only [Option.some.injEq, Prod.mk.injEq] at hnext
    have hpos : 0 < bytes.length := by
      by_contra hnil
      obtain rfl : bytes = [] := List.eq_nil_of_length_eq_zero (by omega)
      exact hword rfl
    rw [← hnext.2, List.length_drop]
    omega

/-- All frames up to the end mark. -/
def decode (bytes : List UInt8) : List (List UInt8) :=
  match _hnext : next bytes with
  | none => []
  | some (content, rest) => content :: decode rest
termination_by bytes.length
decreasing_by exact next_rest_lt _hnext

theorem decode_of_none {bytes : List UInt8} (hnext : next bytes = none) : decode bytes = [] := by
  rw [decode]
  split
  next => rfl
  next heq => simp [hnext] at heq

theorem decode_of_some {bytes content rest : List UInt8}
    (hnext : next bytes = some (content, rest)) : decode bytes = content :: decode rest := by
  rw [decode]
  split
  next heq => simp [hnext] at heq
  next heq =>
    simp only [hnext, Option.some.injEq, Prod.mk.injEq] at heq
    rw [heq.1, heq.2]

@[simp] theorem readWord_word {value : Nat} (hvalue : value < 65536) (rest : List UInt8) :
    readWord (word value ++ rest) = value := by
  have hlow : (UInt8.ofNat value).toNat = value % 256 := UInt8.toNat_ofNat'
  have hhigh : (UInt8.ofNat (value / 256)).toNat = value / 256 % 256 := UInt8.toNat_ofNat'
  simp only [readWord, word, List.cons_append, List.getD_cons_zero, List.getD_cons_succ,
    hlow, hhigh]
  omega

theorem readBytes_append {count : Nat} {content : List UInt8} (hcount : content.length = count)
    (rest : List UInt8) : readBytes count (content ++ rest) = content := by
  subst hcount
  simp [readBytes]

theorem length_readBytes (count : Nat) (bytes : List UInt8) :
    (readBytes count bytes).length = count := by
  simp [readBytes]

/-- What is read is not empty: an empty frame reads as the end mark. -/
theorem ne_nil_of_next {bytes content rest : List UInt8}
    (hnext : next bytes = some (content, rest)) : content ≠ [] := by
  unfold next at hnext
  split at hnext
  next => cases hnext
  next hword =>
    simp only [Option.some.injEq, Prod.mk.injEq] at hnext
    intro hnil
    have hlength := length_readBytes (readWord bytes) (bytes.drop 2)
    rw [hnext.1, hnil] at hlength
    exact hword hlength.symm

theorem rest_of_next {bytes content rest : List UInt8}
    (hnext : next bytes = some (content, rest)) : rest = bytes.drop (content.length + 2) := by
  unfold next at hnext
  split at hnext
  next => cases hnext
  next =>
    simp only [Option.some.injEq, Prod.mk.injEq] at hnext
    rw [← hnext.1, length_readBytes, hnext.2]

theorem next_frame {content : List UInt8} (hne : content ≠ []) (hlength : content.length < 65536)
    (rest : List UInt8) : next (frame content ++ rest) = some (content, rest) := by
  have hpos := List.length_pos_iff.mpr hne
  have hword : readWord (frame content ++ rest) = content.length := by
    rw [frame, List.append_assoc, readWord_word hlength]
  have hdrop : (frame content ++ rest).drop 2 = content ++ rest := rfl
  have hrest : (frame content ++ rest).drop (content.length + 2) = rest := by
    rw [Nat.add_comm, ← List.drop_drop, hdrop, List.drop_left]
  unfold next
  rw [hword, if_neg (by omega), hdrop, hrest, readBytes_append rfl]

theorem next_end (rest : List UInt8) : next (word 0 ++ rest) = none := by
  simp [next]

/-- Reading what was written yields the frames before the first empty one,
whatever follows the end mark. -/
theorem decode_encode (contents : List (List UInt8))
    (hlength : ∀ content ∈ contents, content.length < 65536) (rest : List UInt8) :
    decode (encode contents ++ rest) = contents.takeWhile (fun content => !content.isEmpty) := by
  induction contents with
  | nil => exact decode_of_none (next_end rest)
  | cons content contents ih =>
      have hhead := hlength content List.mem_cons_self
      have htail := ih fun other hother => hlength other (List.mem_cons_of_mem _ hother)
      have hsplit : encode (content :: contents) ++ rest =
          frame content ++ (encode contents ++ rest) := by
        simp [encode, body]
      cases content with
      | nil =>
          have hend : encode ([] :: contents) ++ rest = word 0 ++ (encode contents ++ rest) := by
            rw [hsplit]
            rfl
          rw [hend, decode_of_none (next_end _)]
          rfl
      | cons byte bytes =>
          rw [hsplit, decode_of_some (next_frame (by simp) hhead _), htail]
          rfl

theorem body_append (first second : List (List UInt8)) :
    body (first ++ second) = body first ++ body second := by
  simp [body]

theorem body_singleton (content : List UInt8) : body [content] = frame content := by
  simp [body]

/-- Every frame occupies space, so the body is empty only if there is none. -/
theorem body_eq_nil {contents : List (List UInt8)} : body contents = [] ↔ contents = [] := by
  cases contents with
  | nil => simp [body]
  | cons content contents => simp [body, frame, word]

end Foundation.Framing
