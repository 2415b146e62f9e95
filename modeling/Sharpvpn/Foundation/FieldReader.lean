import Mathlib.Data.List.Basic
import Mathlib.Tactic.Common

/-!
# Programs that read fields

A program reads fields of buffers, and what it reads decides what it reads next. Nothing stops
it from reading behind what has been written to a buffer.
-/

namespace Foundation

universe u v w

/-- The bytes of a field. A length below 0 reads nothing, and such a field lies nowhere. -/
structure Span (ρ : Type u) where
  region : ρ
  offset : Nat
  length : Int
  deriving DecidableEq, Repr

/-- The field lies within the first bytes of its buffer. -/
def Span.Within {ρ : Type u} (bound : Nat) (span : Span ρ) : Prop :=
  0 ≤ span.length ∧ span.offset + span.length ≤ bound

instance {ρ : Type u} (bound : Nat) (span : Span ρ) : Decidable (span.Within bound) :=
  inferInstanceAs (Decidable (_ ∧ _))

/-- What stands in the buffers. -/
abbrev Buffers (ρ : Type u) := ρ → Nat → UInt8

def Span.bytes {ρ : Type u} (span : Span ρ) (buffers : Buffers ρ) : List UInt8 :=
  (List.range span.length.toNat).map fun i => buffers span.region (span.offset + i)

inductive FieldReader (ρ : Type u) (α : Type v)
  | done (result : α)
  | field (span : Span ρ) (next : List UInt8 → FieldReader ρ α)

namespace FieldReader

variable {ρ : Type u} {α : Type v} {β : Type w}

def run (buffers : Buffers ρ) : FieldReader ρ α → α
  | done result => result
  | field span next => run buffers (next (span.bytes buffers))

/-- The fields that are read. -/
def spans (buffers : Buffers ρ) : FieldReader ρ α → List (Span ρ)
  | done _ => []
  | field span next => span :: spans buffers (next (span.bytes buffers))

def bind : FieldReader ρ α → (α → FieldReader ρ β) → FieldReader ρ β
  | done result, next => next result
  | field span rest, next => field span fun bytes => (rest bytes).bind next

/-- Read one field. -/
def read (span : Span ρ) (value : List UInt8 → α) : FieldReader ρ α :=
  field span fun bytes => done (value bytes)

/-- All fields lie within what has been written. -/
def Within (buffers : Buffers ρ) (bound : Nat) (reader : FieldReader ρ α) : Prop :=
  ∀ span ∈ reader.spans buffers, span.Within bound

instance (buffers : Buffers ρ) (bound : Nat) (reader : FieldReader ρ α) :
    Decidable (reader.Within buffers bound) :=
  inferInstanceAs (Decidable (∀ span ∈ _, _))

variable {buffers : Buffers ρ}

@[simp] theorem run_done (result : α) :
    (done result : FieldReader ρ α).run buffers = result := rfl

@[simp] theorem spans_done (result : α) : (done result : FieldReader ρ α).spans buffers = [] := rfl

@[simp] theorem run_read (span : Span ρ) (value : List UInt8 → α) :
    (read span value).run buffers = value (span.bytes buffers) := rfl

@[simp] theorem spans_read (span : Span ρ) (value : List UInt8 → α) :
    (read span value).spans buffers = [span] := rfl

@[simp] theorem run_bind (reader : FieldReader ρ α) (next : α → FieldReader ρ β) :
    (reader.bind next).run buffers = (next (reader.run buffers)).run buffers := by
  induction reader with
  | done result => rfl
  | field span rest ih => exact ih _

@[simp] theorem spans_bind (reader : FieldReader ρ α) (next : α → FieldReader ρ β) :
    (reader.bind next).spans buffers =
      reader.spans buffers ++ (next (reader.run buffers)).spans buffers := by
  induction reader with
  | done result => rfl
  | field span rest ih => exact congrArg (span :: ·) (ih _)

/-- Two buffers that agree up to a bound are the same to a program whose fields lie below. -/
theorem run_eq_of_within {other : Buffers ρ} {bound : Nat} {reader : FieldReader ρ α}
    (hagree : ∀ region, ∀ i < bound, buffers region i = other region i)
    (hwithin : reader.Within buffers bound) : reader.run other = reader.run buffers := by
  induction reader with
  | done result => rfl
  | field span rest ih =>
      obtain ⟨⟨hpos, hle⟩, hrest⟩ := List.forall_mem_cons.mp hwithin
      have hbytes : span.bytes other = span.bytes buffers := by
        refine List.map_congr_left fun i hi => (hagree _ _ ?_).symm
        have hlt := List.mem_range.mp hi
        omega
      unfold run
      rw [hbytes]
      exact ih _ hrest

end FieldReader

end Foundation
