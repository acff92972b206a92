/-
  Kds.Lib.Scalars

  Fixed-width scalars in a byte string: how a value of a machine type is laid out and loaded, and
  reads that say so when they leave the bytes they were given.
-/

import Kds.Lib.Bytes

namespace Kds.Lib

/-- A machine type of so many bytes. -/
class Scalar (T : Type) where
  width : Nat
  toNat : T → Nat
  ofNat : Nat → T
  ofNat_mod : ∀ x, ofNat (toNat x % 256 ^ width) = x

instance : Scalar UInt8 := ⟨1, UInt8.toNat, UInt8.ofNat, fun x => by simp⟩
instance : Scalar UInt16 := ⟨2, UInt16.toNat, UInt16.ofNat, fun x => by simp⟩
instance : Scalar UInt32 := ⟨4, UInt32.toNat, UInt32.ofNat, fun x => by simp⟩
instance : Scalar UInt64 := ⟨8, UInt64.toNat, UInt64.ofNat, fun x => by simp⟩

/-- Two's complement. -/
instance : Scalar Int64 :=
  ⟨8, fun x => x.toUInt64.toNat, fun n => (UInt64.ofNat n).toInt64, fun x => by simp⟩

@[simp] theorem width_uint8 : Scalar.width UInt8 = 1 := rfl
@[simp] theorem width_uint16 : Scalar.width UInt16 = 2 := rfl
@[simp] theorem width_uint32 : Scalar.width UInt32 = 4 := rfl
@[simp] theorem width_uint64 : Scalar.width UInt64 = 8 := rfl
@[simp] theorem width_int64 : Scalar.width Int64 = 8 := rfl

/-- The bytes of a scalar. -/
def scalarBytes {T : Type} [Scalar T] (x : T) : Bytes := storeLE (Scalar.width T) (Scalar.toNat x)

@[simp] theorem length_scalarBytes {T : Type} [Scalar T] (x : T) :
    (scalarBytes x).length = Scalar.width T := length_storeLE _ _

-- Reading

/-- What a read answers: a value, a refusal, or that it left the bytes. -/
inductive Fault (ε : Type) where
  | outOfRange
  | refused (e : ε)
  deriving DecidableEq

abbrev Outcome (ε α : Type) := Except (Fault ε) α

variable {ε α β T : Type} [Scalar T] {bytes before rest : Bytes} {offset length : Nat}

/-- The scalar at an offset. -/
def loadAt (T : Type) [Scalar T] (bytes : Bytes) (offset : Nat) : Outcome ε T :=
  if offset + Scalar.width T ≤ bytes.length then
    .ok (Scalar.ofNat (load (Scalar.width T) bytes offset))
  else .error .outOfRange

/-- A stretch of the bytes: where it starts and how long it is. -/
structure View where
  offset : Nat
  length : Nat
  deriving DecidableEq

def View.Within (v : View) (bytes : Bytes) : Prop := v.offset + v.length ≤ bytes.length

/-- What a view shows. -/
def View.of (v : View) (bytes : Bytes) : Bytes := (bytes.drop v.offset).take v.length

/-- A view of the bytes. -/
def subspan (bytes : Bytes) (offset length : Nat) : Outcome ε View :=
  if offset + length ≤ bytes.length then .ok ⟨offset, length⟩ else .error .outOfRange

theorem View.of_append (before part rest : Bytes) (hoffset : offset = before.length)
    (hlength : length = part.length) :
    (⟨offset, length⟩ : View).of (before ++ (part ++ rest)) = part := by
  subst hoffset hlength
  rw [View.of, List.drop_left, List.take_left]

theorem loadAt_of_le (h : offset + Scalar.width T ≤ bytes.length) :
    (loadAt T bytes offset : Outcome ε T) =
      .ok (Scalar.ofNat (load (Scalar.width T) bytes offset)) :=
  if_pos h

@[simp] theorem subspan_of_le (h : offset + length ≤ bytes.length) :
    (subspan bytes offset length : Outcome ε View) = .ok ⟨offset, length⟩ := if_pos h

@[simp] theorem loadAt_zero (x : T) (rest : Bytes) :
    (loadAt T (scalarBytes x ++ rest) 0 : Outcome ε T) = .ok x := by
  have hlen : 0 + Scalar.width T ≤ (scalarBytes x ++ rest).length := by simp
  rw [loadAt_of_le hlen, scalarBytes, load_storeLE, Scalar.ofNat_mod]

theorem loadAt_append (h : before.length ≤ offset) :
    (loadAt T (before ++ rest) offset : Outcome ε T) = loadAt T rest (offset - before.length) := by
  unfold loadAt
  rw [load_append_right _ h, List.length_append]
  have hsame : offset + Scalar.width T ≤ before.length + rest.length ↔
      offset - before.length + Scalar.width T ≤ rest.length := by omega
  simp only [hsame]

@[simp] theorem loadAt_past {S : Type} [Scalar S] (x : S) (h : Scalar.width S ≤ offset) :
    (loadAt T (scalarBytes x ++ rest) offset : Outcome ε T) =
      loadAt T rest (offset - Scalar.width S) := by
  rw [loadAt_append (by rwa [length_scalarBytes]), length_scalarBytes]

-- Reads that stay within the bytes

/-- An outcome that never left the bytes, with what holds of the value. -/
def Stays (p : α → Prop) : Outcome ε α → Prop
  | .ok a => p a
  | .error f => f ≠ .outOfRange

/-- The value or the refusal of an outcome that never left the bytes. -/
def Stays.settle {p : α → Prop} : (x : Outcome ε α) → Stays p x → Except ε α
  | .ok a, _ => .ok a
  | .error (.refused e), _ => .error e
  | .error .outOfRange, h => absurd rfl h

theorem Stays.loadAt (h : offset + Scalar.width T ≤ bytes.length) :
    Stays (fun _ => True) (Lib.loadAt T bytes offset : Outcome ε T) := by
  rw [loadAt_of_le h]
  trivial

theorem Stays.subspan (h : offset + length ≤ bytes.length) :
    Stays (fun v => v.Within bytes) (Lib.subspan bytes offset length : Outcome ε View) := by
  rw [subspan_of_le h]
  exact h

theorem Stays.bind {p : α → Prop} {q : β → Prop} {x : Outcome ε α} {f : α → Outcome ε β}
    (h : Stays p x) (hf : ∀ a, p a → Stays q (f a)) : Stays q (x >>= f) := by
  cases x with
  | ok a => exact hf a h
  | error e => exact h

theorem Stays.map {p : α → Prop} {q : β → Prop} {x : Outcome ε α} {f : α → β} (h : Stays p x)
    (hf : ∀ a, p a → q (f a)) : Stays q (x.map f) := by
  cases x with
  | ok a => exact hf a h
  | error e => exact h

end Kds.Lib
