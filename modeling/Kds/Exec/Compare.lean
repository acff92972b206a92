/-
  Kds.Exec.Compare

  How two column values compare (`CompareValues`, `src/exec/row_codec.cpp`) and the value
  identity the statement-local map and the Cabin key on (`MakeValueKey`,
  `src/stats/cabin_store.cpp`).

  The two agree one way, and that is all a keyed map needs: values that compare equal under
  some column's type have the same key (`makeValueKey_of_eq`).  It holds for the values the
  row codec decodes (`AstValue.Decoded`), whose digit text is there exactly when the signed
  field cannot hold the value.
-/

import Kds.Base.Status
import Kds.Parser.Value
import Mathlib.Data.List.Basic
import Mathlib.Order.Basic

namespace Kds.Exec

/-- `enum class CompareOp`. -/
inductive CompareOp where
  | eq | neq | lt | lte | gt | gte | isNull | isNotNull
  deriving DecidableEq

/-- A column's type number (`well_known.hpp`); only `uint64` changes how values compare. -/
abbrev TypeVal := Nat

def typeValInt64 : TypeVal := 4
def typeValUint64 : TypeVal := 5

-- The days and instants the engine stores

def kMinEpochDay : Int := -25567
def kMaxEpochDay : Int := 376199
def kMinEpochMicros : Int := kMinEpochDay * 86400 * 1000000
def kMaxEpochMicros : Int := (kMaxEpochDay + 1) * 86400 * 1000000 - 1

-- Comparison

/-- `std::from_chars` over a whole decimal text, digit by digit, `none` past `2^64 - 1`. -/
def parseDigits : Nat → List UInt8 → Option Nat
  | acc, [] => some acc
  | acc, c :: cs =>
    if 48 ≤ c ∧ c ≤ 57 then
      let next := acc * 10 + (c.toNat - 48)
      if next < 2 ^ 64 then parseDigits next cs else none
    else none

/-- `ParseUint64Text`: a leading minus fails as any other non-digit does. -/
def parseUint64Text (text : List UInt8) : Option Nat :=
  match text with
  | [] => none
  | _ :: _ => parseDigits 0 text

/-- `ValueAsUint64`: the text where there is one, else the non-negative signed field. -/
def valueAsUint64 (v : AstValue) : Option Nat :=
  if v.type ≠ .int then none
  else if v.rawIntText ≠ [] then parseUint64Text v.rawIntText
  else if v.intVal < 0 then none
  else some v.intVal.toNat

/-- Why `ValueAsUint64` refuses a value. -/
def uint64Refusal (v : AstValue) : String :=
  if v.type ≠ .int then "expected an integer value"
  else if v.rawIntText = [] then "expected a non-negative integer, got " ++ toString v.intVal
  else if v.rawIntText.head? = some 45 then
    "expected a non-negative integer for a uint64 column, got '" ++ textOf v.rawIntText ++ "'"
  else "invalid uint64 literal '" ++ textOf v.rawIntText ++ "'"

/-- `Int128FromHalves`: the low half is read unsigned. -/
def int128FromHalves (hi lo : Int) : Int := hi * 2 ^ 64 + lo % 2 ^ 64

/-- `ApplyCompare`: the one relational switch, over any ordered operand type. -/
def applyCompare {α : Type} [DecidableEq α] [LT α] [DecidableLT α] (a b : α) : CompareOp → Bool
  | .eq => a = b
  | .neq => a ≠ b
  | .lt => a < b
  | .lte => ¬ b < a
  | .gt => b < a
  | .gte => ¬ a < b
  | .isNull | .isNotNull => false

/-- `CompareValues`: does `lhs op rhs` hold under the column type `typeVal`? -/
def compareValues (typeVal : TypeVal) (lhs rhs : AstValue) (op : CompareOp) : Bool :=
  if op = .isNull then lhs.type = .null
  else if op = .isNotNull then lhs.type ≠ .null
  else if lhs.type = .null ∨ rhs.type = .null then false
  else if typeVal = typeValUint64 then
    match valueAsUint64 lhs, valueAsUint64 rhs with
    | some a, some b => applyCompare a b op
    | _, _ => false
  else if lhs.type = .decimal ∨ rhs.type = .decimal then
    if lhs.type ≠ rhs.type ∨ lhs.scale ≠ rhs.scale then false
    else applyCompare lhs.intVal rhs.intVal op
  else if lhs.type = .decimalWide ∨ rhs.type = .decimalWide then
    if lhs.type ≠ rhs.type ∨ lhs.scale ≠ rhs.scale then false
    else applyCompare (int128FromHalves lhs.decHi lhs.intVal)
      (int128FromHalves rhs.decHi rhs.intVal) op
  else if lhs.type = .int ∧ rhs.type = .int then applyCompare lhs.intVal rhs.intVal op
  else if lhs.type = .str ∧ rhs.type = .str then applyCompare lhs.strVal rhs.strVal op
  else false

-- Value identity

/-- `struct CabinKey`. -/
structure CabinKey where
  cabinId : Nat := 0
  type : ValueType
  intVal : Int := 0
  strVal : List UInt8 := []
  deriving DecidableEq

/-- A number's decimal text, as `std::to_string` writes it. -/
def decimalText (n : Int) : List UInt8 :=
  (toString n).toList.map fun c => UInt8.ofNat c.toNat

/-- `MakeValueKey`: a NULL and a parameter have no key. -/
def makeValueKey (v : AstValue) : Option CabinKey :=
  match v.type with
  | .int => some { type := .int, intVal := v.intVal }
  | .str => some { type := .str, strVal := v.strVal }
  | .decimal => some { type := .decimal, intVal := v.intVal, strVal := decimalText v.scale.toNat }
  | .decimalWide =>
    some {
      type := .decimalWide
      intVal := v.intVal
      strVal := decimalText v.scale.toNat ++ 44 :: decimalText v.decHi }
  | .null | .param => none

/-- What `DecodeOneValueInto` leaves in a slot: fields in `int64` range, and digit text exactly
    for a `uint64` above `INT64_MAX`, whose signed field is then the wrapped value. -/
structure AstValue.Decoded (v : AstValue) : Prop where
  intRange : -2 ^ 63 ≤ v.intVal ∧ v.intVal < 2 ^ 63
  text : v.rawIntText = [] ∨
    ∃ n : Nat, parseUint64Text v.rawIntText = some n ∧ 2 ^ 63 ≤ n ∧ v.intVal = n - 2 ^ 64

/-- A decoded column value. -/
abbrev Cell := { v : AstValue // AstValue.Decoded v }

variable {n : Nat} {text : List UInt8}

theorem parseDigits_lt {acc : Nat} (hacc : acc < 2 ^ 64) (h : parseDigits acc text = some n) :
    n < 2 ^ 64 := by
  induction text generalizing acc with
  | nil => exact Option.some.inj h ▸ hacc
  | cons c cs ih =>
    simp only [parseDigits] at h
    split_ifs at h with hdigit hfits
    exact ih hfits h

theorem parseUint64Text_lt (h : parseUint64Text text = some n) : n < 2 ^ 64 := by
  cases text with
  | nil => cases h
  | cons c cs => exact parseDigits_lt (by decide) h

theorem AstValue.Decoded.intVal_of_uint64 {v : AstValue} (hv : AstValue.Decoded v)
    (hn : valueAsUint64 v = some n) :
    v.type = .int ∧ n < 2 ^ 64 ∧ v.intVal = if n < 2 ^ 63 then (n : Int) else n - 2 ^ 64 := by
  have hrange := hv.intRange
  rw [valueAsUint64] at hn
  split_ifs at hn with htype htext hneg
  · refine ⟨not_not.mp htype, parseUint64Text_lt hn, ?_⟩
    rcases hv.text with hempty | ⟨m, hm, hbig, hval⟩
    · exact absurd hempty htext
    · rw [hm] at hn
      cases hn
      rw [if_neg (by omega), hval]
  · cases hn
    refine ⟨not_not.mp htype, by omega, ?_⟩
    rw [if_pos (by omega)]
    omega

theorem valueAsUint64_inj {a b : AstValue} (ha : AstValue.Decoded a) (hb : AstValue.Decoded b)
    (hna : valueAsUint64 a = some n) (hnb : valueAsUint64 b = some n) :
    a.intVal = b.intVal ∧ a.type = .int ∧ b.type = .int := by
  obtain ⟨hta, -, hva⟩ := ha.intVal_of_uint64 hna
  obtain ⟨htb, -, hvb⟩ := hb.intVal_of_uint64 hnb
  exact ⟨hva.trans hvb.symm, hta, htb⟩

theorem int128FromHalves_inj {h₁ l₁ h₂ l₂ : Int} (hl₁ : -2 ^ 63 ≤ l₁ ∧ l₁ < 2 ^ 63)
    (hl₂ : -2 ^ 63 ≤ l₂ ∧ l₂ < 2 ^ 63)
    (h : int128FromHalves h₁ l₁ = int128FromHalves h₂ l₂) : h₁ = h₂ ∧ l₁ = l₂ := by
  rw [int128FromHalves, int128FromHalves] at h
  omega

/-- **Equal values have one key.**  Two decoded values that compare equal under any column type
    have the same, existing, value key. -/
theorem makeValueKey_of_eq {typeVal : TypeVal} {a b : AstValue} (ha : AstValue.Decoded a)
    (hb : AstValue.Decoded b) (h : compareValues typeVal a b .eq = true) :
    ∃ k, makeValueKey a = some k ∧ makeValueKey b = some k := by
  rw [compareValues] at h
  rw [if_neg (by decide), if_neg (by decide)] at h
  split_ifs at h with hnull huint hdec hdec' hwide hwide' hint hstr
  · -- uint64: equal through the digits or the signed field
    split at h
    · next x y hx hy =>
      obtain rfl : x = y := by simpa [applyCompare] using h
      obtain ⟨hval, hta, htb⟩ := valueAsUint64_inj ha hb hx hy
      exact ⟨⟨0, .int, a.intVal, []⟩, by simp [makeValueKey, hta],
        by simp [makeValueKey, htb, hval]⟩
    · cases h
  · -- decimal: same scale, same unscaled integer
    obtain ⟨htype, hscale⟩ := not_or.mp hdec'
    have hval : a.intVal = b.intVal := by simpa [applyCompare] using h
    have hta : a.type = .decimal := hdec.elim id fun hb' => (not_not.mp htype).trans hb'
    have htb : b.type = .decimal := (not_not.mp htype) ▸ hta
    refine ⟨_, by rw [makeValueKey, hta], ?_⟩
    rw [makeValueKey, htb, hval, not_not.mp hscale]
  · obtain ⟨htype, hscale⟩ := not_or.mp hwide'
    have hval : int128FromHalves a.decHi a.intVal = int128FromHalves b.decHi b.intVal := by
      simpa [applyCompare] using h
    obtain ⟨hhi, hlo⟩ := int128FromHalves_inj ha.intRange hb.intRange hval
    have hta : a.type = .decimalWide := hwide.elim id fun hb' => (not_not.mp htype).trans hb'
    have htb : b.type = .decimalWide := (not_not.mp htype) ▸ hta
    refine ⟨_, by rw [makeValueKey, hta], ?_⟩
    rw [makeValueKey, htb, hhi, hlo, not_not.mp hscale]
  · have hval : a.intVal = b.intVal := by simpa [applyCompare] using h
    exact ⟨⟨0, .int, a.intVal, []⟩, by simp [makeValueKey, hint.1],
      by simp [makeValueKey, hint.2, hval]⟩
  · have hval : a.strVal = b.strVal := by simpa [applyCompare] using h
    exact ⟨⟨0, .str, 0, a.strVal⟩, by simp [makeValueKey, hstr.1],
      by simp [makeValueKey, hstr.2, hval]⟩

end Kds.Exec
