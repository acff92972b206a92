/-
  Kds.Exec.RowCodec

  The row codec (`src/exec/row_codec.cpp`, `src/catalog/row_layout.cpp`): what a column's cell
  holds of a written value, what is read back of it, and the coercion every comparison and every
  key goes through.

  A fixed-width cell is its bytes.  A tagged cell is its tag with what it carries, the text or the
  var-heap pointer; its padding is zeros.  A row's body is its cells after the Keystone word, and
  `none` is a set bit of the null bitmap.  `readsBack_of_encode` says that a cell reads back as the
  coerced value it was written from.
-/

import Kds.Exec.StepChain
import Kds.Lib.Bytes
import Mathlib.Tactic.SplitIfs

namespace Kds.Exec.Codec

open Lib List

-- Columns

/-- The part of `SysColumnRow` the codecs read. -/
structure SysColumnRow where
  name : String
  typeVal : TypeVal
  len : Nat := 0
  notnull : Bool := true
  deriving DecidableEq

/-- The widths of a stored signed integer. -/
inductive IntWidth where
  | w8 | w16 | w32 | w64
  deriving DecidableEq

/-- `IntWidthFor`. -/
def IntWidth.bytes : IntWidth → Nat
  | .w8 => 1
  | .w16 => 2
  | .w32 => 4
  | .w64 => 8

/-- The arms of the codecs' type switches. -/
inductive ColumnKind where
  | signed (width : IntWidth)
  | uint64 | bool | date | timestamp | decimal | decimalWide | char | varchar
  deriving DecidableEq

def typeValFloat : TypeVal := 6

/-- The arm of a type number (`well_known.hpp`); a float has none, nor has an unknown number. -/
def kindOf : TypeVal → Option ColumnKind
  | 1 => some (.signed .w8)
  | 2 => some (.signed .w16)
  | 3 => some (.signed .w32)
  | 4 => some (.signed .w64)
  | 5 => some .uint64
  | 7 => some .decimal
  | 8 => some .bool
  | 9 => some .varchar
  | 10 => some .char
  | 11 => some .date
  | 12 => some .timestamp
  | 13 => some .decimalWide
  | _ => none

def SysColumnRow.kind (col : SysColumnRow) : Option ColumnKind := kindOf col.typeVal

/-- `DecimalPrecisionOf`. -/
def decimalPrecisionOf (len : Nat) : Nat := len / 256 % 256

/-- `DecimalScaleOf`. -/
def decimalScaleOf (len : Nat) : UInt8 := UInt8.ofNat (len % 256)

def columnName (col : SysColumnRow) : String := "column '" ++ col.name ++ "'"

/-- Why a type has no width, no cell and no key. -/
def unsupportedType (column : String) (col : SysColumnRow) (why number : String) : Status :=
  if col.typeVal = typeValFloat then
    .unsupported (column ++
      " has type float, which this engine does not store (docs/spec/types.md TY1)" ++ why)
  else .invalidArgument (column ++ " has an unrecognized type_val" ++ number)

/-- `RowLayout::ColumnWidth`. -/
def columnWidth (col : SysColumnRow) (inlineCellWidth : Nat) : StatusOr Nat :=
  match col.kind with
  | some (.signed width) => .ok width.bytes
  | some .bool => .ok 1
  | some .uint64 | some .timestamp | some .decimal => .ok 8
  | some .decimalWide => .ok 16
  | some .date => .ok 4
  | some .char => .ok col.len
  | some .varchar => .ok inlineCellWidth
  | none => .error (unsupportedType (columnName col) col
      (": IEEE comparison and aggregation semantics conflict with its exactness discipline. " ++
        "Use decimal(p, s) for money and int64 for counts") (" " ++ toString col.typeVal))

-- Cells

/-- One column's cell. -/
inductive StoredCell where
  | fixed (bytes : Bytes)
  | inlined (text : Bytes)
  | spilled (len ptr : Nat)
  deriving DecidableEq

/-- The values of the var-heap, by pointer; none is changed or freed. -/
abbrev VarHeap := List Bytes

/-- `InlineCapacity`: what follows the tag and the length. -/
def inlineCapacity (width : Nat) : Nat := width - 3

def maxVarHeapValueSize : Nat := 8144

/-- The parsers of written literals (`type_literals.cpp`), with the ranges they keep to. -/
structure TypeLiterals where
  parseDate : Bytes → StatusOr { d : Int // kMinEpochDay ≤ d ∧ d ≤ kMaxEpochDay }
  parseTimestamp : Bytes → StatusOr { t : Int // kMinEpochMicros ≤ t ∧ t ≤ kMaxEpochMicros }
  parseDecimal : Bytes → Nat → UInt8 → StatusOr { u : Int // -2 ^ 63 ≤ u ∧ u < 2 ^ 63 }
  parseDecimalWide : Bytes → Nat → UInt8 → StatusOr { u : Int // -2 ^ 127 ≤ u ∧ u < 2 ^ 127 }

/-- `PutLE` of a value cast to `uint64`. -/
def putLE (width : Nat) (v : Int) : Bytes := storeLE width (v % 2 ^ 64).toNat

/-- `SignExtend` of a field. -/
def getSigned (width : Nat) (bytes : Bytes) : Int :=
  if load width bytes 0 < 2 ^ (8 * width - 1) then load width bytes 0
  else load width bytes 0 - 2 ^ (8 * width)

/-- `FitsSigned`. -/
def fitsSigned (v : Int) (width : Nat) : Bool :=
  decide (-2 ^ (8 * width - 1) ≤ v ∧ v < 2 ^ (8 * width - 1))

/-- `Int128Low` and `Int128High`: the halves as signed fields carry them. -/
def int128Low (u : Int) : Int := if u % 2 ^ 64 < 2 ^ 63 then u % 2 ^ 64 else u % 2 ^ 64 - 2 ^ 64
def int128High (u : Int) : Int := u / 2 ^ 64

def inColumn (col : SysColumnRow) (e : Status) : Status :=
  e.withContext (columnName col)

/-- Why a value of another type is refused. -/
def refuseValue (col : SysColumnRow) (text : String) : Status :=
  .invalidArgument (columnName col ++ " " ++ text)

/-- A scale that is not the column's. -/
def scaleRefusal (column : String) (col : SysColumnRow) (scale : UInt8) : Status :=
  .invalidArgument (column ++ " has scale " ++
    toString (decimalScaleOf col.len).toNat ++ " but the value carries scale " ++
    toString scale.toNat ++ "; this engine does not rescale")

/-- The switch of `EncodeOneValue`, with what it appends to the var-heap. -/
def encodeByKind (lits : TypeLiterals) (inlineCellWidth : Nat) (col : SysColumnRow)
    (v : AstValue) (heap : VarHeap) : ColumnKind → StatusOr (StoredCell × VarHeap)
  | .signed width =>
    if v.type ≠ .int then .error (refuseValue col "expects an integer")
    else if fitsSigned v.intVal width.bytes then
      .ok (.fixed (putLE width.bytes v.intVal), heap)
    else .error (.invalidArgument ("value " ++ toString v.intVal ++ " does not fit " ++
      columnName col))
  | .uint64 =>
    if v.type ≠ .int then .error (refuseValue col "expects an integer")
    else
      match valueAsUint64 v with
      | some n => .ok (.fixed (putLE 8 n), heap)
      | none => .error (inColumn col (.invalidArgument (uint64Refusal v)))
  | .bool =>
    if v.type ≠ .int ∨ v.intVal ≠ 0 ∧ v.intVal ≠ 1 then
      .error (refuseValue col "expects 0 or 1 (no boolean literal in this grammar)")
    else .ok (.fixed (putLE 1 v.intVal), heap)
  | .char =>
    if v.type ≠ .str then .error (refuseValue col "expects a string")
    else if col.len < v.strVal.length then
      .error (.invalidArgument ("value too long for " ++ columnName col ++ " (max " ++
        toString col.len ++ " bytes)"))
    else .ok (.fixed (v.strVal ++ List.replicate (col.len - v.strVal.length) 0), heap)
  | .varchar =>
    if v.type ≠ .str then .error (refuseValue col "expects a string")
    else if v.strVal.length ≤ inlineCapacity inlineCellWidth then .ok (.inlined v.strVal, heap)
    else if maxVarHeapValueSize < v.strVal.length then
      .error (inColumn col (.unsupported ("var-heap value of " ++ toString v.strVal.length ++
        " bytes exceeds the " ++ toString maxVarHeapValueSize ++
        " a page can hold; values spanning pages are not supported")))
    else .ok (.spilled v.strVal.length heap.length, heap ++ [v.strVal])
  | .date =>
    match v.type with
    | .str =>
      match lits.parseDate v.strVal with
      | .ok days => .ok (.fixed (putLE 4 days), heap)
      | .error e => .error (inColumn col e)
    | .int =>
      if kMinEpochDay ≤ v.intVal ∧ v.intVal ≤ kMaxEpochDay then
        .ok (.fixed (putLE 4 v.intVal), heap)
      else .error (.outOfRange (columnName col ++ " date is outside the supported range"))
    | _ => .error (refuseValue col "expects a date written as a string, 'YYYY-MM-DD'")
  | .timestamp =>
    match v.type with
    | .str =>
      match lits.parseTimestamp v.strVal with
      | .ok micros => .ok (.fixed (putLE 8 micros), heap)
      | .error e => .error (inColumn col e)
    | .int =>
      if kMinEpochMicros ≤ v.intVal ∧ v.intVal ≤ kMaxEpochMicros then
        .ok (.fixed (putLE 8 v.intVal), heap)
      else .error (.outOfRange (columnName col ++ " timestamp is outside the supported range"))
    | _ => .error (refuseValue col
        "expects a timestamp written as a string, 'YYYY-MM-DD HH:MM:SS[.ffffff]'")
  | .decimal =>
    match v.type with
    | .str =>
      match lits.parseDecimal v.strVal (decimalPrecisionOf col.len)
          (decimalScaleOf col.len) with
      | .ok unscaled => .ok (.fixed (putLE 8 unscaled), heap)
      | .error e => .error (inColumn col e)
    | .decimal =>
      if v.scale ≠ decimalScaleOf col.len then .error (scaleRefusal (columnName col) col v.scale)
      else .ok (.fixed (putLE 8 v.intVal), heap)
    | _ => .error (refuseValue col "expects a decimal written as a string, e.g. '12.34'")
  | .decimalWide =>
    match v.type with
    | .str =>
      match lits.parseDecimalWide v.strVal (decimalPrecisionOf col.len)
          (decimalScaleOf col.len) with
      | .ok unscaled =>
        .ok (.fixed (putLE 8 (int128Low unscaled) ++ putLE 8 (int128High unscaled)), heap)
      | .error e => .error (inColumn col e)
    | .decimalWide =>
      if v.scale ≠ decimalScaleOf col.len then .error (scaleRefusal (columnName col) col v.scale)
      else .ok (.fixed (putLE 8 v.intVal ++ putLE 8 v.decHi), heap)
    | _ => .error (refuseValue col "expects a decimal written as a string, e.g. '12.34'")

/-- `EncodeOneValue`. -/
def encodeOneValue (lits : TypeLiterals) (inlineCellWidth : Nat) (col : SysColumnRow)
    (v : AstValue) (heap : VarHeap) : StatusOr (StoredCell × VarHeap) :=
  if v.type = .null then
    .error (.corruption (columnName col ++
      ": a NULL reached the cell encoder; EncodeRow's driver owns NULL handling"))
  else if v.type = .param then
    .error (.corruption (columnName col ++ ": parameter '$" ++ textOf v.strVal ++
      "' has no bound value to store"))
  else
    match col.kind with
    | none => .error (unsupportedType (columnName col) col "" "")
    | some kind => encodeByKind lits inlineCellWidth col v heap kind

section

variable (lits : TypeLiterals) (inlineCellWidth : Nat) (col : SysColumnRow) (v : AstValue)
  (heap : VarHeap)

/-- What `EncodeOneValue` accepts of each kind, with the cell and the var-heap that it leaves. -/
inductive Encodes : ColumnKind → StoredCell → VarHeap → Prop
  | signed {width} (htype : v.type = .int) (hfits : fitsSigned v.intVal width.bytes = true) :
    Encodes (.signed width) (.fixed (putLE width.bytes v.intVal)) heap
  | uint64 {n : Nat} (htype : v.type = .int) (hn : valueAsUint64 v = some n) :
    Encodes .uint64 (.fixed (putLE 8 n)) heap
  | bool (htype : v.type = .int) (hbit : ¬ (v.intVal ≠ 0 ∧ v.intVal ≠ 1)) :
    Encodes .bool (.fixed (putLE 1 v.intVal)) heap
  | char (htype : v.type = .str) (hroom : ¬ col.len < v.strVal.length) :
    Encodes .char (.fixed (v.strVal ++ List.replicate (col.len - v.strVal.length) 0)) heap
  | inlined (htype : v.type = .str) (hroom : v.strVal.length ≤ inlineCapacity inlineCellWidth) :
    Encodes .varchar (.inlined v.strVal) heap
  | spilled (htype : v.type = .str) (hlong : ¬ v.strVal.length ≤ inlineCapacity inlineCellWidth)
      (hroom : ¬ maxVarHeapValueSize < v.strVal.length) :
    Encodes .varchar (.spilled v.strVal.length heap.length) (heap ++ [v.strVal])
  | date (htype : v.type = .int) (hrange : kMinEpochDay ≤ v.intVal ∧ v.intVal ≤ kMaxEpochDay) :
    Encodes .date (.fixed (putLE 4 v.intVal)) heap
  | dateText {days} (htype : v.type = .str) (hparsed : lits.parseDate v.strVal = .ok days) :
    Encodes .date (.fixed (putLE 4 days)) heap
  | timestamp (htype : v.type = .int)
      (hrange : kMinEpochMicros ≤ v.intVal ∧ v.intVal ≤ kMaxEpochMicros) :
    Encodes .timestamp (.fixed (putLE 8 v.intVal)) heap
  | timestampText {micros} (htype : v.type = .str)
      (hparsed : lits.parseTimestamp v.strVal = .ok micros) :
    Encodes .timestamp (.fixed (putLE 8 micros)) heap
  | decimal (htype : v.type = .decimal) (hscale : v.scale = decimalScaleOf col.len) :
    Encodes .decimal (.fixed (putLE 8 v.intVal)) heap
  | decimalText {unscaled} (htype : v.type = .str) (hparsed : lits.parseDecimal v.strVal
      (decimalPrecisionOf col.len) (decimalScaleOf col.len) = .ok unscaled) :
    Encodes .decimal (.fixed (putLE 8 unscaled)) heap
  | decimalWide (htype : v.type = .decimalWide) (hscale : v.scale = decimalScaleOf col.len) :
    Encodes .decimalWide (.fixed (putLE 8 v.intVal ++ putLE 8 v.decHi)) heap
  | decimalWideText {unscaled} (htype : v.type = .str) (hparsed : lits.parseDecimalWide v.strVal
      (decimalPrecisionOf col.len) (decimalScaleOf col.len) = .ok unscaled) :
    Encodes .decimalWide
      (.fixed (putLE 8 (int128Low unscaled) ++ putLE 8 (int128High unscaled))) heap

end

/-- The switch of `EncodeOneValue` succeeds as `Encodes` says, and in no other way. -/
theorem encodeByKind_eq_ok {lits : TypeLiterals} {inlineCellWidth : Nat} {col : SysColumnRow}
    {v : AstValue} {heap heap' : VarHeap} {kind : ColumnKind} {cell : StoredCell} :
    encodeByKind lits inlineCellWidth col v heap kind = .ok (cell, heap') ↔
      Encodes lits inlineCellWidth col v heap kind cell heap' := by
  constructor
  · intro h
    cases kind with
    | signed width =>
      rw [encodeByKind] at h
      split_ifs at h with htype hfits
      cases h
      exact .signed (not_not.mp htype) hfits
    | uint64 =>
      rw [encodeByKind] at h
      split_ifs at h with htype
      split at h <;> cases h
      exact .uint64 (not_not.mp htype) ‹_›
    | bool =>
      rw [encodeByKind] at h
      split_ifs at h with hbad
      cases h
      exact .bool (not_not.mp (not_or.mp hbad).1) (not_or.mp hbad).2
    | char =>
      rw [encodeByKind] at h
      split_ifs at h with htype hroom
      cases h
      exact .char (not_not.mp htype) hroom
    | varchar =>
      rw [encodeByKind] at h
      split_ifs at h with htype hroom hlong
      · cases h
        exact .inlined (not_not.mp htype) hroom
      · cases h
        exact .spilled (not_not.mp htype) hroom hlong
    | date =>
      rw [encodeByKind] at h
      split at h
      · split at h <;> cases h
        exact .dateText ‹_› ‹_›
      · split_ifs at h with hrange
        cases h
        exact .date ‹_› hrange
      · cases h
    | timestamp =>
      rw [encodeByKind] at h
      split at h
      · split at h <;> cases h
        exact .timestampText ‹_› ‹_›
      · split_ifs at h with hrange
        cases h
        exact .timestamp ‹_› hrange
      · cases h
    | decimal =>
      rw [encodeByKind] at h
      split at h
      · split at h <;> cases h
        exact .decimalText ‹_› ‹_›
      · split_ifs at h with hscale
        cases h
        exact .decimal ‹_› (not_not.mp hscale)
      · cases h
    | decimalWide =>
      rw [encodeByKind] at h
      split at h
      · split at h <;> cases h
        exact .decimalWideText ‹_› ‹_›
      · split_ifs at h with hscale
        cases h
        exact .decimalWide ‹_› (not_not.mp hscale)
      · cases h
  · intro h
    cases h with
    | spilled htype hlong hroom =>
      rw [encodeByKind, if_neg (not_not_intro htype), if_neg hlong, if_neg hroom]
    | _ => simp_all [encodeByKind]

-- Decoding

theorem load_zero_lt (width : Nat) (bytes : Bytes) : load width bytes 0 < 2 ^ (8 * width) := by
  rw [Nat.pow_mul]
  exact load_lt width bytes 0

theorem getSigned_range (width : IntWidth) (bytes : Bytes) :
    -2 ^ 63 ≤ getSigned width.bytes bytes ∧ getSigned width.bytes bytes < 2 ^ 63 := by
  have hlt := load_zero_lt width.bytes bytes
  rw [getSigned]
  cases width <;> simp only [IntWidth.bytes] at hlt ⊢ <;> split_ifs <;> omega

/-- A signed integer read back. -/
def signedCell (width : IntWidth) (bytes : Bytes) : Cell :=
  ⟨.ofInt (getSigned width.bytes bytes), getSigned_range width bytes, .inl rfl⟩

theorem parseDigits_append (acc : Nat) (ds : Bytes) (c : UInt8) :
    parseDigits acc (ds ++ [c]) = (parseDigits acc ds).bind fun n => parseDigits n [c] := by
  induction ds generalizing acc with
  | nil => rfl
  | cons d ds ih =>
    rw [cons_append, parseDigits, parseDigits]
    by_cases hdigit : 48 ≤ d ∧ d ≤ 57
    · rw [if_pos hdigit, if_pos hdigit]
      dsimp only
      by_cases hfits : acc * 10 + (d.toNat - 48) < 2 ^ 64
      · rw [if_pos hfits, if_pos hfits]
        exact ih _
      · rw [if_neg hfits, if_neg hfits]
        rfl
    · rw [if_neg hdigit, if_neg hdigit]
      rfl

variable {n : Nat} {v : AstValue}

theorem parseUint64Text_decimalText (h : n < 2 ^ 64) :
    parseUint64Text (decimalText n) = some n := by
  have hdigit : ∀ d < 10, UInt8.ofNat (Nat.digitChar d).toNat = UInt8.ofNat (48 + d) := by decide
  have htext : decimalText n = (Nat.toDigits 10 n).map fun c => UInt8.ofNat c.toNat := by
    rw [decimalText]
    show ((Nat.repr n).toList.map fun c => UInt8.ofNat c.toNat) = _
    rw [Nat.toList_repr]
  have hparse : ∀ m : Nat, m < 2 ^ 64 →
      parseDigits 0 ((Nat.toDigits 10 m).map fun c => UInt8.ofNat c.toNat) = some m := by
    intro m
    induction m using Nat.strongRecOn with
    | ind m ih =>
      intro hm
      have hlast : ∀ acc d, d < 10 → acc * 10 + d < 2 ^ 64 →
          parseDigits acc [UInt8.ofNat (Nat.digitChar d).toNat] = some (acc * 10 + d) := by
        intro acc d hd hfits
        have hval : (UInt8.ofNat (48 + d)).toNat = 48 + d :=
          UInt8.toNat_ofNat_of_lt' (show 48 + d < 256 by omega)
        have hrange : 48 ≤ UInt8.ofNat (48 + d) ∧ UInt8.ofNat (48 + d) ≤ 57 := by
          rw [UInt8.le_iff_toNat_le, UInt8.le_iff_toNat_le, hval]
          exact ⟨Nat.le_add_right 48 d, show 48 + d ≤ 57 by omega⟩
        rw [hdigit d hd, parseDigits, if_pos hrange]
        dsimp only
        rw [hval, Nat.add_sub_cancel_left, if_pos hfits, parseDigits]
      by_cases hsmall : m < 10
      · rw [Nat.toDigits_of_lt_base hsmall]
        simpa using hlast 0 m hsmall (by omega)
      · rw [Nat.toDigits_of_base_le (by decide) (by omega), map_append, map_singleton,
          parseDigits_append, ih (m / 10) (by omega) (by omega), Option.bind_some,
          hlast (m / 10) (m % 10) (by omega) (by omega)]
        exact congrArg some (by omega)
  have hne : (Nat.toDigits 10 n).map (fun c => UInt8.ofNat c.toNat) ≠ [] := by
    intro hnil
    have hzero := hparse n h
    rw [hnil, parseDigits] at hzero
    rw [← Option.some.inj hzero] at hnil
    exact absurd hnil (by decide)
  obtain ⟨c, cs, heq⟩ := exists_cons_of_ne_nil hne
  rw [htext, heq, parseUint64Text, ← heq]
  exact hparse n h

/-- A `uint64` read back: the digits only where the signed field cannot hold the value. -/
def uint64Cell (bytes : Bytes) : Cell :=
  let n := load 8 bytes 0
  if h : n < 2 ^ 63 then ⟨.ofInt n, ⟨by show -2 ^ 63 ≤ (n : Int) ∧ (n : Int) < 2 ^ 63; omega,
    .inl rfl⟩⟩
  else ⟨{ type := .int, intVal := n - 2 ^ 64, rawIntText := decimalText n }, by
    have hlt := load_zero_lt 8 bytes
    refine ⟨?_, .inr ⟨n, parseUint64Text_decimalText hlt, by omega, rfl⟩⟩
    dsimp only
    omega⟩

/-- A boolean read back. -/
def boolCell (bytes : Bytes) : Cell :=
  ⟨.ofInt (load 1 bytes 0), ⟨by
    have hlt := load_zero_lt 1 bytes
    show -2 ^ 63 ≤ (load 1 bytes 0 : Int) ∧ (load 1 bytes 0 : Int) < 2 ^ 63
    omega, .inl rfl⟩⟩

@[simp] theorem signedCell_val (width : IntWidth) (bytes : Bytes) :
    (signedCell width bytes).val = .ofInt (getSigned width.bytes bytes) := rfl

def strCell (text : Bytes) : Cell :=
  ⟨{ type := .str, strVal := text },
    (by decide : (-2 ^ 63 : Int) ≤ 0 ∧ (0 : Int) < 2 ^ 63), .inl rfl⟩

def decimalCell (col : SysColumnRow) (bytes : Bytes) : Cell :=
  ⟨{ type := .decimal, intVal := getSigned 8 bytes, scale := decimalScaleOf col.len },
    getSigned_range .w64 bytes, .inl rfl⟩

def decimalWideCell (col : SysColumnRow) (bytes : Bytes) : Cell :=
  ⟨{ type := .decimalWide, intVal := getSigned 8 bytes, scale := decimalScaleOf col.len
     decHi := getSigned 8 (bytes.drop 8) }, getSigned_range .w64 bytes, .inl rfl⟩

@[simp] theorem decimalCell_val (col : SysColumnRow) (bytes : Bytes) : (decimalCell col bytes).val =
    { type := .decimal, intVal := getSigned 8 bytes, scale := decimalScaleOf col.len } := rfl

@[simp] theorem decimalWideCell_val (col : SysColumnRow) (bytes : Bytes) :
    (decimalWideCell col bytes).val =
      { type := .decimalWide, intVal := getSigned 8 bytes, scale := decimalScaleOf col.len
        decHi := getSigned 8 (bytes.drop 8) } := rfl

/-- The primary key, out of the Keystone word's low 40 bits. -/
def keystoneCell (id : Nat) : Cell :=
  ⟨.ofInt (id % 2 ^ 40 : Nat), ⟨by
    have hlt : id % 2 ^ 40 < 2 ^ 40 := Nat.mod_lt _ (by decide)
    show -2 ^ 63 ≤ ((id % 2 ^ 40 : Nat) : Int) ∧ ((id % 2 ^ 40 : Nat) : Int) < 2 ^ 63
    omega, .inl rfl⟩⟩

/-- A cell read: its value, or where the value is. -/
inductive DecodedCell where
  | value (v : Cell)
  | pendingSpill (len ptr : Nat)

/-- The switch of `DecodeOneValueInto`. -/
def decodeByKind (col : SysColumnRow) : ColumnKind → StoredCell → StatusOr DecodedCell
  | .signed width, .fixed bytes => .ok (.value (signedCell width bytes))
  | .date, .fixed bytes => .ok (.value (signedCell .w32 bytes))
  | .timestamp, .fixed bytes => .ok (.value (signedCell .w64 bytes))
  | .uint64, .fixed bytes => .ok (.value (uint64Cell bytes))
  | .bool, .fixed bytes => .ok (.value (boolCell bytes))
  | .char, .fixed bytes => .ok (.value (strCell (bytes.takeWhile (· ≠ 0))))
  | .decimal, .fixed bytes => .ok (.value (decimalCell col bytes))
  | .decimalWide, .fixed bytes => .ok (.value (decimalWideCell col bytes))
  | .varchar, .inlined text => .ok (.value (strCell text))
  | .varchar, .spilled len ptr => .ok (.pendingSpill len ptr)
  | _, _ => .error (.corruption (columnName col ++ " holds another type's cell"))

/-- `DecodeOneValueInto`. -/
def decodeOneValueInto (col : SysColumnRow) (cell : StoredCell) : StatusOr DecodedCell :=
  match col.kind with
  | none =>
    if col.typeVal = typeValFloat then
      .error (.corruption (columnName col ++ " has type float, which no row this codec wrote " ++
        "should ever contain (see row_codec.hpp)"))
    else .error (.corruption (columnName col ++ " has an unrecognized type_val"))
  | some kind => decodeByKind col kind cell

/-- `ResolveSpills`, of one value. -/
def resolveSpill (heap : VarHeap) (len ptr : Nat) : StatusOr Cell :=
  match heap[ptr]? with
  | none => .error (.notFound "var-heap slot not found")
  | some text =>
    if text.length ≠ len then
      .error (.corruption ("spilled value is " ++ toString text.length ++
        " bytes in the var-heap but the tuple's cell says " ++ toString len))
    else .ok (strCell text)

/-- A column of a stored row, its spill resolved. -/
def decodeStored (heap : VarHeap) (col : SysColumnRow) (cell : Option StoredCell) :
    StatusOr Cell :=
  match cell with
  | none => .ok nullCell
  | some cell => do
    match ← decodeOneValueInto col cell with
    | .value v => .ok v
    | .pendingSpill len ptr => resolveSpill heap len ptr

-- Coercion

/-- An integer literal wider than `int64` wrapped in the lexer. -/
def intLiteralWrapped (v : AstValue) : Bool :=
  decide (v.type = .int ∧ v.rawIntText ≠ [] ∧ v.rawIntText ≠ decimalText v.intVal)

/-- The switch of `CoerceLiteralToColumn`. -/
def coerceByKind (lits : TypeLiterals) (col : SysColumnRow) (v : AstValue) :
    ColumnKind → StatusOr AstValue
  | .date =>
    match v.type with
    | .int =>
      if intLiteralWrapped v ∨ v.intVal < kMinEpochDay ∨ kMaxEpochDay < v.intVal then
        .error (.outOfRange "date is outside the supported range")
      else .ok v
    | .str => (lits.parseDate v.strVal).map fun days =>
      { v with type := .int, intVal := days, strVal := [], rawIntText := [] }
    | _ => .error (.invalidArgument "a date is written as a string, 'YYYY-MM-DD'")
  | .timestamp =>
    match v.type with
    | .int =>
      if intLiteralWrapped v ∨ v.intVal < kMinEpochMicros ∨ kMaxEpochMicros < v.intVal then
        .error (.outOfRange "timestamp is outside the supported range")
      else .ok v
    | .str => (lits.parseTimestamp v.strVal).map fun micros =>
      { v with type := .int, intVal := micros, strVal := [], rawIntText := [] }
    | _ => .error (.invalidArgument
        "a timestamp is written as a string, 'YYYY-MM-DD HH:MM:SS[.ffffff]'")
  | .decimal =>
    let scale := decimalScaleOf col.len
    let parsed (text : Bytes) : StatusOr AstValue :=
      (lits.parseDecimal text (decimalPrecisionOf col.len) scale).map fun unscaled =>
        { v with type := .decimal, intVal := unscaled, scale := scale, strVal := []
                 rawIntText := [] }
    match v.type with
    | .decimal => if v.scale ≠ scale then .error (scaleRefusal "column" col v.scale) else .ok v
    | .int =>
      if intLiteralWrapped v then
        .error (.outOfRange ("integer literal " ++ textOf v.rawIntText ++
          " has more digits than a decimal(p <= 18) can hold"))
      else parsed (decimalText v.intVal)
    | .str => parsed v.strVal
    | _ => .error (.invalidArgument "a decimal is written as a string, e.g. '12.34'")
  | .decimalWide =>
    let scale := decimalScaleOf col.len
    let parsed (text : Bytes) : StatusOr AstValue :=
      (lits.parseDecimalWide text (decimalPrecisionOf col.len) scale).map fun unscaled =>
        { v with type := .decimalWide, intVal := int128Low unscaled
                 decHi := int128High unscaled, scale := scale, strVal := [], rawIntText := [] }
    match v.type with
    | .decimalWide =>
      if v.scale ≠ scale then .error (scaleRefusal "column" col v.scale) else .ok v
    | .int => parsed (if v.rawIntText = [] then decimalText v.intVal else v.rawIntText)
    | .str => parsed v.strVal
    | _ => .error (.invalidArgument "a decimal is written as a string, e.g. '12.34'")
  | .signed _ | .uint64 | .bool | .char | .varchar => .ok v

/-- `CoerceLiteralToColumn`. -/
def coerceLiteralToColumn (lits : TypeLiterals) (col : SysColumnRow) (v : AstValue) :
    StatusOr AstValue :=
  if v.type = .param ∨ v.type = .null then .ok v
  else
    match col.kind with
    | none => .ok v
    | some kind => coerceByKind lits col v kind

-- What is stored is what was written

/-- The two `int64` fields of a value. -/
structure AstValue.Fits (v : AstValue) : Prop where
  intVal : -2 ^ 63 ≤ v.intVal ∧ v.intVal < 2 ^ 63
  decHi : -2 ^ 63 ≤ v.decHi ∧ v.decHi < 2 ^ 63

/-- A value in storage form and the value its cell reads back as: they are the same, but that a
    `char` ends at its first zero byte. -/
def SameStored (kind : ColumnKind) (c d : AstValue) : Prop :=
  match kind with
  | .signed _ | .bool | .date | .timestamp => c.type = .int ∧ d.type = .int ∧ d.intVal = c.intVal
  | .uint64 => c.type = .int ∧ d.type = .int ∧ valueAsUint64 d = valueAsUint64 c
  | .decimal => c.type = .decimal ∧ d.type = .decimal ∧ d.scale = c.scale ∧ d.intVal = c.intVal
  | .decimalWide => c.type = .decimalWide ∧ d.type = .decimalWide ∧ d.scale = c.scale ∧
      d.intVal = c.intVal ∧ d.decHi = c.decHi
  | .char => c.type = .str ∧ d.type = .str ∧ d.strVal = c.strVal.takeWhile (· ≠ 0)
  | .varchar => c.type = .str ∧ d.type = .str ∧ d.strVal = c.strVal

theorem load_putLE_append (width : Nat) (v : Int) (rest : Bytes) :
    load width (putLE width v ++ rest) 0 = (v % 2 ^ 64).toNat % 256 ^ width := by
  rw [load, drop_zero, putLE, take_left' (length_storeLE width _), leNat_storeLE]

theorem load_putLE (width : Nat) (v : Int) :
    load width (putLE width v) 0 = (v % 2 ^ 64).toNat % 256 ^ width := by
  have h := load_putLE_append width v []
  rwa [append_nil] at h

theorem getSigned_putLE_append {width : IntWidth} {v : Int} (rest : Bytes)
    (h : fitsSigned v width.bytes = true) :
    getSigned width.bytes (putLE width.bytes v ++ rest) = v := by
  have h := of_decide_eq_true h
  rw [getSigned, load_putLE_append]
  cases width <;> simp only [IntWidth.bytes] at h ⊢ <;> split_ifs <;> omega

theorem getSigned_putLE {width : IntWidth} {v : Int} (h : fitsSigned v width.bytes = true) :
    getSigned width.bytes (putLE width.bytes v) = v := by
  have hread := getSigned_putLE_append [] h
  rwa [append_nil] at hread

theorem getSigned_putLE_w64 {v : Int} (h : -2 ^ 63 ≤ v ∧ v < 2 ^ 63) :
    getSigned 8 (putLE 8 v) = v := by
  refine @getSigned_putLE .w64 v ?_
  rw [fitsSigned, decide_eq_true_eq]
  exact h

theorem uint64Cell_val (bytes : Bytes) : (uint64Cell bytes).val =
    if load 8 bytes 0 < 2 ^ 63 then .ofInt (load 8 bytes 0)
    else { type := .int, intVal := load 8 bytes 0 - 2 ^ 64
           rawIntText := decimalText (load 8 bytes 0) } := by
  by_cases h : load 8 bytes 0 < 2 ^ 63
  · rw [uint64Cell, dif_pos h, if_pos h]
  · rw [uint64Cell, dif_neg h, if_neg h]

theorem valueAsUint64_uint64Cell (h : n < 2 ^ 64) :
    valueAsUint64 (uint64Cell (putLE 8 n)).val = some n := by
  have hload : load 8 (putLE 8 n) 0 = n := by
    rw [load_putLE]
    omega
  rw [uint64Cell_val, hload]
  by_cases hsmall : n < 2 ^ 63
  · rw [if_pos hsmall, valueAsUint64, if_neg (fun hne => hne rfl), if_neg (fun hne => hne rfl),
      if_neg (show ¬ (AstValue.ofInt n).intVal < 0 from Int.not_lt.mpr (Int.natCast_nonneg n))]
    rfl
  · have htext := parseUint64Text_decimalText h
    have hne : decimalText n ≠ [] := fun hnil => by rw [hnil] at htext; cases htext
    rw [if_neg hsmall, valueAsUint64, if_neg (fun hne => hne rfl), if_pos hne]
    exact htext

theorem valueAsUint64_lt (hfits : AstValue.Fits v) (h : valueAsUint64 v = some n) :
    v.type = .int ∧ n < 2 ^ 64 := by
  have hrange := hfits.intVal
  rw [valueAsUint64] at h
  split_ifs at h with htype htext hneg
  · exact ⟨not_not.mp htype, parseUint64Text_lt h⟩
  · cases h
    exact ⟨not_not.mp htype, by omega⟩

/-- What is read of a cell, now and after later appends to the var-heap, is the coerced value. -/
def ReadsBack (lits : TypeLiterals) (col : SysColumnRow) (kind : ColumnKind) (v : AstValue)
    (heap : VarHeap) (cell : StoredCell) (heap' : VarHeap) : Prop :=
  ∃ added d, heap' = heap ++ added ∧
    (∀ later, decodeStored (heap' ++ later) col (some cell) = .ok d) ∧
    ∀ c, coerceByKind lits col v kind = .ok c → SameStored kind c d.val

section

variable {lits : TypeLiterals} {col : SysColumnRow} {kind : ColumnKind} {v : AstValue}
  {heap heap' : VarHeap} {cell : StoredCell} {inlineCellWidth : Nat}

theorem readsBack_fixed (hkind : col.kind = some kind) (bytes : Bytes) (d : Cell)
    (hdecode : decodeByKind col kind (.fixed bytes) = .ok (.value d))
    (hsame : ∀ c, coerceByKind lits col v kind = .ok c → SameStored kind c d.val) :
    ReadsBack lits col kind v heap (.fixed bytes) heap := by
  refine ⟨[], d, (append_nil heap).symm, fun later => ?_, hsame⟩
  rw [decodeStored, decodeOneValueInto, hkind]
  dsimp only
  rw [hdecode]
  rfl

theorem readsBack_uint64 (hfits : AstValue.Fits v) (hkind : col.kind = some .uint64) {n : Nat}
    (htype : v.type = .int) (hn : valueAsUint64 v = some n) :
    ReadsBack lits col .uint64 v heap (.fixed (putLE 8 n)) heap := by
  refine readsBack_fixed hkind _ (uint64Cell (putLE 8 n)) rfl fun c hc => ?_
  cases hc
  have hread := valueAsUint64_uint64Cell (valueAsUint64_lt hfits hn).2
  refine ⟨htype, ?_, hread.trans hn.symm⟩
  by_contra hne
  rw [valueAsUint64, if_pos hne] at hread
  cases hread

theorem readsBack_bool (hkind : col.kind = some .bool) (htype : v.type = .int)
    (hbit : ¬ (v.intVal ≠ 0 ∧ v.intVal ≠ 1)) :
    ReadsBack lits col .bool v heap (.fixed (putLE 1 v.intVal)) heap := by
  refine readsBack_fixed hkind _ (boolCell (putLE 1 v.intVal)) rfl fun c hc => ?_
  cases hc
  refine ⟨htype, rfl, ?_⟩
  show ((load 1 (putLE 1 v.intVal) 0 : Nat) : Int) = v.intVal
  rw [load_putLE]
  omega

theorem getSigned_putLE_day {day : Int} (h : kMinEpochDay ≤ day ∧ day ≤ kMaxEpochDay) :
    getSigned 4 (putLE 4 day) = day := by
  refine @getSigned_putLE .w32 day (decide_eq_true ?_)
  rw [kMinEpochDay, kMaxEpochDay] at h
  show (-2 ^ 31 : Int) ≤ day ∧ day < 2 ^ 31
  omega

theorem readsBack_date (hkind : col.kind = some .date)
    (h : Encodes lits inlineCellWidth col v heap .date cell heap') :
    ReadsBack lits col .date v heap cell heap' := by
  cases h with
  | @dateText days htype hparsed =>
    refine readsBack_fixed hkind _ (signedCell .w32 (putLE 4 days)) rfl fun c hc => ?_
    rw [coerceByKind, htype, hparsed] at hc
    cases hc
    exact ⟨rfl, rfl, getSigned_putLE_day days.2⟩
  | date htype hrange =>
    refine readsBack_fixed hkind _ (signedCell .w32 (putLE 4 v.intVal)) rfl fun c hc => ?_
    rw [coerceByKind, htype] at hc
    dsimp only at hc
    split_ifs at hc
    cases hc
    exact ⟨htype, rfl, getSigned_putLE_day hrange⟩

theorem getSigned_putLE_micros {t : Int} (h : kMinEpochMicros ≤ t ∧ t ≤ kMaxEpochMicros) :
    getSigned 8 (putLE 8 t) = t := by
  apply getSigned_putLE_w64
  rw [kMinEpochMicros, kMaxEpochMicros, kMinEpochDay, kMaxEpochDay] at h
  omega

theorem readsBack_timestamp (hkind : col.kind = some .timestamp)
    (h : Encodes lits inlineCellWidth col v heap .timestamp cell heap') :
    ReadsBack lits col .timestamp v heap cell heap' := by
  cases h with
  | @timestampText micros htype hparsed =>
    refine readsBack_fixed hkind _ (signedCell .w64 (putLE 8 micros)) rfl fun c hc => ?_
    rw [coerceByKind, htype, hparsed] at hc
    cases hc
    rw [signedCell_val, IntWidth.bytes, getSigned_putLE_micros micros.2]
    exact ⟨rfl, rfl, rfl⟩
  | timestamp htype hrange =>
    refine readsBack_fixed hkind _ (signedCell .w64 (putLE 8 v.intVal)) rfl fun c hc => ?_
    rw [coerceByKind, htype] at hc
    dsimp only at hc
    split_ifs at hc
    cases hc
    rw [signedCell_val, IntWidth.bytes, getSigned_putLE_micros hrange]
    exact ⟨htype, rfl, rfl⟩

theorem readsBack_decimal (hfits : AstValue.Fits v) (hkind : col.kind = some .decimal)
    (h : Encodes lits inlineCellWidth col v heap .decimal cell heap') :
    ReadsBack lits col .decimal v heap cell heap' := by
  cases h with
  | @decimalText unscaled htype hparsed =>
    refine readsBack_fixed hkind _ (decimalCell col (putLE 8 unscaled)) rfl fun c hc => ?_
    rw [coerceByKind, htype] at hc
    dsimp only at hc
    rw [hparsed] at hc
    cases hc
    rw [decimalCell_val, getSigned_putLE_w64 unscaled.2]
    exact ⟨rfl, rfl, rfl, rfl⟩
  | decimal htype hscale =>
    refine readsBack_fixed hkind _ (decimalCell col (putLE 8 v.intVal)) rfl fun c hc => ?_
    rw [coerceByKind, htype] at hc
    dsimp only at hc
    rw [if_neg (not_not_intro hscale)] at hc
    cases hc
    rw [decimalCell_val, getSigned_putLE_w64 hfits.intVal]
    exact ⟨htype, rfl, hscale.symm, rfl⟩

theorem decimalWideCell_putLE {lo hi : Int} (hlo : -2 ^ 63 ≤ lo ∧ lo < 2 ^ 63)
    (hhi : -2 ^ 63 ≤ hi ∧ hi < 2 ^ 63) :
    (decimalWideCell col (putLE 8 lo ++ putLE 8 hi)).val =
      { type := .decimalWide, intVal := lo, scale := decimalScaleOf col.len, decHi := hi } := by
  have hdrop : (putLE 8 lo ++ putLE 8 hi).drop 8 = putLE 8 hi :=
    drop_left' (length_storeLE 8 _)
  have hlow : getSigned 8 (putLE 8 lo ++ putLE 8 hi) = lo :=
    @getSigned_putLE_append .w64 lo _ (by rw [fitsSigned, decide_eq_true_eq]; exact hlo)
  rw [decimalWideCell_val, hlow, hdrop, getSigned_putLE_w64 hhi]

theorem int128Halves_range {u : Int} (h : -2 ^ 127 ≤ u ∧ u < 2 ^ 127) :
    (-2 ^ 63 ≤ int128Low u ∧ int128Low u < 2 ^ 63) ∧
      (-2 ^ 63 ≤ int128High u ∧ int128High u < 2 ^ 63) := by
  rw [int128Low, int128High]
  refine ⟨?_, by omega⟩
  split_ifs <;> omega

theorem readsBack_decimalWide (hfits : AstValue.Fits v) (hkind : col.kind = some .decimalWide)
    (h : Encodes lits inlineCellWidth col v heap .decimalWide cell heap') :
    ReadsBack lits col .decimalWide v heap cell heap' := by
  cases h with
  | @decimalWideText unscaled htype hparsed =>
    obtain ⟨hlo, hhi⟩ := int128Halves_range unscaled.2
    refine readsBack_fixed hkind _ _ rfl fun c hc => ?_
    rw [coerceByKind, htype] at hc
    dsimp only at hc
    rw [hparsed] at hc
    cases hc
    rw [SameStored, decimalWideCell_putLE hlo hhi]
    exact ⟨rfl, rfl, rfl, rfl, rfl⟩
  | decimalWide htype hscale =>
    refine readsBack_fixed hkind _ _ rfl fun c hc => ?_
    rw [coerceByKind, htype] at hc
    dsimp only at hc
    rw [if_neg (not_not_intro hscale)] at hc
    cases hc
    rw [SameStored, decimalWideCell_putLE hfits.intVal hfits.decHi]
    exact ⟨htype, rfl, hscale.symm, rfl, rfl⟩

theorem readsBack_char (hkind : col.kind = some .char) (htype : v.type = .str) (padding : Nat) :
    ReadsBack lits col .char v heap (.fixed (v.strVal ++ List.replicate padding 0)) heap := by
  refine readsBack_fixed hkind _ _ rfl fun c hc => ?_
  cases hc
  refine ⟨htype, rfl, ?_⟩
  -- the padding's zeros end the text, where no zero of its own does
  show (v.strVal ++ List.replicate padding 0).takeWhile (· ≠ 0) = v.strVal.takeWhile (· ≠ 0)
  rw [takeWhile_append]
  split_ifs with hall
  · rw [takeWhile_replicate, if_neg (by simp), append_nil]
    exact ((List.takeWhile_prefix _).eq_of_length hall).symm
  · rfl

theorem readsBack_spilled (hkind : col.kind = some .varchar) (htype : v.type = .str) :
    ReadsBack lits col .varchar v heap (.spilled v.strVal.length heap.length)
      (heap ++ [v.strVal]) := by
  refine ⟨[v.strVal], strCell v.strVal, rfl, fun later => ?_, fun c hc => ?_⟩
  · have hptr : (heap ++ [v.strVal] ++ later)[heap.length]? = some v.strVal := by
      rw [append_assoc, List.getElem?_append_right (Nat.le_refl _), Nat.sub_self]
      rfl
    rw [decodeStored, decodeOneValueInto, hkind]
    show resolveSpill (heap ++ [v.strVal] ++ later) v.strVal.length heap.length = _
    rw [resolveSpill, hptr]
    exact if_neg (not_not_intro rfl)
  · cases hc
    exact ⟨htype, rfl, rfl⟩

theorem Encodes.readsBack (hfits : AstValue.Fits v) (hkind : col.kind = some kind)
    (h : Encodes lits inlineCellWidth col v heap kind cell heap') :
    ReadsBack lits col kind v heap cell heap' := by
  cases kind with
  | signed width =>
    cases h with | signed htype hwidth =>
    refine readsBack_fixed hkind _ (signedCell width (putLE width.bytes v.intVal)) rfl
      fun c hc => ?_
    cases hc
    exact ⟨htype, rfl, getSigned_putLE hwidth⟩
  | uint64 => cases h with | uint64 htype hn => exact readsBack_uint64 hfits hkind htype hn
  | bool => cases h with | bool htype hbit => exact readsBack_bool hkind htype hbit
  | date => exact readsBack_date hkind h
  | timestamp => exact readsBack_timestamp hkind h
  | decimal => exact readsBack_decimal hfits hkind h
  | decimalWide => exact readsBack_decimalWide hfits hkind h
  | char => cases h with | char htype => exact readsBack_char hkind htype _
  | varchar =>
    cases h with
    | inlined htype =>
      refine ⟨[], strCell v.strVal, (append_nil heap).symm, fun later => ?_, fun c hc => ?_⟩
      · rw [decodeStored, decodeOneValueInto, hkind]
        rfl
      · cases hc
        exact ⟨htype, rfl, rfl⟩
    | spilled htype => exact readsBack_spilled hkind htype

/-- `EncodeOneValue` stores a value that is neither NULL nor a parameter, as `Encodes` says. -/
theorem encodeOneValue_eq_ok
    (h : encodeOneValue lits inlineCellWidth col v heap = .ok (cell, heap')) :
    v.type ≠ .null ∧ v.type ≠ .param ∧ ∃ kind, col.kind = some kind ∧
      Encodes lits inlineCellWidth col v heap kind cell heap' := by
  rw [encodeOneValue] at h
  split_ifs at h with hnull hparam
  refine ⟨hnull, hparam, ?_⟩
  cases hkind : col.kind with
  | none =>
    rw [hkind] at h
    cases h
  | some kind =>
    rw [hkind] at h
    exact ⟨kind, rfl, encodeByKind_eq_ok.mp h⟩

/-- Of one width, a cell is the column's. -/
theorem Encodes.fixed_length (hvarchar : kind ≠ .varchar) (hkind : col.kind = some kind)
    (h : Encodes lits inlineCellWidth col v heap kind cell heap') :
    ∃ bytes, cell = .fixed bytes ∧ columnWidth col inlineCellWidth = .ok bytes.length := by
  cases h with
  | inlined | spilled => exact absurd rfl hvarchar
  | char _ hroom =>
    refine ⟨_, rfl, ?_⟩
    rw [columnWidth, hkind, length_append, length_replicate]
    exact congrArg Except.ok (by omega)
  | _ => exact ⟨_, rfl, by simp [columnWidth, hkind, putLE]⟩

/-- **A cell reads back as the value it was written from**, in the form a comparison with the
    column coerces it to. -/
theorem readsBack_of_encode (hfits : AstValue.Fits v)
    (h : encodeOneValue lits inlineCellWidth col v heap = .ok (cell, heap')) :
    v.type ≠ .null ∧ v.type ≠ .param ∧ ∃ kind, col.kind = some kind ∧
      ReadsBack lits col kind v heap cell heap' := by
  obtain ⟨hnull, hparam, kind, hkind, hcell⟩ := encodeOneValue_eq_ok h
  exact ⟨hnull, hparam, kind, hkind, hcell.readsBack hfits hkind⟩

end

-- Rows

/-- A row as it is stored: its Keystone id, and the cells after it. -/
structure StoredRow where
  id : Nat
  cells : List (Option StoredCell)
  deriving DecidableEq

/-- The loop of `EncodeRow`, over the columns after the key. -/
def encodeCells (lits : TypeLiterals) (inlineCellWidth : Nat) :
    List SysColumnRow → List AstValue → VarHeap → StatusOr (List (Option StoredCell) × VarHeap)
  | col :: cols, v :: vs, heap =>
    if v.type = .null then
      if col.notnull then
        .error (.invalidArgument ("column '" ++ col.name ++
          "' is NOT NULL and cannot take NULL (declare it NULL at CREATE TABLE to opt in - " ++
          "docs/spec/null.md)"))
      else do
        let (cells, heap) ← encodeCells lits inlineCellWidth cols vs heap
        .ok (none :: cells, heap)
    else do
      let (cell, heap) ← encodeOneValue lits inlineCellWidth col v heap
      let (cells, heap) ← encodeCells lits inlineCellWidth cols vs heap
      .ok (some cell :: cells, heap)
  | _, _, heap => .ok ([], heap)

/-- `EncodeRow`; `body` is the schema after the key. -/
def encodeRow (lits : TypeLiterals) (inlineCellWidth : Nat) (body : List SysColumnRow) (id : Nat)
    (values : List AstValue) (heap : VarHeap) : StatusOr (StoredRow × VarHeap) :=
  if values.length ≠ body.length then
    .error (.invalidArgument ("expected " ++ toString body.length ++
      " value(s) after the primary key, got " ++ toString values.length))
  else if 2 ^ 40 ≤ id then .error (.outOfRange "keystone id does not fit 40 bits")
  else do
    let (cells, heap) ← encodeCells lits inlineCellWidth body values heap
    .ok ({ id := id, cells := cells }, heap)

/-- `DecodeRowInto` and `ResolveSpills`, over the columns after the key. -/
def decodeCells (heap : VarHeap) : List SysColumnRow → List (Option StoredCell) → StatusOr Row
  | col :: cols, cell :: cells => do
    let value ← decodeStored heap col cell
    let rest ← decodeCells heap cols cells
    .ok (value :: rest)
  | _, _ => .ok []

/-- `DecodeRow`: the key comes from the Keystone word. -/
def decodeRow (heap : VarHeap) (body : List SysColumnRow) (row : StoredRow) : StatusOr Row :=
  (decodeCells heap body row.cells).map fun cells => keystoneCell row.id :: cells

/-- How a cell stands to the value written: a NULL is a null bit, and another value's cell reads
    back as the coerced value. -/
def ColumnReads (lits : TypeLiterals) (col : SysColumnRow) (v : AstValue)
    (cell : Option StoredCell) (heap : VarHeap) (d : Cell) : Prop :=
  if v.type = .null then cell = none ∧ col.notnull = false ∧ d = nullCell
  else ∃ stored kind, cell = some stored ∧ col.kind = some kind ∧ v.type ≠ .param ∧
    (∀ later, decodeStored (heap ++ later) col (some stored) = .ok d) ∧
    ∀ c, coerceByKind lits col v kind = .ok c → SameStored kind c d.val

variable {inlineCellWidth : Nat} {cols : List SysColumnRow} {values : List AstValue}
  {heap heap' : VarHeap} {cells : List (Option StoredCell)}

theorem encodeCells_reads {lits : TypeLiterals}
    (hlen : values.length = cols.length) (hfits : ∀ v ∈ values, AstValue.Fits v)
    (h : encodeCells lits inlineCellWidth cols values heap = .ok (cells, heap')) :
    ∃ (added : VarHeap) (row : List Cell), heap' = heap ++ added ∧
      (∀ later, decodeCells (heap' ++ later) cols cells = .ok row) ∧
      row.length = cols.length ∧ cells.length = cols.length ∧
      ∀ (i : Nat) (col : SysColumnRow) (v : AstValue) (cell : Option StoredCell) (d : Cell),
        cols[i]? = some col → values[i]? = some v → cells[i]? = some cell → row[i]? = some d →
        ColumnReads lits col v cell heap' d := by
  induction cols generalizing values heap cells with
  | nil =>
    obtain ⟨rfl, rfl⟩ := Prod.mk.inj (Except.ok.inj h)
    exact ⟨[], [], (append_nil _).symm, fun _ => rfl, rfl, rfl,
      fun i col v cell d hcol => by simp at hcol⟩
  | cons col cols ih =>
    obtain ⟨v, vs, rfl⟩ := exists_cons_of_length_eq_add_one hlen
    have hlen' : vs.length = cols.length := Nat.succ.inj hlen
    have hfits' : ∀ v ∈ vs, AstValue.Fits v := fun v hv => hfits v (mem_cons_of_mem _ hv)
    rw [encodeCells] at h
    by_cases hnull : v.type = .null
    · rw [if_pos hnull] at h
      by_cases hnotnull : col.notnull = true
      · rw [if_pos hnotnull] at h
        cases h
      · rw [if_neg hnotnull] at h
        obtain ⟨⟨rest, heap₁⟩, hrest, h⟩ := bind_eq_ok.mp h
        obtain ⟨rfl, rfl⟩ := Prod.mk.inj (Except.ok.inj h)
        obtain ⟨added, row, hheap, hdecode, hrow, hcells, hcolumns⟩ := ih hlen' hfits' hrest
        refine ⟨added, nullCell :: row, hheap, fun later => ?_, congrArg Nat.succ hrow,
          congrArg Nat.succ hcells, fun i col' v' cell d hcol hv hcell hd => ?_⟩
        · rw [decodeCells, hdecode later]
          rfl
        · cases i with
          | zero =>
            obtain rfl := Option.some.inj hcol
            obtain rfl := Option.some.inj hv
            rw [ColumnReads, if_pos hnull]
            exact ⟨(Option.some.inj hcell).symm, Bool.not_eq_true _ ▸ hnotnull,
              (Option.some.inj hd).symm⟩
          | succ i => exact hcolumns i col' v' cell d hcol hv hcell hd
    · rw [if_neg hnull] at h
      obtain ⟨⟨stored, heap₁⟩, hone, h⟩ := bind_eq_ok.mp h
      obtain ⟨⟨rest, heap₂⟩, hrest, h⟩ := bind_eq_ok.mp h
      obtain ⟨rfl, rfl⟩ := Prod.mk.inj (Except.ok.inj h)
      obtain ⟨-, hparam, kind, hkind, added₁, d₁, hheap₁, hread, hsame⟩ :=
        readsBack_of_encode (hfits v mem_cons_self) hone
      obtain ⟨added₂, row, hheap₂, hdecode, hrow, hcells, hcolumns⟩ := ih hlen' hfits' hrest
      have hlater : ∀ later, decodeStored (heap₂ ++ later) col (some stored) = .ok d₁ := by
        intro later
        have := hread (added₂ ++ later)
        rwa [← append_assoc, ← hheap₂] at this
      refine ⟨added₁ ++ added₂, d₁ :: row, ?_, fun later => ?_, congrArg Nat.succ hrow,
        congrArg Nat.succ hcells, fun i col' v' cell d hcol hv hcell hd => ?_⟩
      · rw [hheap₂, hheap₁, append_assoc]
      · rw [decodeCells, hdecode later, hlater later]
        rfl
      · cases i with
        | zero =>
          obtain rfl := Option.some.inj hcol
          obtain rfl := Option.some.inj hv
          obtain rfl := Option.some.inj hd
          rw [ColumnReads, if_neg hnull]
          exact ⟨stored, kind, (Option.some.inj hcell).symm, hkind, hparam, hlater, hsame⟩
        | succ i => exact hcolumns i col' v' cell d hcol hv hcell hd

/-- A column of a row that was encoded from a value. -/
def ColumnHolds (lits : TypeLiterals) (inlineCellWidth : Nat) (col : SysColumnRow) (v : AstValue)
    (w : Cell) : Prop :=
  if v.type = .null then w = nullCell
  else AstValue.Fits v ∧ ∃ heap stored heap',
    encodeOneValue lits inlineCellWidth col v heap = .ok (stored, heap') ∧
      decodeStored heap' col (some stored) = .ok w

theorem encodeCells_source {lits : TypeLiterals} (hlen : values.length = cols.length)
    (hfits : ∀ v ∈ values, AstValue.Fits v)
    (h : encodeCells lits inlineCellWidth cols values heap = .ok (cells, heap')) {i : Nat}
    {col : SysColumnRow} (hcol : cols[i]? = some col) (hv : values[i]? = some v)
    (hnull : v.type ≠ .null) :
    ∃ before stored after added, cells[i]? = some (some stored) ∧ heap' = after ++ added ∧
      encodeOneValue lits inlineCellWidth col v before = .ok (stored, after) := by
  induction cols generalizing values heap cells i with
  | nil => simp at hcol
  | cons first cols ih =>
    cases values with
    | nil => simp at hv
    | cons value values =>
      have hlen' : values.length = cols.length := Nat.succ.inj hlen
      have hfits' := fun v hv => hfits v (mem_cons_of_mem _ hv)
      rw [encodeCells] at h
      by_cases hvalue : value.type = .null
      · rw [if_pos hvalue] at h
        split_ifs at h
        obtain ⟨⟨rest, heap₁⟩, hrest, h⟩ := bind_eq_ok.mp h
        cases h
        cases i with
        | zero =>
          cases hv
          exact absurd hvalue hnull
        | succ i => exact ih hlen' hfits' hrest hcol hv
      · rw [if_neg hvalue] at h
        obtain ⟨⟨stored, heap₁⟩, hone, h⟩ := bind_eq_ok.mp h
        obtain ⟨⟨rest, heap₂⟩, hrest, h⟩ := bind_eq_ok.mp h
        cases h
        cases i with
        | zero =>
          cases hcol
          cases hv
          obtain ⟨added, -, hheap, -⟩ := encodeCells_reads hlen' hfits' hrest
          exact ⟨heap, stored, heap₁, added, rfl, hheap, hone⟩
        | succ i => exact ih hlen' hfits' hrest hcol hv

theorem exists_decodedCells {lits : TypeLiterals} (hlen : values.length = cols.length)
    (hfits : ∀ v ∈ values, AstValue.Fits v)
    (h : encodeCells lits inlineCellWidth cols values heap = .ok (cells, heap')) :
    ∃ row : List Cell, (∀ later, decodeCells (heap' ++ later) cols cells = .ok row) ∧
      row.length = cols.length ∧
      ∀ (i : Nat) (col : SysColumnRow) (v : AstValue) (w : Cell), cols[i]? = some col →
        values[i]? = some v → row[i]? = some w → ColumnHolds lits inlineCellWidth col v w := by
  obtain ⟨added, row, -, hdecode, hrow, hcount, hreads⟩ := encodeCells_reads hlen hfits h
  refine ⟨row, hdecode, hrow, fun i col v w hcol hv hw => ?_⟩
  have hlt := (List.getElem?_eq_some_iff.mp hcol).1
  obtain ⟨cell, hcell⟩ : ∃ cell, cells[i]? = some cell :=
    ⟨_, List.getElem?_eq_getElem (hcount ▸ hlt)⟩
  have hread := hreads i col v cell w hcol hv hcell hw
  rw [ColumnHolds]
  rw [ColumnReads] at hread
  by_cases hnull : v.type = .null
  · rw [if_pos hnull] at hread ⊢
    exact hread.2.2
  · rw [if_neg hnull] at hread ⊢
    obtain ⟨st, kind, rfl, hkind, -, hstill, -⟩ := hread
    obtain ⟨before, st', after, more, hst, rfl, hone⟩ :=
      encodeCells_source hlen hfits h hcol hv hnull
    obtain rfl : st' = st := Option.some.inj (Option.some.inj (hst.symm.trans hcell))
    have hfit := hfits v (mem_of_getElem? hv)
    obtain ⟨-, -, kind', -, -, d, -, hnow, -⟩ := readsBack_of_encode hfit hone
    -- what is read now is what is read after the row's later cells
    have hlater := (hnow (more ++ [])).symm.trans ((congrArg (decodeStored · col (some st'))
      (append_assoc after more []).symm).trans (hstill []))
    cases hlater
    have hfirst := hnow []
    rw [append_nil] at hfirst
    exact ⟨hfit, before, st', after, hone, hfirst⟩

end Kds.Exec.Codec
