/-
  Kds.Exec.IndexKey

  The encoding of an index key's columns (`src/exec/index_key.cpp`): a present byte and a payload of
  the column's own width, big-endian and sign-flipped so that `memcmp` orders keys as the executor
  orders the values they are made of.

  `encodeIndexKeyColumn_le` is that order, one way: a value that does not come after another has a
  key that does not come after the other's.  Texts are cut to the key's width, so the converse fails
  for them.
-/

import Kds.Exec.RowCodec
import Kds.Lib.ByteOrder
import Mathlib.Algebra.Order.Ring.Int

namespace Kds.Exec.Codec

open Lib

-- The encoding

def kIndexStringKeyBytes : Nat := 32
def kIndexKeyPresent : UInt8 := 1

def keyColumnName (col : SysColumnRow) : String := "index key column '" ++ col.name ++ "'"

/-- What a key column holds after its present byte. -/
def keyPayloadWidth (col : SysColumnRow) : ColumnKind → StatusOr Nat
  | .signed width => .ok width.bytes
  | .bool => .ok 1
  | .date => .ok 4
  | .uint64 | .timestamp | .decimal => .ok 8
  | .decimalWide => .ok 16
  | .varchar => .ok kIndexStringKeyBytes
  | .char =>
    if min col.len kIndexStringKeyBytes = 0 then
      .error (.invalidArgument (keyColumnName col ++ " has zero declared width"))
    else .ok (min col.len kIndexStringKeyBytes)

/-- `IndexKeyColumnWidth`. -/
def indexKeyColumnWidth (col : SysColumnRow) : StatusOr Nat :=
  match col.kind with
  | none => .error (unsupportedType (keyColumnName col) col "" (" " ++ toString col.typeVal))
  | some kind => (keyPayloadWidth col kind).map (· + 1)

/-- `SignFlipped`: to flip the sign bit is to add it. -/
def signFlipped (v : Int) (width : Nat) : Nat :=
  ((v + 2 ^ (8 * width - 1)) % 2 ^ (8 * width)).toNat

def keyColumnExpects (col : SysColumnRow) (text : String) : Status :=
  .invalidArgument (keyColumnName col ++ " " ++ text)

/-- `EncodeSignedInt`. -/
def encodeSignedInt (col : SysColumnRow) (value : AstValue) (width : Nat) : StatusOr Bytes :=
  if value.type ≠ .int then
    .error (keyColumnExpects col ("expects an integer in its storage form; the value is not one. " ++
      "A written literal must pass through exec::CoerceLiteralToColumn first " ++
      "(docs/spec/types.md §3.1)"))
  else if fitsSigned value.intVal width then .ok (putBE width (signFlipped value.intVal width))
  else .error (.outOfRange (keyColumnName col ++ " holds " ++ toString width ++
    " bytes and cannot represent " ++ toString value.intVal))

/-- `EncodeString`. -/
def encodeString (col : SysColumnRow) (value : AstValue) (width : Nat) : StatusOr Bytes :=
  if value.type ≠ .str then .error (keyColumnExpects col "expects a string value")
  else .ok (zeroPad width value.strVal)

/-- The switch of `EncodeIndexKeyColumn`. -/
def encodeKeyPayload (col : SysColumnRow) (value : AstValue) : ColumnKind → StatusOr Bytes
  | .signed width => encodeSignedInt col value width.bytes
  | .date => encodeSignedInt col value 4
  | .timestamp => encodeSignedInt col value 8
  | .bool =>
    if value.type ≠ .int ∨ value.intVal ≠ 0 ∧ value.intVal ≠ 1 then
      .error (keyColumnExpects col "expects 0 or 1")
    else .ok (putBE 1 value.intVal.toNat)
  | .uint64 =>
    if value.type ≠ .int then .error (keyColumnExpects col "expects an integer")
    else
      match valueAsUint64 value with
      | some n => .ok (putBE 8 n)
      | none => .error ((Status.invalidArgument (uint64Refusal value)).withContext
          (keyColumnName col))
  | .decimal =>
    if value.type ≠ .decimal then
      .error (keyColumnExpects col ("expects a decimal in its storage form (an unscaled " ++
        "integer carrying its scale); coerce the literal first"))
    else if value.scale ≠ decimalScaleOf col.len then .error (scaleRefusal (keyColumnName col)
      col value.scale)
    else .ok (putBE 8 (signFlipped value.intVal 8))
  | .decimalWide =>
    if value.type ≠ .decimalWide then
      .error (keyColumnExpects col "expects a wide decimal in its storage form")
    else if value.scale ≠ decimalScaleOf col.len then .error (scaleRefusal (keyColumnName col)
      col value.scale)
    else .ok (putBE 8 (signFlipped value.decHi 8) ++ putBE 8 (value.intVal % 2 ^ 64).toNat)
  | .char => encodeString col value (min col.len kIndexStringKeyBytes)
  | .varchar => encodeString col value kIndexStringKeyBytes

/-- `EncodeIndexKeyColumn`, into a buffer of the column's own width. -/
def encodeIndexKeyColumn (col : SysColumnRow) (value : AstValue) : StatusOr Bytes := do
  let _ ← indexKeyColumnWidth col
  if value.type = .null then
    .error (.unsupported (keyColumnName col ++ " was handed a NULL; NULLs are " ++
      "not storable yet and their position in the key order (first or last) is undecided"))
  else
    match col.kind with
    | none => .error (unsupportedType (keyColumnName col) col "" (" " ++ toString col.typeVal))
    | some kind => (encodeKeyPayload col value kind).map (kIndexKeyPresent :: ·)

-- One width

variable {col : SysColumnRow} {value : AstValue} {width : Nat} {key : Bytes}

theorem length_encodeKeyPayload {kind : ColumnKind} {payload : Bytes}
    (hwidth : keyPayloadWidth col kind = .ok width)
    (h : encodeKeyPayload col value kind = .ok payload) : payload.length = width := by
  have hsigned : ∀ {w : Nat}, encodeSignedInt col value w = .ok payload → payload.length = w := by
    intro w h
    rw [encodeSignedInt] at h
    split_ifs at h
    rw [← Except.ok.inj h, length_putBE]
  have hstring : ∀ {w : Nat}, encodeString col value w = .ok payload → payload.length = w := by
    intro w h
    rw [encodeString] at h
    split_ifs at h
    rw [← Except.ok.inj h, length_zeroPad]
  cases kind with
  | signed w => exact Except.ok.inj hwidth ▸ hsigned h
  | date => exact Except.ok.inj hwidth ▸ hsigned h
  | timestamp => exact Except.ok.inj hwidth ▸ hsigned h
  | varchar => exact Except.ok.inj hwidth ▸ hstring h
  | char =>
    rw [keyPayloadWidth] at hwidth
    split_ifs at hwidth
    exact Except.ok.inj hwidth ▸ hstring h
  | bool =>
    rw [encodeKeyPayload] at h
    split_ifs at h
    rw [← Except.ok.inj hwidth, ← Except.ok.inj h, length_putBE]
  | uint64 =>
    rw [encodeKeyPayload] at h
    split_ifs at h
    split at h
    · rw [← Except.ok.inj hwidth, ← Except.ok.inj h, length_putBE]
    · cases h
  | decimal =>
    rw [encodeKeyPayload] at h
    split_ifs at h
    rw [← Except.ok.inj hwidth, ← Except.ok.inj h, length_putBE]
  | decimalWide =>
    rw [encodeKeyPayload] at h
    split_ifs at h
    rw [← Except.ok.inj hwidth, ← Except.ok.inj h, List.length_append, length_putBE, length_putBE]

theorem encodeIndexKeyColumn_eq_ok (h : encodeIndexKeyColumn col value = .ok key) :
    value.type ≠ .null ∧ ∃ kind payload width, col.kind = some kind ∧
      indexKeyColumnWidth col = .ok (width + 1) ∧ keyPayloadWidth col kind = .ok width ∧
      encodeKeyPayload col value kind = .ok payload ∧ key = kIndexKeyPresent :: payload := by
  rw [encodeIndexKeyColumn] at h
  obtain ⟨full, hfull, h⟩ := bind_eq_ok.mp h
  split_ifs at h with hnull
  refine ⟨hnull, ?_⟩
  rw [indexKeyColumnWidth] at hfull ⊢
  cases hkind : col.kind with
  | none =>
    rw [hkind] at h
    cases h
  | some kind =>
    rw [hkind] at h hfull
    obtain ⟨payload, hpayload, hkey⟩ := map_eq_ok.mp h
    obtain ⟨width, hwidth, -⟩ := map_eq_ok.mp hfull
    exact ⟨kind, payload, width, rfl, map_eq_ok.mpr ⟨width, hwidth, rfl⟩, hwidth, hpayload,
      hkey.symm⟩

theorem length_encodeIndexKeyColumn (hwidth : indexKeyColumnWidth col = .ok width)
    (h : encodeIndexKeyColumn col value = .ok key) : key.length = width := by
  obtain ⟨-, kind, payload, width', -, hfull, hpayload, hvalue, rfl⟩ :=
    encodeIndexKeyColumn_eq_ok h
  rw [List.length_cons, length_encodeKeyPayload hpayload hvalue]
  exact Except.ok.inj (hfull.symm.trans hwidth)

-- Values and keys

/-- The type a column's value has in storage form. -/
def kindType : ColumnKind → ValueType
  | .signed _ | .uint64 | .bool | .date | .timestamp => .int
  | .decimal => .decimal
  | .decimalWide => .decimalWide
  | .char | .varchar => .str

/-- Two values with one key: what the encoding reads of them is the same. -/
def KeyEqual (kind : ColumnKind) (a b : AstValue) : Prop :=
  match kind with
  | .signed _ | .bool | .date | .timestamp | .decimal => a.intVal = b.intVal
  | .uint64 => valueAsUint64 a = valueAsUint64 b
  | .decimalWide => a.intVal = b.intVal ∧ a.decHi = b.decHi
  | .char | .varchar => a.strVal = b.strVal

/-- The order of a column's values. -/
def KeyLE (kind : ColumnKind) (a b : AstValue) : Prop :=
  match kind with
  | .signed _ | .bool | .date | .timestamp | .decimal => a.intVal ≤ b.intVal
  | .uint64 => ∃ m n, valueAsUint64 a = some m ∧ valueAsUint64 b = some n ∧ m ≤ n
  | .decimalWide => int128FromHalves a.decHi a.intVal ≤ int128FromHalves b.decHi b.intVal
  | .char | .varchar => ¬ b.strVal < a.strVal

-- Equal values, equal keys

section

variable {col : SysColumnRow} {kind : ColumnKind} {a b : AstValue} {ka kb : Bytes}

variable {width : Nat}

theorem encodeSignedInt_eq_ok (h : encodeSignedInt col a width = .ok ka) :
    a.type = .int ∧ fitsSigned a.intVal width = true ∧
      ka = putBE width (signFlipped a.intVal width) := by
  rw [encodeSignedInt] at h
  split_ifs at h with htype hfits
  exact ⟨not_not.mp htype, hfits, (Except.ok.inj h).symm⟩

theorem encodeString_eq_ok (h : encodeString col a width = .ok ka) :
    a.type = .str ∧ ka = zeroPad width a.strVal := by
  rw [encodeString] at h
  split_ifs at h with htype
  exact ⟨not_not.mp htype, (Except.ok.inj h).symm⟩

theorem encodeKeyPayload_bool (h : encodeKeyPayload col a .bool = .ok ka) :
    a.type = .int ∧ (a.intVal = 0 ∨ a.intVal = 1) ∧ ka = putBE 1 a.intVal.toNat := by
  rw [encodeKeyPayload] at h
  split_ifs at h with hbad
  obtain ⟨htype, hbit⟩ := not_or.mp hbad
  exact ⟨not_not.mp htype, by omega, (Except.ok.inj h).symm⟩

theorem encodeKeyPayload_uint64 (h : encodeKeyPayload col a .uint64 = .ok ka) :
    a.type = .int ∧ ∃ n, valueAsUint64 a = some n ∧ ka = putBE 8 n := by
  rw [encodeKeyPayload] at h
  split_ifs at h with htype
  split at h
  · next n hn => exact ⟨not_not.mp htype, n, hn, (Except.ok.inj h).symm⟩
  · cases h

theorem encodeKeyPayload_decimal (h : encodeKeyPayload col a .decimal = .ok ka) :
    a.type = .decimal ∧ a.scale = decimalScaleOf col.len ∧
      ka = putBE 8 (signFlipped a.intVal 8) := by
  rw [encodeKeyPayload] at h
  split_ifs at h with htype hscale
  exact ⟨not_not.mp htype, not_not.mp hscale, (Except.ok.inj h).symm⟩

theorem encodeKeyPayload_decimalWide (h : encodeKeyPayload col a .decimalWide = .ok ka) :
    a.type = .decimalWide ∧ a.scale = decimalScaleOf col.len ∧
      ka = putBE 8 (signFlipped a.decHi 8) ++ putBE 8 (a.intVal % 2 ^ 64).toNat := by
  rw [encodeKeyPayload] at h
  split_ifs at h with htype hscale
  exact ⟨not_not.mp htype, not_not.mp hscale, (Except.ok.inj h).symm⟩

theorem type_of_encodeKeyPayload (h : encodeKeyPayload col a kind = .ok ka) :
    a.type = kindType kind := by
  cases kind with
  | signed width => exact (encodeSignedInt_eq_ok h).1
  | date => exact (encodeSignedInt_eq_ok h).1
  | timestamp => exact (encodeSignedInt_eq_ok h).1
  | bool => exact (encodeKeyPayload_bool h).1
  | uint64 => exact (encodeKeyPayload_uint64 h).1
  | decimal => exact (encodeKeyPayload_decimal h).1
  | decimalWide => exact (encodeKeyPayload_decimalWide h).1
  | char => exact (encodeString_eq_ok h).1
  | varchar => exact (encodeString_eq_ok h).1

theorem encodeKeyPayload_eq (heq : KeyEqual kind a b) (ha : encodeKeyPayload col a kind = .ok ka)
    (hb : encodeKeyPayload col b kind = .ok kb) : ka = kb := by
  have hsigned : ∀ {width : Nat}, a.intVal = b.intVal → encodeSignedInt col a width = .ok ka →
      encodeSignedInt col b width = .ok kb → ka = kb := by
    intro width hint ha hb
    rw [(encodeSignedInt_eq_ok ha).2.2, (encodeSignedInt_eq_ok hb).2.2, hint]
  have hstring : ∀ {width : Nat}, a.strVal = b.strVal → encodeString col a width = .ok ka →
      encodeString col b width = .ok kb → ka = kb := by
    intro width hstr ha hb
    rw [(encodeString_eq_ok ha).2, (encodeString_eq_ok hb).2, hstr]
  cases kind with
  | signed width => exact hsigned heq ha hb
  | date => exact hsigned heq ha hb
  | timestamp => exact hsigned heq ha hb
  | char => exact hstring heq ha hb
  | varchar => exact hstring heq ha hb
  | bool =>
    rw [(encodeKeyPayload_bool ha).2.2, (encodeKeyPayload_bool hb).2.2, show _ = _ from heq]
  | uint64 =>
    obtain ⟨-, m, hm, rfl⟩ := encodeKeyPayload_uint64 ha
    obtain ⟨-, n, hn, rfl⟩ := encodeKeyPayload_uint64 hb
    rw [Option.some.inj (hm.symm.trans ((show _ = _ from heq).trans hn))]
  | decimal =>
    rw [(encodeKeyPayload_decimal ha).2.2, (encodeKeyPayload_decimal hb).2.2, show _ = _ from heq]
  | decimalWide =>
    rw [(encodeKeyPayload_decimalWide ha).2.2, (encodeKeyPayload_decimalWide hb).2.2, heq.1, heq.2]

theorem encodeIndexKeyColumn_eq (hkind : col.kind = some kind) (heq : KeyEqual kind a b)
    (ha : encodeIndexKeyColumn col a = .ok ka) (hb : encodeIndexKeyColumn col b = .ok kb) :
    ka = kb := by
  obtain ⟨-, kind', pa, -, hkind', -, -, hpa, rfl⟩ := encodeIndexKeyColumn_eq_ok ha
  cases hkind.symm.trans hkind'
  obtain ⟨-, kind'', pb, -, hkind'', -, -, hpb, rfl⟩ := encodeIndexKeyColumn_eq_ok hb
  cases hkind.symm.trans hkind''
  rw [encodeKeyPayload_eq heq hpa hpb]

-- Ordered values, ordered keys

theorem signFlipped_lt (v : Int) (width : Nat) : signFlipped v width < 256 ^ width := by
  have hpos : (0 : Int) < 2 ^ (8 * width) := Int.pow_pos (by decide)
  have hlt := Int.emod_lt_of_pos (v + 2 ^ (8 * width - 1)) hpos
  have hnonneg := Int.emod_nonneg (v + 2 ^ (8 * width - 1)) (Int.ne_of_gt hpos)
  have hpow : ((256 ^ width : Nat) : Int) = 2 ^ (8 * width) := by
    rw [Nat.cast_pow, pow_mul]
    rfl
  rw [signFlipped]
  omega

variable {v : Int}

theorem signFlipped_of_fits (hwidth : 0 < width)
    (hv : fitsSigned v width = true) : signFlipped v width = (v + 2 ^ (8 * width - 1)).toNat := by
  have hv := of_decide_eq_true hv
  have hdouble : (2 : Int) ^ (8 * width) = 2 * 2 ^ (8 * width - 1) := by
    rw [← pow_succ']
    congr 1
    omega
  rw [signFlipped, hdouble]
  generalize (2 : Int) ^ (8 * width - 1) = half at *
  rw [Int.emod_eq_of_lt (by omega) (by omega)]

variable {u : Int}

theorem signFlipped_le (hwidth : 0 < width)
    (hu : fitsSigned u width = true) (hv : fitsSigned v width = true) (h : u ≤ v) :
    signFlipped u width ≤ signFlipped v width := by
  rw [signFlipped_of_fits hwidth hu, signFlipped_of_fits hwidth hv]
  exact Int.toNat_le_toNat (by omega)

theorem signFlipped_inj (hwidth : 0 < width)
    (hu : fitsSigned u width = true) (hv : fitsSigned v width = true)
    (h : putBE width (signFlipped u width) = putBE width (signFlipped v width)) : u = v := by
  have h := putBE_inj h
  rw [Nat.mod_eq_of_lt (signFlipped_lt u width), Nat.mod_eq_of_lt (signFlipped_lt v width),
    signFlipped_of_fits hwidth hu, signFlipped_of_fits hwidth hv] at h
  have hu := of_decide_eq_true hu
  have hv := of_decide_eq_true hv
  omega

theorem putBE_signFlipped_le (hwidth : 0 < width)
    (hu : fitsSigned u width = true) (hv : fitsSigned v width = true) (h : u ≤ v) :
    memcmpLE (putBE width (signFlipped u width)) (putBE width (signFlipped v width)) := by
  apply putBE_le
  rw [Nat.mod_eq_of_lt (signFlipped_lt u width), Nat.mod_eq_of_lt (signFlipped_lt v width)]
  exact signFlipped_le hwidth hu hv h

theorem fitsSigned_int64 (h : -2 ^ 63 ≤ v ∧ v < 2 ^ 63) : fitsSigned v 8 = true := by
  rw [fitsSigned, decide_eq_true_eq]
  exact h

theorem encodeKeyPayload_le (hfa : AstValue.Fits a) (hfb : AstValue.Fits b)
    (hle : KeyLE kind a b) (ha : encodeKeyPayload col a kind = .ok ka)
    (hb : encodeKeyPayload col b kind = .ok kb) : memcmpLE ka kb := by
  have hsigned : ∀ {width : Nat}, 0 < width → a.intVal ≤ b.intVal →
      encodeSignedInt col a width = .ok ka → encodeSignedInt col b width = .ok kb →
      memcmpLE ka kb := by
    intro width hwidth hint ha hb
    obtain ⟨-, hfitsA, rfl⟩ := encodeSignedInt_eq_ok ha
    obtain ⟨-, hfitsB, rfl⟩ := encodeSignedInt_eq_ok hb
    exact putBE_signFlipped_le hwidth hfitsA hfitsB hint
  have hstring : ∀ {width : Nat}, ¬ b.strVal < a.strVal → encodeString col a width = .ok ka →
      encodeString col b width = .ok kb → memcmpLE ka kb := by
    intro width hstr ha hb
    rw [(encodeString_eq_ok ha).2, (encodeString_eq_ok hb).2]
    exact zeroPad_le hstr
  cases kind with
  | signed width => exact hsigned (by cases width <;> decide) hle ha hb
  | date => exact hsigned (by decide) hle ha hb
  | timestamp => exact hsigned (by decide) hle ha hb
  | char => exact hstring hle ha hb
  | varchar => exact hstring hle ha hb
  | bool =>
    obtain ⟨-, hbitA, rfl⟩ := encodeKeyPayload_bool ha
    obtain ⟨-, hbitB, rfl⟩ := encodeKeyPayload_bool hb
    have hint : a.intVal ≤ b.intVal := hle
    apply putBE_le
    omega
  | uint64 =>
    obtain ⟨m, n, hm, hn, hmn⟩ := hle
    obtain ⟨-, m', hm', rfl⟩ := encodeKeyPayload_uint64 ha
    obtain ⟨-, n', hn', rfl⟩ := encodeKeyPayload_uint64 hb
    cases hm.symm.trans hm'
    cases hn.symm.trans hn'
    have hlt := (valueAsUint64_lt hfb hn).2
    apply putBE_le
    omega
  | decimal =>
    rw [(encodeKeyPayload_decimal ha).2.2, (encodeKeyPayload_decimal hb).2.2]
    exact putBE_signFlipped_le (by decide) (fitsSigned_int64 hfa.intVal)
      (fitsSigned_int64 hfb.intVal) hle
  | decimalWide =>
    rw [(encodeKeyPayload_decimalWide ha).2.2, (encodeKeyPayload_decimalWide hb).2.2]
    have hint : a.decHi * 2 ^ 64 + a.intVal % 2 ^ 64 ≤ b.decHi * 2 ^ 64 + b.intVal % 2 ^ 64 := hle
    -- the high halves decide, and the low halves between equal high ones
    refine memcmpLE_append (by rw [length_putBE, length_putBE])
      (putBE_signFlipped_le (by decide) (fitsSigned_int64 hfa.decHi)
        (fitsSigned_int64 hfb.decHi) (by omega)) fun hsame => ?_
    have hhigh := signFlipped_inj (by decide) (fitsSigned_int64 hfa.decHi)
      (fitsSigned_int64 hfb.decHi) hsame
    apply putBE_le
    omega

theorem encodeIndexKeyColumn_le (hkind : col.kind = some kind) (hfa : AstValue.Fits a)
    (hfb : AstValue.Fits b) (hle : KeyLE kind a b) (ha : encodeIndexKeyColumn col a = .ok ka)
    (hb : encodeIndexKeyColumn col b = .ok kb) : memcmpLE ka kb := by
  obtain ⟨-, kind', pa, -, hkind', -, -, hpa, rfl⟩ := encodeIndexKeyColumn_eq_ok ha
  cases hkind.symm.trans hkind'
  obtain ⟨-, kind'', pb, -, hkind'', -, -, hpb, rfl⟩ := encodeIndexKeyColumn_eq_ok hb
  cases hkind.symm.trans hkind''
  exact memcmp_cons_ne_gt.mpr (.inr ⟨rfl, encodeKeyPayload_le hfa hfb hle hpa hpb⟩)

-- What the executor's comparison says of keys

/-- The arm of `CompareValues` two values of a column's type go through. -/
def kindCompare (kind : ColumnKind) (a b : AstValue) (op : CompareOp) : Bool :=
  match kind with
  | .uint64 =>
    match valueAsUint64 a, valueAsUint64 b with
    | some m, some n => applyCompare m n op
    | _, _ => false
  | .decimalWide =>
    applyCompare (int128FromHalves a.decHi a.intVal) (int128FromHalves b.decHi b.intVal) op
  | .char | .varchar => applyCompare a.strVal b.strVal op
  | .signed _ | .bool | .date | .timestamp | .decimal => applyCompare a.intVal b.intVal op

theorem kindOf_uint64 {typeVal : TypeVal} (hkind : kindOf typeVal = some kind) :
    typeVal = typeValUint64 ↔ kind = .uint64 := by
  rw [kindOf.eq_def] at hkind
  split at hkind <;> cases hkind <;> decide

theorem compareValues_kind {typeVal : TypeVal} (hkind : kindOf typeVal = some kind)
    (ha : a.type = kindType kind) (hb : b.type = kindType kind) {op : CompareOp}
    (hop : op ≠ .isNull ∧ op ≠ .isNotNull) (h : compareValues typeVal a b op = true) :
    kindCompare kind a b op = true := by
  have huint := kindOf_uint64 hkind
  rw [compareValues, if_neg hop.1, if_neg hop.2, ha, hb] at h
  by_cases hu : kind = .uint64
  · rw [if_pos (huint.mpr hu)] at h
    subst hu
    exact h
  · rw [if_neg (mt huint.mp hu)] at h
    cases kind <;> simp_all [kindType, kindCompare]

theorem keyEqual_of_compare (hkind : col.kind = some kind) (ha : a.type = kindType kind)
    (hb : b.type = kindType kind) (hra : -2 ^ 63 ≤ a.intVal ∧ a.intVal < 2 ^ 63)
    (hrb : -2 ^ 63 ≤ b.intVal ∧ b.intVal < 2 ^ 63)
    (h : compareValues col.typeVal a b .eq = true) : KeyEqual kind a b := by
  have h := compareValues_kind hkind ha hb (by decide) h
  cases kind with
  | uint64 =>
    rw [kindCompare] at h
    split at h
    · next m n hm hn =>
      rw [applyCompare, decide_eq_true_eq] at h
      rw [KeyEqual, hm, hn, h]
    · cases h
  | decimalWide =>
    obtain ⟨hhi, hlo⟩ := int128FromHalves_inj hra hrb (of_decide_eq_true h)
    exact ⟨hlo, hhi⟩
  | _ => simpa [kindCompare, applyCompare, KeyEqual] using h

theorem keyLE_of_kindCompare (h : kindCompare kind a b .lte = true) : KeyLE kind a b := by
  cases kind with
  | uint64 =>
    rw [kindCompare] at h
    split at h
    · next m n hm hn => exact ⟨m, n, hm, hn, Nat.not_lt.mp (of_decide_eq_true h)⟩
    · cases h
  | char => simpa [kindCompare, applyCompare, KeyLE] using h
  | varchar => simpa [kindCompare, applyCompare, KeyLE] using h
  | _ => exact Int.not_lt.mp (of_decide_eq_true h)

theorem kindCompare_gte (h : kindCompare kind a b .gte = true) :
    kindCompare kind b a .lte = true := by
  cases kind with
  | uint64 =>
    rw [kindCompare] at h ⊢
    split at h
    · next m n hm hn =>
      rw [hm, hn]
      exact h
    · cases h
  | _ => exact h

theorem keyLE_of_compare (hkind : col.kind = some kind) (ha : a.type = kindType kind)
    (hb : b.type = kindType kind) (h : compareValues col.typeVal a b .lte = true) :
    KeyLE kind a b :=
  keyLE_of_kindCompare (compareValues_kind hkind ha hb (by decide) h)

theorem keyEqual_of_decoded {typeVal : TypeVal} (hda : AstValue.Decoded a)
    (hdb : AstValue.Decoded b) (hpa : encodeKeyPayload col a kind = .ok ka)
    (hpb : encodeKeyPayload col b kind = .ok kb) (h : compareValues typeVal a b .eq = true) :
    KeyEqual kind a b := by
  have hta := type_of_encodeKeyPayload hpa
  have htb := type_of_encodeKeyPayload hpb
  obtain ⟨key, hka, hkb⟩ := makeValueKey_of_eq hda hdb h
  rw [← hkb] at hka
  rw [makeValueKey, makeValueKey, hta, htb] at hka
  cases kind with
  | uint64 =>
    obtain ⟨-, m, hm, -⟩ := encodeKeyPayload_uint64 hpa
    obtain ⟨-, n, hn, -⟩ := encodeKeyPayload_uint64 hpb
    obtain ⟨-, hmlt, hma⟩ := hda.intVal_of_uint64 hm
    obtain ⟨-, hnlt, hnb⟩ := hdb.intVal_of_uint64 hn
    have hint : a.intVal = b.intVal := by simpa [kindType] using hka
    rw [hma, hnb] at hint
    rw [KeyEqual, hm, hn]
    congr 1
    split_ifs at hint <;> omega
  | decimalWide =>
    have htypes : typeVal ≠ typeValUint64 := by
      rintro rfl
      rw [compareValues, if_neg (by decide), if_neg (by decide), hta, htb] at h
      simp [kindType, valueAsUint64, hta] at h
    rw [compareValues, if_neg (by decide), if_neg (by decide),
      if_neg (by simp [hta, htb, kindType]), if_neg htypes, if_neg (by simp [hta, htb, kindType]),
      if_pos (by simp [hta, kindType])] at h
    split_ifs at h
    obtain ⟨hhi, hlo⟩ := int128FromHalves_inj hda.intRange hdb.intRange (of_decide_eq_true h)
    exact ⟨hlo, hhi⟩
  | decimal =>
    simp only [kindType, Option.some.injEq, CabinKey.mk.injEq] at hka
    exact hka.2.2.1
  | _ => simpa [kindType, KeyEqual] using hka

end

end Kds.Exec.Codec
