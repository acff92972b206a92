/-
  Kds.Exec.AssertionGroups

  The group a row enters and the group it leaves.  INSERT takes a row's group key and contribution
  from the statement's own values, the columns after the primary key; UPDATE, DELETE and the
  backfill of CREATE ASSERTION take them from the row decoded.

  `entersAsItLeaves_iff` says where the two agree: the assertion reads no primary key, and every
  value it groups by has, as it was written, the fields that it is decoded with (`KeyedAsStored`).
  `groupKey_iff` says that decoded rows have one key exactly where their group columns are equal,
  or both NULL.
-/

import Kds.Exec.AssertionCheck
import Kds.Exec.IndexKeyOrder
import Kds.Lib.SelfDelimiting

namespace Kds.Exec

open Lib List

-- Keys, part by part

theorem appendU64_eq (v : Int) : appendU64 v = storeLE 8 (v % 2 ^ 64).toNat := by
  simp [appendU64, List.range, List.range.loop, storeLE, Nat.div_div_eq_div_mul]

@[simp] theorem length_appendU64 (v : Int) : (appendU64 v).length = 8 := by
  rw [appendU64_eq, length_storeLE]

variable {u : Int}

theorem appendU64_inj {v : Int} (h : appendU64 u = appendU64 v) : u % 2 ^ 64 = v % 2 ^ 64 := by
  rw [appendU64_eq, appendU64_eq] at h
  have hle := congrArg leNat h
  rw [leNat_storeLE, leNat_storeLE] at hle
  omega

/-- A text. -/
def Text (v : AstValue) : Prop := v.type = .str ∨ v.type = .param

/-- Where both values are texts, their lengths fit the prefix. -/
def LengthsFit (a b : AstValue) : Prop :=
  Text a → Text b → a.strVal.length < 2 ^ 64 ∧ b.strVal.length < 2 ^ 64

/-- The first byte of a value's part. -/
def partTag : ValueType → UInt8
  | .null => 0
  | .int => 1
  | .decimal => 2
  | .decimalWide => 3
  | .str | .param => 4

theorem encodeGroupKeyPart_cons (v : AstValue) :
    ∃ rest, encodeGroupKeyPart v = partTag v.type :: rest := by
  rw [encodeGroupKeyPart]
  cases v.type with
  | _ => exact ⟨_, rfl⟩

variable {v : AstValue}

theorem encodeGroupKeyPart_text (h : Text v) :
    encodeGroupKeyPart v = 4 :: (appendU64 v.strVal.length ++ v.strVal) := by
  rcases h with h | h
  · rw [encodeGroupKeyPart, h]
  · rw [encodeGroupKeyPart, h]

theorem delimits_encodeGroupKeyPart : Delimits encodeGroupKeyPart LengthsFit := by
  refine delimits_of_length fun a b x y hfit heq => ?_
  by_cases htext : Text a ∧ Text b
  · obtain ⟨hla, hlb⟩ := hfit htext.1 htext.2
    rw [encodeGroupKeyPart_text htext.1, encodeGroupKeyPart_text htext.2] at heq ⊢
    simp only [cons_append, List.cons.injEq, true_and, append_assoc] at heq
    have hlen := appendU64_inj (append_inj heq (by simp)).1
    simp only [length_cons, length_append, length_appendU64]
    omega
  · -- one tag, and so one fixed length
    obtain ⟨ra, hra⟩ := encodeGroupKeyPart_cons a
    obtain ⟨rb, hrb⟩ := encodeGroupKeyPart_cons b
    have htag : partTag a.type = partTag b.type := by
      rw [hra, hrb] at heq
      exact (List.cons.inj heq).1
    rw [Text, Text] at htext
    rw [encodeGroupKeyPart, encodeGroupKeyPart]
    rcases ha : a.type <;> rcases hb : b.type <;> simp [ha, hb, partTag] at htag htext ⊢

theorem appendU64_inj_iff {v : Int} : appendU64 u = appendU64 v ↔ u % 2 ^ 64 = v % 2 ^ 64 := by
  refine ⟨appendU64_inj, fun h => ?_⟩
  rw [appendU64_eq, appendU64_eq, h]

theorem appendU64_inj_iff_of_range {v : Int} (hu : -2 ^ 63 ≤ u ∧ u < 2 ^ 63)
    (hv : -2 ^ 63 ≤ v ∧ v < 2 ^ 63) : appendU64 u = appendU64 v ↔ u = v := by
  rw [appendU64_inj_iff]
  omega

theorem encodeGroupKeyPart_int (h : v.type = .int) :
    encodeGroupKeyPart v = 1 :: appendU64 v.intVal := by
  rw [encodeGroupKeyPart, h]

theorem encodeGroupKeyPart_decimal (h : v.type = .decimal) :
    encodeGroupKeyPart v = 2 :: v.scale :: appendU64 v.intVal := by
  rw [encodeGroupKeyPart, h]

theorem encodeGroupKeyPart_decimalWide (h : v.type = .decimalWide) :
    encodeGroupKeyPart v = 3 :: v.scale :: (appendU64 v.decHi ++ appendU64 v.intVal) := by
  rw [encodeGroupKeyPart, h]

theorem encodeGroupKeyPart_text_iff {a b : AstValue} (ha : a.type = .str) (hb : b.type = .str)
    (hfit : LengthsFit a b) : encodeGroupKeyPart a = encodeGroupKeyPart b ↔
      a.strVal = b.strVal := by
  obtain ⟨hla, hlb⟩ := hfit (.inl ha) (.inl hb)
  rw [encodeGroupKeyPart_text (.inl ha), encodeGroupKeyPart_text (.inl hb)]
  constructor
  · intro heq
    exact (append_inj (List.cons.inj heq).2 (by simp)).2
  · intro heq
    rw [heq]

-- Stored values

namespace Codec

section Stored

variable {lits : TypeLiterals} {inlineCellWidth : Nat} {col : SysColumnRow} {kind : ColumnKind}
  {v : AstValue} {heap heap' : VarHeap} {stored : StoredCell} {a b w : Cell}

theorem intVal_of_valueAsUint64 {n : Nat} (h : valueAsUint64 w.val = some n) :
    w.val.intVal % 2 ^ 64 = n := by
  have hrange := w.property.intRange
  have htext := w.property.text
  rw [valueAsUint64] at h
  split_ifs at h with htype hraw hneg
  · obtain ⟨n', hn', -, hval⟩ := htext.resolve_left hraw
    cases h.symm.trans hn'
    have hlt := parseUint64Text_lt hn'
    omega
  · have hn := Option.some.inj h
    omega

theorem encodeGroupKeyPart_iff_of_stored (hkind : col.kind = some kind)
    (ha : InStorage col kind a.val) (hb : InStorage col kind b.val)
    (hfit : LengthsFit a.val b.val) :
    encodeGroupKeyPart a.val = encodeGroupKeyPart b.val ↔
      compareValues col.typeVal a.val b.val .eq = true := by
  have hscale : kind = .decimal ∨ kind = .decimalWide → a.val.scale = b.val.scale := by
    rintro (rfl | rfl)
    · exact Eq.trans ha.holds (Eq.symm hb.holds)
    · exact Eq.trans ha.holds (Eq.symm hb.holds)
  rw [compareValues_eq_kindCompare hkind ha.type hb.type hscale (by decide)]
  have hinteger : a.val.type = .int → b.val.type = .int →
      (encodeGroupKeyPart a.val = encodeGroupKeyPart b.val ↔
        applyCompare a.val.intVal b.val.intVal .eq = true) := by
    intro hta htb
    rw [encodeGroupKeyPart_int hta, encodeGroupKeyPart_int htb, List.cons.injEq,
      and_iff_right rfl, appendU64_inj_iff_of_range ha.fits.intVal hb.fits.intVal, applyCompare,
      decide_eq_true_eq]
  have htext : a.val.type = .str → b.val.type = .str →
      (encodeGroupKeyPart a.val = encodeGroupKeyPart b.val ↔
        applyCompare a.val.strVal b.val.strVal .eq = true) := by
    intro hta htb
    rw [encodeGroupKeyPart_text_iff hta htb hfit, applyCompare, decide_eq_true_eq]
  cases kind with
  | uint64 =>
    obtain ⟨m, hm⟩ := ha.holds
    obtain ⟨n, hn⟩ := hb.holds
    rw [kindCompare, hm, hn, encodeGroupKeyPart_int ha.type, encodeGroupKeyPart_int hb.type,
      List.cons.injEq, and_iff_right rfl, appendU64_inj_iff, intVal_of_valueAsUint64 hm,
      intVal_of_valueAsUint64 hn]
    simp [applyCompare]
  | decimal =>
    rw [encodeGroupKeyPart_decimal ha.type, encodeGroupKeyPart_decimal hb.type,
      hscale (.inl rfl), List.cons.injEq, and_iff_right rfl, List.cons.injEq, and_iff_right rfl,
      appendU64_inj_iff_of_range ha.fits.intVal hb.fits.intVal, kindCompare, applyCompare,
      decide_eq_true_eq]
  | decimalWide =>
    rw [encodeGroupKeyPart_decimalWide ha.type, encodeGroupKeyPart_decimalWide hb.type,
      hscale (.inr rfl), List.cons.injEq, and_iff_right rfl, List.cons.injEq, and_iff_right rfl,
      kindCompare, applyCompare, decide_eq_true_eq]
    constructor
    · intro heq
      obtain ⟨hhi, hlo⟩ := append_inj heq (by simp)
      rw [(appendU64_inj_iff_of_range ha.fits.decHi hb.fits.decHi).mp hhi,
        (appendU64_inj_iff_of_range ha.fits.intVal hb.fits.intVal).mp hlo]
    · intro heq
      obtain ⟨hhi, hlo⟩ := int128FromHalves_inj ha.fits.intVal hb.fits.intVal heq
      rw [hhi, hlo]
  | char => exact htext ha.type hb.type
  | varchar => exact htext ha.type hb.type
  | _ => exact hinteger ha.type hb.type

end Stored

-- A value as it is written, and as it is decoded

/-- A value that is written with the fields it is decoded with, as far as a group key reads them:
    not a day, a time or a decimal in words, no text that a `char` cuts, and of a `uint64`'s digits
    the signed field holds the value they spell, modulo `2 ^ 64`. -/
def KeyedAsStored (col : SysColumnRow) (v : AstValue) : Prop :=
  v.type ≠ .null → match col.kind with
  | some .date | some .timestamp | some .decimal | some .decimalWide => v.type ≠ .str
  | some .char => 0 ∉ v.strVal
  | some .uint64 => ∀ n, valueAsUint64 v = some n → v.intVal % 2 ^ 64 = n
  | _ => True

section Written

variable {lits : TypeLiterals} {inlineCellWidth : Nat} {col : SysColumnRow} {kind : ColumnKind}
  {v : AstValue} {heap heap' : VarHeap} {stored : StoredCell} {w : Cell}

theorem InStorage.text {a : AstValue} (h : InStorage col kind a) (ha : Text a) :
    kind = .char ∨ kind = .varchar := by
  have htype := h.type
  rcases ha with ha | ha <;> rw [ha] at htype <;> cases kind <;> simp [kindType] at htype ⊢

theorem text_of_encode (hfits : AstValue.Fits v)
    (hcol : col.len < 2 ^ 32) (hinline : inlineCellWidth < 2 ^ 32)
    (hencode : encodeOneValue lits inlineCellWidth col v heap = .ok (stored, heap'))
    (hdecode : decodeStored heap' col (some stored) = .ok w)
    (hkind : col.kind = some .char ∨ col.kind = some .varchar) :
    v.type = .str ∧ w.val.type = .str ∧ v.strVal.length < 2 ^ 64 ∧
      w.val.strVal = if col.kind = some .char then v.strVal.takeWhile (· ≠ 0) else v.strVal := by
  obtain ⟨-, -, kind, hkind', hcell⟩ := encodeOneValue_eq_ok hencode
  obtain ⟨-, -, kind'', hkind'', added, d, -, hread, hsame⟩ := readsBack_of_encode hfits hencode
  cases hkind'.symm.trans hkind''
  have hnow := hread []
  rw [append_nil, hdecode] at hnow
  cases hnow
  rw [hkind', Option.some.injEq, Option.some.injEq] at hkind
  rcases hkind with rfl | rfl
  · obtain ⟨hv, hw, hstr⟩ := hsame v rfl
    cases hcell with | char _ hroom =>
    refine ⟨hv, hw, by omega, ?_⟩
    rw [hkind', if_pos rfl, hstr]
  · obtain ⟨hv, hw, hstr⟩ := hsame v rfl
    refine ⟨hv, hw, ?_, ?_⟩
    · cases hcell with
      | inlined _ hroom =>
        rw [inlineCapacity] at hroom
        omega
      | spilled _ _ hroom =>
        rw [maxVarHeapValueSize] at hroom
        omega
    · rw [hkind', if_neg (by decide), hstr]

/-- The decoded value of a cell of fixed width. -/
def DecodesAs (col : SysColumnRow) (kind : ColumnKind) (stored : StoredCell) (w : Cell) : Prop :=
  ∀ bytes d, stored = .fixed bytes → decodeByKind col kind (.fixed bytes) = .ok (.value d) → w = d

/-- A day, a time or a decimal given as a number has the part that its cell has. -/
theorem Encodes.written (hfits : AstValue.Fits v) (hv : v.type ≠ .str)
    (h : Encodes lits inlineCellWidth col v heap kind stored heap')
    (hkind : kind = .date ∨ kind = .timestamp ∨ kind = .decimal ∨ kind = .decimalWide)
    (hfixed : DecodesAs col kind stored w) : encodeGroupKeyPart v = encodeGroupKeyPart w.val := by
  cases h with
  | dateText htype | timestampText htype | decimalText htype | decimalWideText htype =>
    exact absurd htype hv
  | date htype hrange =>
    obtain rfl := hfixed _ _ rfl rfl
    rw [encodeGroupKeyPart_int htype, signedCell_val, IntWidth.bytes, getSigned_putLE_day hrange,
      encodeGroupKeyPart_int rfl, AstValue.ofInt]
  | timestamp htype hrange =>
    obtain rfl := hfixed _ _ rfl rfl
    rw [encodeGroupKeyPart_int htype, signedCell_val, IntWidth.bytes,
      getSigned_putLE_micros hrange, encodeGroupKeyPart_int rfl, AstValue.ofInt]
  | decimal htype hscale =>
    obtain rfl := hfixed _ _ rfl rfl
    rw [encodeGroupKeyPart_decimal htype, decimalCell_val, getSigned_putLE_w64 hfits.intVal,
      hscale, encodeGroupKeyPart_decimal rfl]
  | decimalWide htype hscale =>
    obtain rfl := hfixed _ _ rfl rfl
    rw [encodeGroupKeyPart_decimalWide htype, decimalWideCell_putLE hfits.intVal hfits.decHi,
      hscale, encodeGroupKeyPart_decimalWide rfl]
  | _ => simp at hkind

/-- **A written value has the part of its decoded value exactly where it is written as it is
    decoded.** -/
theorem encodeGroupKeyPart_iff_of_encode (hfits : AstValue.Fits v)
    (hcol : col.len < 2 ^ 32) (hinline : inlineCellWidth < 2 ^ 32)
    (hencode : encodeOneValue lits inlineCellWidth col v heap = .ok (stored, heap'))
    (hdecode : decodeStored heap' col (some stored) = .ok w) :
    encodeGroupKeyPart v = encodeGroupKeyPart w.val ↔ KeyedAsStored col v := by
  obtain ⟨hnull, -, kind, hkind, hcell⟩ := encodeOneValue_eq_ok hencode
  obtain ⟨-, -, kind', hkind', added, d, -, hread, hsame⟩ := readsBack_of_encode hfits hencode
  cases hkind.symm.trans hkind'
  have hnow := hread []
  rw [append_nil, hdecode] at hnow
  cases hnow
  have hstorage : InStorage col kind w.val :=
    StoredIn.inStorage ⟨v, heap, stored, heap', hfits, hencode, hdecode⟩ hkind
  -- a text where a number is decoded
  have hwords : v.type = .str → w.val.type ≠ .str → w.val.type ≠ .param →
      encodeGroupKeyPart v ≠ encodeGroupKeyPart w.val := by
    intro hv hstr hparam heq
    obtain ⟨rv, hrv⟩ := encodeGroupKeyPart_cons v
    obtain ⟨rw', hrw⟩ := encodeGroupKeyPart_cons w.val
    rw [hrv, hrw, hv] at heq
    have htag := (List.cons.inj heq).1
    rcases hw : w.val.type <;> simp [hw, partTag] at htag hstr hparam
  have hinteger : v.type = .int → w.val.type = .int → w.val.intVal = v.intVal →
      encodeGroupKeyPart v = encodeGroupKeyPart w.val := by
    intro hv hw hval
    rw [encodeGroupKeyPart_int hv, encodeGroupKeyPart_int hw, hval]
  have htext : kind = .char ∨ kind = .varchar → v.type = .str ∧ w.val.type = .str ∧
      LengthsFit v w.val ∧
      w.val.strVal = if col.kind = some .char then v.strVal.takeWhile (· ≠ 0) else v.strVal := by
    intro h
    have hor : col.kind = some .char ∨ col.kind = some .varchar := by
      rcases h with rfl | rfl
      · exact .inl hkind
      · exact .inr hkind
    obtain ⟨hv, hw, hlen, hstr⟩ := text_of_encode hfits hcol hinline hencode hdecode hor
    refine ⟨hv, hw, fun _ _ => ⟨hlen, ?_⟩, hstr⟩
    rw [hstr]
    split_ifs
    · exact lt_of_le_of_lt (List.takeWhile_prefix _).length_le hlen
    · exact hlen
  have hfixed : DecodesAs col kind stored w := by
    rintro bytes d rfl hd
    rw [decodeStored, decodeOneValueInto, hkind] at hdecode
    dsimp only at hdecode
    rw [hd] at hdecode
    exact (Except.ok.inj hdecode).symm
  rw [KeyedAsStored, hkind]
  simp only [ne_eq, hnull, not_false_eq_true, forall_const]
  cases kind with
  | signed width =>
    obtain ⟨hv, hw, hval⟩ := hsame v rfl
    exact iff_of_true (hinteger hv hw hval) trivial
  | bool =>
    obtain ⟨hv, hw, hval⟩ := hsame v rfl
    exact iff_of_true (hinteger hv hw hval) trivial
  | uint64 =>
    obtain ⟨hv, hw, hval⟩ := hsame v rfl
    obtain ⟨n, hn⟩ := hstorage.holds
    rw [encodeGroupKeyPart_int hv, encodeGroupKeyPart_int hw, List.cons.injEq,
      and_iff_right rfl, appendU64_inj_iff, intVal_of_valueAsUint64 hn]
    refine ⟨fun h m hm => ?_, fun h => h n (hval.symm.trans hn)⟩
    cases hm.symm.trans (hval.symm.trans hn)
    exact h
  | varchar =>
    obtain ⟨hv, hw, hfit, hstr⟩ := htext (.inr rfl)
    rw [hkind, if_neg (by decide)] at hstr
    exact iff_of_true ((encodeGroupKeyPart_text_iff hv hw hfit).mpr hstr.symm) trivial
  | char =>
    obtain ⟨hv, hw, hfit, hstr⟩ := htext (.inl rfl)
    rw [hkind, if_pos rfl] at hstr
    rw [encodeGroupKeyPart_text_iff hv hw hfit, hstr, eq_comm, takeWhile_eq_self_iff]
    simp only [ne_eq, decide_not, Bool.not_eq_true', decide_eq_false_iff_not]
    exact ⟨fun h hzero => h 0 hzero rfl, fun h x hx hzero => h (hzero ▸ hx)⟩
  | date | timestamp | decimal | decimalWide =>
    have hw := hstorage.type
    exact ⟨fun heq hv => hwords hv (by rw [hw]; decide) (by rw [hw]; decide) heq,
      fun hv => hcell.written hfits hv (by simp) hfixed⟩

end Written

-- Declarations

/-- `IndexColumnRef`. -/
structure IndexColumnRef where
  name : String
  byteOffset : Nat

/-- What a CREATE ASSERTION names of its relation. -/
structure AssertionClauses where
  tableName : String
  func : BoundAggregate
  groupColumns : List IndexColumnRef
  sumColumn : IndexColumnRef

/-- The relation's columns and the instance's cell width; positions are `uint16`, declared lengths
    and the width `uint32`. -/
structure GroupedRelation where
  pk : SysColumnRow
  body : List SysColumnRow
  inlineCellWidth : Nat
  few : body.length < 2 ^ 16
  lens : ∀ col ∈ body, col.len < 2 ^ 32
  inlineWidth : inlineCellWidth < 2 ^ 32

def GroupedRelation.columns (r : GroupedRelation) : List SysColumnRow := r.pk :: r.body

/-- `ResolveColumn`: the first column of that name. -/
def resolveColumn (r : GroupedRelation) (ref : IndexColumnRef) (tableName : String) :
    StatusOr Nat :=
  match r.columns.findIdx? fun col => col.name = ref.name with
  | some pos => .ok pos
  | none => .error (.notFound ("relation '" ++ tableName ++ "' has no column '" ++ ref.name ++
      "' (byte " ++ toString ref.byteOffset ++ ")"))

/-- The loop over the GROUP BY columns. -/
def resolveGroupColumns (r : GroupedRelation) (tableName : String) :
    List IndexColumnRef → StatusOr (List Nat)
  | [] => .ok []
  | ref :: refs => do
    let pos ← resolveColumn r ref tableName
    let rest ← resolveGroupColumns r tableName refs
    .ok (pos :: rest)

/-- `ResolveAssertionColumns`: the positions of the group columns and of the summed one. -/
def resolveAssertionColumns (r : GroupedRelation) (stmt : AssertionClauses) :
    StatusOr (List Nat × Nat) := do
  let groupCols ← resolveGroupColumns r stmt.tableName stmt.groupColumns
  if stmt.func = .sum then do
    let pos ← resolveColumn r stmt.sumColumn stmt.tableName
    let typeVal := (r.columns.getD pos r.pk).typeVal
    if typeVal = typeValUint64 then
      .error (.unsupported ("SUM over a uint64 column is not supported (byte " ++
        toString stmt.sumColumn.byteOffset ++ "); a group's running aggregate is a checked " ++
        "int64 (docs/spec/assertion.md §10)"))
    else if typeVal ≠ typeValInt64 then
      .error (.invalidArgument ("an assertion's SUM column must be int64; '" ++
        stmt.sumColumn.name ++ "' is type_val=" ++ toString typeVal ++ " (byte " ++
        toString stmt.sumColumn.byteOffset ++ "); v1 restricts the aggregate to a checked " ++
        "int64 (docs/spec/assertion.md §3.1)"))
    else .ok (groupCols, pos)
  else .ok (groupCols, 0)

/-- The published declaration of an accepted CREATE ASSERTION. -/
def Declares (r : GroupedRelation) (stmt : AssertionClauses) (d : AssertionDecl) : Prop :=
  resolveAssertionColumns r stmt = .ok (d.groupCols, d.sumCol) ∧ d.aggregate = stmt.func

/-- The columns whose values enforcement reads. -/
def readCols (d : AssertionDecl) : List Nat :=
  d.groupCols ++ if d.aggregate = .sum then [d.sumCol] else []

section Declared

variable {r : GroupedRelation} {stmt : AssertionClauses} {d : AssertionDecl} {tableName : String}

theorem resolveColumn_lt {ref : IndexColumnRef} {pos : Nat}
    (h : resolveColumn r ref tableName = .ok pos) : pos < r.columns.length := by
  rw [resolveColumn] at h
  split at h
  · next found hfound =>
    cases h
    exact (List.findIdx?_eq_some_iff_getElem.mp hfound).1
  · cases h

theorem resolveGroupColumns_lt {refs : List IndexColumnRef} {positions : List Nat}
    (h : resolveGroupColumns r tableName refs = .ok positions) :
    ∀ c ∈ positions, c < r.columns.length := by
  induction refs generalizing positions with
  | nil =>
    cases h
    exact fun c hc => absurd hc not_mem_nil
  | cons ref refs ih =>
    obtain ⟨pos, hpos, h⟩ := bind_eq_ok.mp h
    obtain ⟨rest, hrest, h⟩ := bind_eq_ok.mp h
    cases h
    rw [forall_mem_cons]
    exact ⟨resolveColumn_lt hpos, ih hrest⟩

theorem Declares.resolved (h : Declares r stmt d) :
    (∀ c ∈ readCols d, c < r.columns.length) ∧
      (d.aggregate = .sum → (r.columns.getD d.sumCol r.pk).typeVal = typeValInt64) := by
  obtain ⟨hresolve, hfunc⟩ := h
  obtain ⟨groupCols, hgroup, hrest⟩ := bind_eq_ok.mp hresolve
  have hgroups := resolveGroupColumns_lt hgroup
  rw [readCols, hfunc]
  by_cases hsum : stmt.func = .sum
  · rw [if_pos hsum] at hrest
    obtain ⟨pos, hpos, hrest⟩ := bind_eq_ok.mp hrest
    dsimp only at hrest
    split_ifs at hrest with huint hint
    cases hrest
    refine ⟨fun c hc => ?_, fun _ => not_not.mp hint⟩
    rw [if_pos hsum, mem_append, mem_singleton] at hc
    rcases hc with hc | rfl
    · exact hgroups c hc
    · exact resolveColumn_lt hpos
  · rw [if_neg hsum] at hrest
    obtain ⟨rfl, -⟩ := Prod.mk.inj (Except.ok.inj hrest)
    refine ⟨fun c hc => ?_, fun hsum' => absurd hsum' hsum⟩
    rw [if_neg hsum, append_nil] at hc
    exact hgroups c hc

end Declared

-- Inserted rows

/-- The values after the primary key, which a row of full arity names and another leaves out. -/
def insertBody (r : GroupedRelation) (values : List AstValue) : List AstValue :=
  if values.length = r.columns.length then values.tail else values

/-- INSERT accepts the values, and the row they make decodes as `row` from then on. -/
def Inserted (lits : TypeLiterals) (r : GroupedRelation) (values : List AstValue) (row : Row) :
    Prop :=
  (∀ v ∈ values, AstValue.Fits v) ∧ ∃ id heap stored heap',
    encodeRow lits r.inlineCellWidth r.body id (insertBody r values) heap = .ok (stored, heap') ∧
      ∀ later, decodeRow (heap' ++ later) r.body stored = .ok row

section Rows

variable {lits : TypeLiterals} {r : GroupedRelation} {values : List AstValue} {row : Row}

theorem exists_inserted {id : Nat} {heap heap' : VarHeap} {stored : StoredRow}
    (hfits : ∀ v ∈ values, AstValue.Fits v)
    (h : encodeRow lits r.inlineCellWidth r.body id (insertBody r values) heap =
      .ok (stored, heap')) :
    ∃ cells : List Cell, (∀ later, decodeRow (heap' ++ later) r.body stored =
        .ok (keystoneCell stored.id :: cells)) ∧
      cells.length = r.body.length ∧ (insertBody r values).length = r.body.length ∧
      ∀ (i : Nat) (col : SysColumnRow) (v : AstValue) (w : Cell), r.body[i]? = some col →
        (insertBody r values)[i]? = some v → cells[i]? = some w →
        ColumnHolds lits r.inlineCellWidth col v w := by
  have hbody : ∀ v ∈ insertBody r values, AstValue.Fits v := by
    intro v hv
    rw [insertBody] at hv
    split_ifs at hv
    · exact hfits v (mem_of_mem_tail hv)
    · exact hfits v hv
  rw [encodeRow] at h
  split_ifs at h with hlen hid
  obtain ⟨⟨cells, heap₁⟩, hcells, h⟩ := bind_eq_ok.mp h
  cases h
  obtain ⟨row, hdecode, hrow, hcols⟩ := exists_decodedCells (not_not.mp hlen) hbody hcells
  refine ⟨row, fun later => ?_, hrow, not_not.mp hlen, hcols⟩
  rw [decodeRow, hdecode later]
  rfl

/-- The same value of a group column, or NULL twice. -/
def SameGroupValue (col : SysColumnRow) (a b : Cell) : Prop :=
  a.val.type = .null ∧ b.val.type = .null ∨ compareValues col.typeVal a.val b.val .eq = true

section Columns

variable {col : SysColumnRow} {v v' : AstValue} {w w' : Cell}

variable {inlineCellWidth : Nat}

/-- What a column keeps of a value: one of its storage kind, a text no longer than the value's. -/
theorem ColumnHolds.source (h : ColumnHolds lits inlineCellWidth col v w) (hnull : v.type ≠ .null)
    (hcol : col.len < 2 ^ 32) (hinline : inlineCellWidth < 2 ^ 32) :
    ∃ kind, col.kind = some kind ∧ InStorage col kind w.val ∧
      (Text w.val → v.strVal.length < 2 ^ 64 ∧ w.val.strVal.length < 2 ^ 64) := by
  rw [ColumnHolds, if_neg hnull] at h
  obtain ⟨hfits, heap, stored, heap', hencode, hdecode⟩ := h
  obtain ⟨-, -, kind, hkind, -⟩ := encodeOneValue_eq_ok hencode
  have hstorage := StoredIn.inStorage ⟨v, heap, stored, heap', hfits, hencode, hdecode⟩ hkind
  refine ⟨kind, hkind, hstorage, fun htext => ?_⟩
  have hor : col.kind = some .char ∨ col.kind = some .varchar := by
    rcases hstorage.text htext with rfl | rfl
    · exact .inl hkind
    · exact .inr hkind
  obtain ⟨-, -, hlen, hstr⟩ := text_of_encode hfits hcol hinline hencode hdecode hor
  refine ⟨hlen, ?_⟩
  rw [hstr]
  split_ifs
  · exact lt_of_le_of_lt (List.takeWhile_prefix _).length_le hlen
  · exact hlen

theorem ColumnHolds.stored (h : ColumnHolds lits inlineCellWidth col v w)
    (hcol : col.len < 2 ^ 32) (hinline : inlineCellWidth < 2 ^ 32) :
    w = nullCell ∨ ∃ kind, col.kind = some kind ∧ InStorage col kind w.val ∧
      (Text w.val → w.val.strVal.length < 2 ^ 64) := by
  by_cases hnull : v.type = .null
  · rw [ColumnHolds, if_pos hnull] at h
    exact .inl h
  · obtain ⟨kind, hkind, hstorage, hlen⟩ := h.source hnull hcol hinline
    exact .inr ⟨kind, hkind, hstorage, fun htext => (hlen htext).2⟩

theorem ColumnHolds.lengthsFit
    (h : ColumnHolds lits inlineCellWidth col v w) (hcol : col.len < 2 ^ 32)
    (hinline : inlineCellWidth < 2 ^ 32) : LengthsFit v w.val := by
  intro hv hw
  have hnull : v.type ≠ .null := by
    intro hnull
    rw [Text, hnull] at hv
    rcases hv with hv | hv <;> cases hv
  obtain ⟨-, -, -, hlen⟩ := h.source hnull hcol hinline
  exact hlen hw

theorem ColumnHolds.part_iff
    (h : ColumnHolds lits inlineCellWidth col v w) (hcol : col.len < 2 ^ 32)
    (hinline : inlineCellWidth < 2 ^ 32) :
    encodeGroupKeyPart v = encodeGroupKeyPart w.val ↔ KeyedAsStored col v := by
  rw [ColumnHolds] at h
  by_cases hnull : v.type = .null
  · rw [if_pos hnull] at h
    subst h
    refine iff_of_true ?_ fun hne => absurd hnull hne
    rw [encodeGroupKeyPart, hnull]
    rfl
  · rw [if_neg hnull] at h
    obtain ⟨hfits, heap, stored, heap', hencode, hdecode⟩ := h
    exact encodeGroupKeyPart_iff_of_encode hfits hcol hinline hencode hdecode

theorem ColumnHolds.sumContribution_eq
    (h : ColumnHolds lits inlineCellWidth col v w) (htype : col.typeVal = typeValInt64) :
    sumContribution v = sumContribution w.val := by
  rw [ColumnHolds] at h
  by_cases hnull : v.type = .null
  · rw [if_pos hnull] at h
    subst h
    rw [sumContribution, if_pos hnull]
    rfl
  · rw [if_neg hnull] at h
    obtain ⟨hfits, heap, stored, heap', hencode, hdecode⟩ := h
    obtain ⟨-, -, kind, hkind, added, d, -, hread, hsame⟩ := readsBack_of_encode hfits hencode
    have hnow := hread []
    rw [append_nil, hdecode] at hnow
    cases hnow
    rw [SysColumnRow.kind, htype] at hkind
    cases hkind
    obtain ⟨hv, hw, hval⟩ := hsame v rfl
    rw [sumContribution, sumContribution, if_neg hnull, if_neg (by rw [hw]; decide), hval]

theorem null_part_ne {kind : ColumnKind} (hw : InStorage col kind w.val) :
    encodeGroupKeyPart nullCell.val ≠ encodeGroupKeyPart w.val := by
  intro heq
  obtain ⟨rest, hrest⟩ := encodeGroupKeyPart_cons w.val
  rw [hrest, hw.type] at heq
  have htag := (List.cons.inj heq).1
  cases kind <;> cases htag

theorem keystone_part_iff (col : SysColumnRow) (id id' : Nat) :
    LengthsFit (keystoneCell id).val (keystoneCell id').val ∧
      (encodeGroupKeyPart (keystoneCell id).val = encodeGroupKeyPart (keystoneCell id').val ↔
        SameGroupValue col (keystoneCell id) (keystoneCell id')) := by
  refine ⟨fun ht => ?_, ?_⟩
  · rcases ht with ht | ht <;> cases ht
  · have hrange := (keystoneCell id).property.intRange
    have hrange' := (keystoneCell id').property.intRange
    rw [encodeGroupKeyPart_int rfl, encodeGroupKeyPart_int rfl, List.cons.injEq,
      and_iff_right rfl, appendU64_inj_iff_of_range hrange hrange', SameGroupValue]
    have hnull : ¬ ((keystoneCell id).val.type = .null ∧ (keystoneCell id').val.type = .null) := by
      rintro ⟨h, -⟩
      cases h
    rw [or_iff_right hnull]
    show ((id % 2 ^ 40 : Nat) : Int) = ((id' % 2 ^ 40 : Nat) : Int) ↔
      compareValues col.typeVal (.ofInt (id % 2 ^ 40 : Nat)) (.ofInt (id' % 2 ^ 40 : Nat)) .eq =
        true
    by_cases huint : col.typeVal = typeValUint64
    · have hvalue : ∀ n : Nat, valueAsUint64 (.ofInt n) = some n := by
        intro n
        rw [valueAsUint64, if_neg (fun hne => hne rfl), if_neg (fun hne => hne rfl),
          if_neg (show ¬ (AstValue.ofInt n).intVal < 0 from Int.not_lt.mpr (Int.natCast_nonneg n))]
        rfl
      rw [compareValues, if_neg (by decide), if_neg (by decide), if_neg (by simp [AstValue.ofInt]),
        if_pos huint, hvalue, hvalue]
      dsimp only
      rw [applyCompare, decide_eq_true_eq]
      omega
    · rw [compareValues, if_neg (by decide), if_neg (by decide), if_neg (by simp [AstValue.ofInt]),
        if_neg huint, if_neg (by simp [AstValue.ofInt]), if_neg (by simp [AstValue.ofInt]),
        if_pos ⟨rfl, rfl⟩, applyCompare, decide_eq_true_eq]
      rfl

theorem stored_part_iff (h : ColumnHolds lits inlineCellWidth col v w)
    (h' : ColumnHolds lits inlineCellWidth col v' w') (hcol : col.len < 2 ^ 32)
    (hinline : inlineCellWidth < 2 ^ 32) :
    LengthsFit w.val w'.val ∧
      (encodeGroupKeyPart w.val = encodeGroupKeyPart w'.val ↔ SameGroupValue col w w') := by
  have hnullText : ¬ Text nullCell.val := by
    rintro (h | h) <;> cases h
  have hnone : ∀ {kind : ColumnKind} {u : Cell}, InStorage col kind u.val →
      u.val.type ≠ .null := by
    intro kind u hu hnull
    have htype := hu.type
    rw [hnull] at htype
    cases kind <;> cases htype
  rcases h.stored hcol hinline with rfl | ⟨kind, hkind, hw, hlen⟩
  · refine ⟨fun ht => absurd ht hnullText, ?_⟩
    rcases h'.stored hcol hinline with rfl | ⟨kind', -, hw', -⟩
    · exact iff_of_true rfl (.inl ⟨rfl, rfl⟩)
    · refine iff_of_false (null_part_ne hw') ?_
      rintro (⟨-, hnull⟩ | heq)
      · exact hnone hw' hnull
      · rw [compareValues, if_neg (by decide), if_neg (by decide), if_pos (.inl rfl)] at heq
        cases heq
  · rcases h'.stored hcol hinline with rfl | ⟨kind', hkind', hw', hlen'⟩
    · refine ⟨fun _ ht => absurd ht hnullText, iff_of_false (null_part_ne hw).symm ?_⟩
      rintro (⟨hnull, -⟩ | heq)
      · exact hnone hw hnull
      · rw [compareValues, if_neg (by decide), if_neg (by decide), if_pos (.inr rfl)] at heq
        cases heq
    · cases hkind.symm.trans hkind'
      have hfit : LengthsFit w.val w'.val := fun ht ht' => ⟨hlen ht, hlen' ht'⟩
      refine ⟨hfit, (encodeGroupKeyPart_iff_of_stored hkind hw hw' hfit).trans ?_⟩
      exact ⟨.inr, fun h => h.resolve_left fun hboth => hnone hw hboth.1⟩

end Columns

-- Groups

/-- `schema_pos - first_col_pos`, of `size_t`s: the index `ValueAt` reads at. -/
def valueIndex (firstColPos schemaPos : Nat) : Nat :=
  (schemaPos + (2 ^ 64 - firstColPos)) % 2 ^ 64

/-- INSERT reads within the statement's values, and takes from them the group key and the
    contribution that the row decoded has. -/
structure EntersAsItLeaves (d : AssertionDecl) (body : List AstValue) (row : Row) : Prop where
  within : ∀ c ∈ readCols d, valueIndex 1 c < body.length
  key : d.keyFor body 1 = d.keyFor (row.map (·.val)) 0
  contribution : d.contributionOf body 1 = d.contributionOf (row.map (·.val)) 0

/-- The assertion reads columns past the primary key alone, and what it groups by is written as it
    is decoded. -/
def WrittenAsStored (r : GroupedRelation) (d : AssertionDecl) (body : List AstValue) : Prop :=
  d.PastPk ∧ ∀ c ∈ d.groupCols, KeyedAsStored (r.columns.getD c r.pk) (valueAt body 1 c)

variable {d : AssertionDecl} {stmt : AssertionClauses}

theorem pastPk_iff : d.PastPk ↔ ∀ c ∈ readCols d, 1 ≤ c := by
  rw [AssertionDecl.PastPk, readCols]
  by_cases hsum : d.aggregate = .sum
  · rw [if_pos hsum]
    simp [hsum, mem_append, or_imp, forall_and]
  · rw [if_neg hsum, append_nil]
    simp [hsum]

theorem valueIndex_lt_iff {c n : Nat} (hc : c < n + 1) (hn : n < 2 ^ 16) :
    valueIndex 1 c < n ↔ 1 ≤ c := by
  rw [valueIndex]
  omega

theorem valueAt_decoded (row : Row) (c : Nat) :
    valueAt (row.map (·.val)) 0 c = (row.cell c).val := by
  rw [valueAt, Row.cell, Nat.sub_zero, getD_eq_getElem?_getD, List.getElem?_map,
    getD_eq_getElem?_getD]
  cases row[c]? <;> rfl

theorem keyFor_eq_iff {xs ys : List AstValue} {m n : Nat}
    (hfit : ∀ c ∈ d.groupCols, LengthsFit (valueAt xs m c) (valueAt ys n c)) :
    d.keyFor xs m = d.keyFor ys n ↔ ∀ c ∈ d.groupCols,
      encodeGroupKeyPart (valueAt xs m c) = encodeGroupKeyPart (valueAt ys n c) :=
  delimits_encodeGroupKeyPart.flatMap_iff hfit

/-- **What INSERT takes from a row's values is what the row decoded has**, exactly where the
    assertion and the values are such. -/
theorem Inserted.enters_iff (h : Inserted lits r values row) (hdecl : Declares r stmt d) :
    EntersAsItLeaves d (insertBody r values) row ↔ WrittenAsStored r d (insertBody r values) := by
  obtain ⟨hfits, id, heap, stored, heap', hencode, hread⟩ := h
  obtain ⟨cells, hdecode, hcells, hbody, hcols⟩ := exists_inserted hfits hencode
  obtain rfl : row = keystoneCell stored.id :: cells :=
    Except.ok.inj ((hread []).symm.trans (hdecode []))
  obtain ⟨hresolved, hsummed⟩ := hdecl.resolved
  have hwithin : (∀ c ∈ readCols d, valueIndex 1 c < (insertBody r values).length) ↔ d.PastPk := by
    rw [pastPk_iff]
    refine forall₂_congr fun c hc => valueIndex_lt_iff ?_ ?_
    · rw [hbody]
      exact hresolved c hc
    · rw [hbody]
      exact r.few
  -- past the primary key, a column's value and its cell
  have hcolumn : ∀ c ∈ readCols d, 1 ≤ c → ∃ col w, r.columns.getD c r.pk = col ∧ col ∈ r.body ∧
      (Row.cell (keystoneCell stored.id :: cells) c).val = w.val ∧
      ColumnHolds lits r.inlineCellWidth col (valueAt (insertBody r values) 1 c) w := by
    intro c hc hpos
    obtain ⟨i, rfl⟩ : ∃ i, c = i + 1 := ⟨c - 1, by omega⟩
    have hlt : i < r.body.length := Nat.lt_of_succ_lt_succ (hresolved _ hc)
    have hv := List.getElem?_eq_getElem (hbody ▸ hlt : i < (insertBody r values).length)
    have hw := List.getElem?_eq_getElem (hcells ▸ hlt : i < cells.length)
    refine ⟨r.body[i], cells[i], ?_, getElem_mem hlt, ?_, ?_⟩
    · rw [GroupedRelation.columns, getD_cons_succ, getD_eq_getElem?_getD,
        List.getElem?_eq_getElem hlt]
      rfl
    · rw [Row.cell, getD_cons_succ, getD_eq_getElem?_getD, hw]
      rfl
    · rw [valueAt, Nat.add_sub_cancel, getD_eq_getElem?_getD, hv]
      exact hcols i _ _ _ (List.getElem?_eq_getElem hlt) hv hw
  have hgroup : ∀ c ∈ d.groupCols, c ∈ readCols d := fun c hc => mem_append_left _ hc
  have hkey : d.PastPk → (d.keyFor (insertBody r values) 1 =
      d.keyFor ((keystoneCell stored.id :: cells : Row).map (·.val)) 0 ↔
      ∀ c ∈ d.groupCols, KeyedAsStored (r.columns.getD c r.pk)
        (valueAt (insertBody r values) 1 c)) := by
    intro hpast
    rw [keyFor_eq_iff]
    · refine forall₂_congr fun c hc => ?_
      obtain ⟨col, w, hcol, hmem, hval, hholds⟩ := hcolumn c (hgroup c hc) (hpast.1 c hc)
      rw [valueAt_decoded, hval, hcol]
      exact hholds.part_iff (r.lens col hmem) r.inlineWidth
    · intro c hc
      obtain ⟨col, w, -, hmem, hval, hholds⟩ := hcolumn c (hgroup c hc) (hpast.1 c hc)
      rw [valueAt_decoded, hval]
      exact hholds.lengthsFit (r.lens col hmem) r.inlineWidth
  constructor
  · rintro ⟨hin, hsame, -⟩
    have hpast := hwithin.mp hin
    exact ⟨hpast, (hkey hpast).mp hsame⟩
  · rintro ⟨hpast, hwritten⟩
    refine ⟨hwithin.mpr hpast, (hkey hpast).mpr hwritten, ?_⟩
    rw [AssertionDecl.contributionOf, AssertionDecl.contributionOf]
    cases hagg : d.aggregate with
    | count => rfl
    | sum =>
      have hmem : d.sumCol ∈ readCols d := by
        rw [readCols, if_pos hagg]
        exact mem_append_right _ mem_cons_self
      obtain ⟨col, w, hcol, -, hval, hholds⟩ := hcolumn d.sumCol hmem (hpast.2 hagg)
      have htype := hsummed hagg
      rw [hcol] at htype
      dsimp only
      rw [valueAt_decoded, hval]
      exact hholds.sumContribution_eq htype

theorem Inserted.key_iff {values' : List AstValue} {row' : Row} (h : Inserted lits r values row)
    (h' : Inserted lits r values' row') (hdecl : Declares r stmt d) :
    d.keyFor (row.map (·.val)) 0 = d.keyFor (row'.map (·.val)) 0 ↔
      ∀ c ∈ d.groupCols, SameGroupValue (r.columns.getD c r.pk) (row.cell c) (row'.cell c) := by
  obtain ⟨hfits, id, heap, stored, heap₁, hencode, hread⟩ := h
  obtain ⟨hfits', id', heap', stored', heap₁', hencode', hread'⟩ := h'
  obtain ⟨cells, hdecode, hcells, hbody, hcols⟩ := exists_inserted hfits hencode
  obtain ⟨cells', hdecode', hcells', hbody', hcols'⟩ := exists_inserted hfits' hencode'
  obtain rfl : row = keystoneCell stored.id :: cells :=
    Except.ok.inj ((hread []).symm.trans (hdecode []))
  obtain rfl : row' = keystoneCell stored'.id :: cells' :=
    Except.ok.inj ((hread' []).symm.trans (hdecode' []))
  have hpart : ∀ c ∈ d.groupCols,
      LengthsFit (Row.cell (keystoneCell stored.id :: cells) c).val
        (Row.cell (keystoneCell stored'.id :: cells') c).val ∧
      (encodeGroupKeyPart (Row.cell (keystoneCell stored.id :: cells) c).val =
          encodeGroupKeyPart (Row.cell (keystoneCell stored'.id :: cells') c).val ↔
        SameGroupValue (r.columns.getD c r.pk) (Row.cell (keystoneCell stored.id :: cells) c)
          (Row.cell (keystoneCell stored'.id :: cells') c)) := by
    intro c hc
    have hlt := hdecl.resolved.1 c (mem_append_left _ hc)
    rcases c with _ | i
    · exact keystone_part_iff _ _ _
    · have hlt : i < r.body.length := Nat.lt_of_succ_lt_succ hlt
      have hcol := List.getElem?_eq_getElem hlt
      have hw := List.getElem?_eq_getElem (hcells ▸ hlt : i < cells.length)
      have hw' := List.getElem?_eq_getElem (hcells' ▸ hlt : i < cells'.length)
      have hholds := hcols i _ _ _ hcol
        (List.getElem?_eq_getElem (hbody ▸ hlt : i < (insertBody r values).length)) hw
      have hholds' := hcols' i _ _ _ hcol
        (List.getElem?_eq_getElem (hbody' ▸ hlt : i < (insertBody r values').length)) hw'
      have hcell : ∀ {cs : List Cell} {k : Cell} (hi : i < cs.length),
          Row.cell (k :: cs) (i + 1) = cs[i] := by
        intro cs k hi
        rw [Row.cell, getD_cons_succ, getD_eq_getElem?_getD,
          List.getElem?_eq_getElem hi]
        rfl
      have hdef : r.columns.getD (i + 1) r.pk = r.body[i] := by
        rw [GroupedRelation.columns, getD_cons_succ, getD_eq_getElem?_getD, hcol]
        rfl
      rw [hcell (hcells ▸ hlt), hcell (hcells' ▸ hlt), hdef]
      exact stored_part_iff hholds hholds' (r.lens _ (getElem_mem hlt)) r.inlineWidth
  rw [keyFor_eq_iff]
  · refine forall₂_congr fun c hc => ?_
    rw [valueAt_decoded, valueAt_decoded]
    exact (hpart c hc).2
  · intro c hc
    rw [valueAt_decoded, valueAt_decoded]
    exact (hpart c hc).1

end Rows

/-- **The group a row enters is the group it leaves**, for every accepted assertion and row: INSERT
    stays within the statement's values and computes what the decoded row has, exactly where the
    assertion reads no primary key and groups by values written as they are decoded; and two
    decoded rows have one key exactly where their group columns hold the same, or NULL. -/
theorem entersAsItLeaves_iff (lits : TypeLiterals) (r : GroupedRelation) (stmt : AssertionClauses)
    (d : AssertionDecl) (hdecl : Declares r stmt d) :
    (∀ values row, Inserted lits r values row →
      (EntersAsItLeaves d (insertBody r values) row ↔ WrittenAsStored r d (insertBody r values))) ∧
    ∀ values row values' row', Inserted lits r values row → Inserted lits r values' row' →
      (d.keyFor (row.map (·.val)) 0 = d.keyFor (row'.map (·.val)) 0 ↔
        ∀ c ∈ d.groupCols, SameGroupValue (r.columns.getD c r.pk) (row.cell c) (row'.cell c)) := by
  refine ⟨fun values row h => h.enters_iff hdecl, fun values row values' row' h h' => ?_⟩
  exact h.key_iff h' hdecl

/-- Parsers that read one day. -/
def oneDay : TypeLiterals :=
  { noTexts with
    parseDate := fun text =>
      if text = [49, 57, 55, 48, 45, 48, 49, 45, 48, 49] then .ok ⟨0, by decide⟩
      else .error (.invalidArgument "expected a date") }

def datedRows : GroupedRelation where
  pk := { name := "id", typeVal := typeValInt64 }
  body := [{ name := "d", typeVal := 11 }]
  inlineCellWidth := 64
  few := by decide
  lens := by decide
  inlineWidth := by decide

/-- A bound on the rows of one column's value. -/
def boundOf (column : String) : AssertionClauses where
  tableName := "t"
  func := .count
  groupColumns := [⟨column, 0⟩]
  sumColumn := ⟨"", 0⟩

def boundDecl (groupCol : Nat) : AssertionDecl where
  assertionId := 1
  targetOid := 1
  name := "few"
  aggregate := .count
  bound := 3
  groupCols := [groupCol]

/-- The day `'1970-01-01'`, and what is decoded of it. -/
def dayInWords : AstValue := { type := .str, strVal := [49, 57, 55, 48, 45, 48, 49, 45, 48, 49] }
def dayRow : Row := [keystoneCell 7, signedCell .w32 (putLE 4 0)]

theorem dayInWords_inserted : Inserted oneDay datedRows [dayInWords] dayRow := by
  refine ⟨?_, 7, [], ⟨7, [some (.fixed (putLE 4 0))]⟩, [], rfl, fun later => rfl⟩
  intro v hv
  obtain rfl := mem_singleton.mp hv
  exact ⟨by decide, by decide⟩

/-- A day given as a number enters the group of its row. -/
theorem dayInNumbers_enters :
    EntersAsItLeaves (boundDecl 1) [.ofInt 0] dayRow := by
  have hinserted : Inserted oneDay datedRows [.ofInt 0] dayRow := by
    refine ⟨?_, 7, [], ⟨7, [some (.fixed (putLE 4 0))]⟩, [], rfl, fun later => rfl⟩
    intro v hv
    obtain rfl := mem_singleton.mp hv
    exact ⟨by decide, by decide⟩
  obtain ⟨henters, -⟩ := entersAsItLeaves_iff oneDay datedRows (boundOf "d") (boundDecl 1)
    ⟨rfl, rfl⟩
  refine (henters _ _ hinserted).mpr ⟨by decide, fun c hc => ?_⟩
  obtain rfl := mem_singleton.mp hc
  exact fun _ h => by cases h

/-- A day in words enters a group that its row does not leave; and a bound on the primary key reads
    before the statement's values. -/
theorem dayInWords_entersAnother :
    Declares datedRows (boundOf "d") (boundDecl 1) ∧
    Declares datedRows (boundOf "id") (boundDecl 0) ∧
    Inserted oneDay datedRows [dayInWords] dayRow ∧
    (boundDecl 1).keyFor (insertBody datedRows [dayInWords]) 1 ≠
      (boundDecl 1).keyFor (dayRow.map (·.val)) 0 ∧
    ¬ valueIndex 1 0 < (insertBody datedRows [dayInWords]).length := by
  refine ⟨⟨rfl, rfl⟩, ⟨rfl, rfl⟩, dayInWords_inserted, ?_, ?_⟩
  · decide +kernel
  · decide

end Codec

end Kds.Exec
