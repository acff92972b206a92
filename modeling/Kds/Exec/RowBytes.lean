/-
  Kds.Exec.RowBytes

  The bytes of a row: `RowLayout::Build` gives every column after the key a cell of its own, in
  schema order behind the Keystone word, and a bit of the bitmap at the end where it takes NULL;
  `EncodeRow` fills a zeroed buffer of that size, and `DecodeRowInto` and `ResolveSpills` read it.

  `rowRoundTrips_iff` says where a row comes back from its bytes and no cell meets another: where
  the columns fit a page together, no `char` holds a zero byte and no day is misspelt.  A layout
  whose offsets do not wrap is `Laid`; the encoder leaves what `layOut` lays out of the row's cells
  (`encodeRowBytes_eq`), and the decoder takes it apart (`decodeRowBytes_layOut`).
-/

import Kds.Exec.LiteralCoercion
import Kds.Lib.Buffer

namespace Kds.Exec.Codec

open Lib List

-- Layouts

def kKeystoneWordSize : Nat := 8
def kNoNullBit : Nat := 65535
def kMinInlineCellWidth : Nat := 16
def kMaxInlineCellWidth : Nat := 4096
def kMaxTuplePayloadSize : Nat := 8115

structure RowLayout where
  rowSize : Nat
  offsets : List Nat
  nullBits : List Nat
  nullBitmapBytes : Nat
  inlineCellWidth : Nat

/-- `IsIntegerTypeVal`. -/
def isIntegerTypeVal (typeVal : TypeVal) : Bool := decide (1 ≤ typeVal ∧ typeVal ≤ 5)

/-- `CheckKeystoneColumn`. -/
def checkKeystoneColumn (pk : SysColumnRow) : StatusOr Unit :=
  if isIntegerTypeVal pk.typeVal then .ok ()
  else .error (.invalidArgument ("primary-key column '" ++ pk.name ++
    "' must be an integer type - it carries the Keystone id"))

/-- `CheckInlineCellWidth`. -/
def checkInlineCellWidth (width : Nat) : StatusOr Unit :=
  if width < kMinInlineCellWidth ∨ kMaxInlineCellWidth < width then
    .error (.invalidArgument ("inline_cell_width " ++ toString width ++ " is outside " ++
      toString kMinInlineCellWidth ++ ".." ++ toString kMaxInlineCellWidth))
  else .ok ()

/-- The loop of `Build`, from a column on: the offsets and null bits, and what is left to `offset`
    (a `uint32`) and `next_bit` (a `uint16`). -/
def layColumns (inlineCellWidth : Nat) :
    List SysColumnRow → Nat → Nat → StatusOr (List Nat × List Nat × Nat × Nat)
  | [], offset, nextBit => .ok ([], [], offset, nextBit)
  | col :: cols, offset, nextBit => do
    let width ← columnWidth col inlineCellWidth
    if width = 0 then
      .error (.invalidArgument (columnName col ++
        " has zero width; every column must occupy bytes"))
    else do
      let (offsets, bits, last, lastBit) ← layColumns inlineCellWidth cols
        ((offset + width) % 2 ^ 32) (if col.notnull then nextBit else (nextBit + 1) % 2 ^ 16)
      .ok (offset :: offsets, (if col.notnull then kNoNullBit else nextBit) :: bits, last, lastBit)

/-- `RowLayout::Build`. -/
def RowLayout.build (pk : SysColumnRow) (body : List SysColumnRow) (inlineCellWidth : Nat) :
    StatusOr RowLayout := do
  checkKeystoneColumn pk
  checkInlineCellWidth inlineCellWidth
  if pk.notnull = false then
    .error (.invalidArgument ("the first column is the primary key and cannot be nullable " ++
      "(invariant 11: the Keystone word has no NULL encoding)"))
  else do
    let (offsets, bits, offset, nextBit) ← layColumns inlineCellWidth body kKeystoneWordSize 0
    let nullBitmapBytes := (nextBit + 7) / 8
    let rowSize := (offset + nullBitmapBytes) % 2 ^ 32
    if kMaxTuplePayloadSize < rowSize then
      .error (.unsupported ("row size " ++ toString rowSize ++ " exceeds the " ++
        toString kMaxTuplePayloadSize ++
        " bytes a heap page can hold; no row of this relation could ever be inserted"))
    else
      .ok { rowSize, offsets := 0 :: offsets, nullBits := kNoNullBit :: bits, nullBitmapBytes
            inlineCellWidth }

/-- `CheckLayoutMatches`, for a schema of so many columns. -/
def checkLayoutMatches (ncols : Nat) (layout : RowLayout) : StatusOr Unit :=
  if layout.offsets.length ≠ ncols ∨ layout.nullBits.length ≠ ncols ∨ layout.rowSize = 0 then
    .error (.invalidArgument ("row layout has " ++ toString layout.offsets.length ++
      " column offset(s) and " ++ toString layout.nullBits.length ++
      " null bit(s) for a schema of " ++ toString ncols ++ " column(s)"))
  else .ok ()

namespace RowLayout

/-- The ends of `CellOf`: a cell runs to the next column's, the last one to the bitmap. -/
def cellBegin (layout : RowLayout) (i : Nat) : Nat := layout.offsets.getD i 0

def cellEnd (layout : RowLayout) (i : Nat) : Nat :=
  if i + 1 < layout.offsets.length then layout.offsets.getD (i + 1) 0
  else layout.rowSize - layout.nullBitmapBytes

def nullBit (layout : RowLayout) (i : Nat) : Nat := layout.nullBits.getD i kNoNullBit

/-- `NullByteOf`. -/
def nullByteOf (layout : RowLayout) (bit : Nat) : Nat :=
  layout.rowSize - layout.nullBitmapBytes + bit / 8

/-- `NullBitIsSet`. -/
def nullBitIsSet (layout : RowLayout) (payload : Bytes) (i : Nat) : Bool :=
  if layout.nullBit i = kNoNullBit then false
  else bitAt payload (layout.nullByteOf (layout.nullBit i)) (layout.nullBit i % 8)

/-- `SetNullBit`. -/
def setNullBit (layout : RowLayout) (payload : Bytes) (i : Nat) : Bytes :=
  setBitAt payload (layout.nullByteOf (layout.nullBit i)) (layout.nullBit i % 8)

end RowLayout

-- Cells as bytes

def kMaxAssignedCellTag : Nat := 2

/-- What a cell is filled with: a fixed-width value, `EncodeInlineCell`, or `EncodeSpilledCell`;
    and of a NULL zeros, which `EncodeNullCell` writes and a fixed cell keeps. -/
def cellBytes (width : Nat) : Option StoredCell → Bytes
  | none => List.replicate width 0
  | some (.fixed bytes) => bytes
  | some (.inlined text) =>
    1 :: (storeLE 2 text.length ++ (text ++ List.replicate (width - (3 + text.length)) 0))
  | some (.spilled len ptr) =>
    2 :: (storeLE 4 len ++ (storeLE 8 ptr ++ List.replicate (width - 13) 0))

/-- `DecodeCell`, and its callers' refusal of a NULL that the bitmap does not say. -/
def decodeCell (col : SysColumnRow) (cell : Bytes) : StatusOr StoredCell :=
  if cell.length < kMinInlineCellWidth ∨ kMaxInlineCellWidth < cell.length then
    .error (inColumn col (.invalidArgument ("tagged cell of " ++ toString cell.length ++
      " byte(s) is outside the legal width range " ++ toString kMinInlineCellWidth ++ ".." ++
      toString kMaxInlineCellWidth)))
  else if kMaxAssignedCellTag < load 1 cell 0 then
    .error (inColumn col (.corruption ("tagged cell carries tag " ++ toString (load 1 cell 0) ++
      ", beyond the highest assigned tag " ++ toString kMaxAssignedCellTag)))
  else if load 1 cell 0 = 0 then
    .error (.corruption (columnName col ++
      " cell is tagged kNull while the null bitmap says present (docs/spec/null.md §3)"))
  else if load 1 cell 0 = 1 then
    if inlineCapacity cell.length < load 2 cell 1 then
      .error (inColumn col (.corruption ("inline cell claims " ++ toString (load 2 cell 1) ++
        " byte(s) but only " ++ toString (inlineCapacity cell.length) ++ " fit in a " ++
        toString cell.length ++ "-byte cell")))
    else .ok (.inlined ((cell.drop 3).take (load 2 cell 1)))
  else .ok (.spilled (load 4 cell 1) (load 8 cell 5))

/-- A column's cell, taken from its bytes. -/
def readCell (col : SysColumnRow) (cell : Bytes) : StatusOr StoredCell :=
  if col.kind = some .varchar then decodeCell col cell else .ok (.fixed cell)

-- Rows as bytes

/-- The loop of `EncodeRow`, from column `i` on, over the buffer. -/
def encodeColumns (lits : TypeLiterals) (layout : RowLayout) :
    Nat → List SysColumnRow → List AstValue → Bytes → VarHeap → StatusOr (Bytes × VarHeap)
  | i, col :: cols, v :: vs, out, heap =>
    let first := layout.cellBegin i
    let width := layout.cellEnd i - first
    if v.type = .null then
      if layout.nullBit i = kNoNullBit then
        .error (.invalidArgument (columnName col ++
          " is NOT NULL and cannot take NULL (declare it NULL at CREATE TABLE to opt in - " ++
          "docs/spec/null.md)"))
      else
        let marked := layout.setNullBit out i
        let out := if col.kind = some .varchar then patch marked first (cellBytes width none)
          else marked
        encodeColumns lits layout (i + 1) cols vs out heap
    else do
      let (cell, heap) ← encodeOneValue lits width col v heap
      encodeColumns lits layout (i + 1) cols vs (patch out first (cellBytes width (some cell)))
        heap
  | _, _, _, out, heap => .ok (out, heap)

/-- `EncodeRow`. -/
def encodeRowBytes (lits : TypeLiterals) (layout : RowLayout) (pk : SysColumnRow)
    (body : List SysColumnRow) (id : Nat) (values : List AstValue) (heap : VarHeap) :
    StatusOr (Bytes × VarHeap) := do
  checkKeystoneColumn pk
  checkLayoutMatches (body.length + 1) layout
  if values.length ≠ body.length then
    .error (.invalidArgument ("expected " ++ toString body.length ++
      " value(s) after the primary key, got " ++ toString values.length))
  else if 2 ^ 40 ≤ id then .error (.outOfRange "keystone id does not fit 40 bits")
  else do
    let out := patch (List.replicate layout.rowSize 0) 0 (storeLE 8 id)
    let (out, heap) ← encodeColumns lits layout 1 body values out heap
    if out.length ≠ layout.rowSize then
      .error (.corruption ("encoded row is " ++ toString out.length ++
        " bytes for a relation whose row size is " ++ toString layout.rowSize))
    else .ok (out, heap)

/-- The loop of `DecodeRowInto`, from column `i` on: a spilled value is left pending. -/
def decodeColumns (layout : RowLayout) (payload : Bytes) :
    Nat → List SysColumnRow → StatusOr (List DecodedCell)
  | _, [] => .ok []
  | i, col :: cols =>
    if layout.nullBitmapBytes ≠ 0 ∧ layout.nullBitIsSet payload i then do
      let rest ← decodeColumns layout payload (i + 1) cols
      .ok (.value nullCell :: rest)
    else do
      let cell ← readCell col (slice payload (layout.cellBegin i) (layout.cellEnd i))
      let value ← decodeOneValueInto col cell
      let rest ← decodeColumns layout payload (i + 1) cols
      .ok (value :: rest)

/-- `DecodeRowInto`: the key comes out of the Keystone word. -/
def decodeRowInto (layout : RowLayout) (pk : SysColumnRow) (body : List SysColumnRow)
    (payload : Bytes) : StatusOr (List DecodedCell) := do
  checkKeystoneColumn pk
  checkLayoutMatches (body.length + 1) layout
  if payload.length ≠ layout.rowSize then
    .error (.corruption ("tuple payload is " ++ toString payload.length ++
      " bytes for a relation whose row size is " ++ toString layout.rowSize))
  else do
    let cells ← decodeColumns layout payload 1 body
    .ok (.value (keystoneCell (load 8 payload 0)) :: cells)

/-- `ResolveSpills`. -/
def resolveSpills (heap : VarHeap) : List DecodedCell → StatusOr Row
  | [] => .ok []
  | .value v :: cells => do
    let rest ← resolveSpills heap cells
    .ok (v :: rest)
  | .pendingSpill len ptr :: cells => do
    let v ← resolveSpill heap len ptr
    let rest ← resolveSpills heap cells
    .ok (v :: rest)

/-- A row read from its bytes. -/
def decodeRowBytes (heap : VarHeap) (layout : RowLayout) (pk : SysColumnRow)
    (body : List SysColumnRow) (payload : Bytes) : StatusOr Row := do
  let cells ← decodeRowInto layout pk body payload
  resolveSpills heap cells

-- Layouts that do not wrap

/-- What the columns take together. -/
def bodyWidth (inlineCellWidth : Nat) : List SysColumnRow → Nat
  | [] => 0
  | col :: cols =>
    (columnWidth col inlineCellWidth).toOption.getD 0 + bodyWidth inlineCellWidth cols

/-- How many of the columns take NULL. -/
def nullables : List SysColumnRow → Nat
  | [] => 0
  | col :: cols => (if col.notnull then 0 else 1) + nullables cols

/-- From column `i` on, the cells stand one behind another from `off`, and the null bits from
    `bit`. -/
def Laid (layout : RowLayout) : Nat → List SysColumnRow → Nat → Nat → Prop
  | _, [], off, bit =>
    off = layout.rowSize - layout.nullBitmapBytes ∧ (bit + 7) / 8 = layout.nullBitmapBytes
  | i, col :: cols, off, bit =>
    ∃ width, columnWidth col layout.inlineCellWidth = .ok width ∧ 0 < width ∧
      layout.cellBegin i = off ∧ layout.cellEnd i = off + width ∧
      layout.nullBit i = (if col.notnull then kNoNullBit else bit) ∧ bit < kNoNullBit ∧
      Laid layout (i + 1) cols (off + width) (if col.notnull then bit else bit + 1)

section Layouts

variable {layout : RowLayout} {pk : SysColumnRow} {body cols : List SysColumnRow}
  {inlineCellWidth : Nat}

variable {off bit : Nat} {col : SysColumnRow}

variable {out : List Nat × List Nat × Nat × Nat}

theorem layColumns_cons (h : layColumns inlineCellWidth (col :: cols) off bit = .ok out) :
    ∃ width offsets bits last lastBit, columnWidth col inlineCellWidth = .ok width ∧ 0 < width ∧
      layColumns inlineCellWidth cols ((off + width) % 2 ^ 32)
        (if col.notnull then bit else (bit + 1) % 2 ^ 16) = .ok (offsets, bits, last, lastBit) ∧
      out = (off :: offsets, (if col.notnull then kNoNullBit else bit) :: bits, last, lastBit) := by
  rw [layColumns] at h
  obtain ⟨width, hwidth, h⟩ := bind_eq_ok.mp h
  by_cases hzero : width = 0
  · rw [if_pos hzero] at h
    cases h
  rw [if_neg hzero] at h
  obtain ⟨⟨offsets, bits, last, lastBit⟩, hrest, h⟩ := bind_eq_ok.mp h
  exact ⟨width, offsets, bits, last, lastBit, hwidth, Nat.pos_of_ne_zero hzero, hrest,
    (Except.ok.inj h).symm⟩

variable {width : Nat}

theorem bodyWidth_cons (h : columnWidth col inlineCellWidth = .ok width) :
    bodyWidth inlineCellWidth (col :: cols) = width + bodyWidth inlineCellWidth cols := by
  rw [bodyWidth, h]
  rfl

variable {offsets bits : List Nat} {lastBit : Nat}

theorem length_of_layColumns {last : Nat}
    (h : layColumns inlineCellWidth cols off bit = .ok (offsets, bits, last, lastBit)) :
    cols.length ≤ bodyWidth inlineCellWidth cols ∧ offsets.length = cols.length ∧
      bits.length = cols.length := by
  induction cols generalizing off bit offsets bits with
  | nil =>
    obtain ⟨rfl, rfl, -⟩ := by simpa [layColumns] using h
    exact ⟨Nat.le_refl _, rfl, rfl⟩
  | cons col cols ih =>
    obtain ⟨width, offsets', bits', last', lastBit', hwidth, hpos, hrest, hout⟩ :=
      layColumns_cons h
    simp only [Prod.mk.injEq] at hout
    obtain ⟨rfl, rfl, rfl, rfl⟩ := hout
    obtain ⟨hcols, hoffsets, hbits⟩ := ih hrest
    rw [bodyWidth_cons hwidth, length_cons, length_cons, length_cons]
    omega

theorem nullables_le (cols : List SysColumnRow) : nullables cols ≤ cols.length := by
  induction cols with
  | nil => exact Nat.le_refl 0
  | cons col cols ih =>
    rw [nullables, length_cons]
    split_ifs <;> omega

variable {k : Nat}

theorem columnWidth_of_layColumns (h : layColumns inlineCellWidth cols off bit = .ok out)
    (hcol : cols[k]? = some col) : ∃ width, columnWidth col inlineCellWidth = .ok width := by
  induction cols generalizing off bit k out with
  | nil => simp at hcol
  | cons first cols ih =>
    obtain ⟨width, _, _, _, _, hwidth, -, hrest, -⟩ := layColumns_cons h
    cases k with
    | zero =>
      cases hcol
      exact ⟨width, hwidth⟩
    | succ k => exact ih hrest hcol

theorem bodyWidth_take_succ (hcol : cols[k]? = some col)
    (hwidth : columnWidth col inlineCellWidth = .ok width) :
    bodyWidth inlineCellWidth (cols.take (k + 1)) =
      bodyWidth inlineCellWidth (cols.take k) + width := by
  induction cols generalizing k with
  | nil => simp at hcol
  | cons first cols ih =>
    cases k with
    | zero =>
      cases hcol
      rw [take_succ_cons, bodyWidth_cons hwidth, take_zero, take_zero, bodyWidth,
        Nat.add_comm]
    | succ k =>
      rw [take_succ_cons, take_succ_cons, bodyWidth, bodyWidth, ih hcol,
        Nat.add_assoc]

theorem last_of_layColumns {last : Nat}
    (h : layColumns inlineCellWidth cols off bit = .ok (offsets, bits, last, lastBit))
    (hoff : off + bodyWidth inlineCellWidth cols < 2 ^ 32) (hbit : bit + cols.length < 2 ^ 16) :
    last = off + bodyWidth inlineCellWidth cols ∧ lastBit = bit + nullables cols := by
  induction cols generalizing off bit offsets bits with
  | nil =>
    obtain ⟨-, -, rfl, rfl⟩ := by simpa [layColumns] using h
    exact ⟨rfl, rfl⟩
  | cons col cols ih =>
    obtain ⟨width, offsets', bits', last', lastBit', hwidth, -, hrest, hout⟩ := layColumns_cons h
    simp only [Prod.mk.injEq] at hout
    obtain ⟨-, -, rfl, rfl⟩ := hout
    rw [bodyWidth_cons hwidth] at hoff ⊢
    rw [length_cons] at hbit
    rw [Nat.mod_eq_of_lt (by omega), Nat.mod_eq_of_lt (show bit + 1 < 2 ^ 16 by omega)] at hrest
    rw [nullables]
    by_cases hnotnull : col.notnull = true
    · rw [if_pos hnotnull] at hrest ⊢
      obtain ⟨hlast, hlastBit⟩ := ih hrest (by omega) (by omega)
      omega
    · rw [if_neg hnotnull] at hrest ⊢
      obtain ⟨hlast, hlastBit⟩ := ih hrest (by omega) (by omega)
      omega

variable {i : Nat}

theorem laid_of_layColumns {pre preBits : List Nat} {last : Nat}
    (h : layColumns layout.inlineCellWidth cols off bit = .ok (offsets, bits, last, lastBit))
    (hoff : off + bodyWidth layout.inlineCellWidth cols < 2 ^ 32)
    (hbit : bit + cols.length < kNoNullBit)
    (hoffsets : layout.offsets = pre ++ offsets) (hpre : pre.length = i)
    (hbits : layout.nullBits = preBits ++ bits) (hpreBits : preBits.length = i)
    (hlast : last = layout.rowSize - layout.nullBitmapBytes)
    (hlastBit : (lastBit + 7) / 8 = layout.nullBitmapBytes) :
    Laid layout i cols off bit := by
  induction cols generalizing off bit offsets bits pre preBits i with
  | nil =>
    obtain ⟨-, -, rfl, rfl⟩ := by simpa [layColumns] using h
    exact ⟨hlast, hlastBit⟩
  | cons col cols ih =>
    obtain ⟨width, offsets', bits', last', lastBit', hwidth, hpos, hrest, hout⟩ :=
      layColumns_cons h
    simp only [Prod.mk.injEq] at hout
    obtain ⟨rfl, rfl, rfl, rfl⟩ := hout
    rw [bodyWidth_cons hwidth] at hoff
    rw [length_cons, kNoNullBit] at hbit
    rw [Nat.mod_eq_of_lt (by omega), Nat.mod_eq_of_lt (show bit + 1 < 2 ^ 16 by omega)] at hrest
    have hend : layout.cellEnd i = off + width := by
      rw [RowLayout.cellEnd, hoffsets]
      cases cols with
      | nil =>
        obtain ⟨rfl, -, rfl, -⟩ := by simpa [layColumns] using hrest
        rw [if_neg (by simp [hpre]), ← hlast]
      | cons next cols =>
        obtain ⟨_, rest, _, _, _, -, -, -, hout⟩ := layColumns_cons hrest
        simp only [Prod.mk.injEq] at hout
        obtain ⟨rfl, -⟩ := hout
        rw [if_pos (by simp [hpre]), getD_eq_getElem?_getD,
          List.getElem?_append_right (by omega), hpre, Nat.add_sub_cancel_left]
        rfl
    refine ⟨width, hwidth, hpos, ?_, hend, ?_, by rw [kNoNullBit]; omega, ?_⟩
    · rw [RowLayout.cellBegin, hoffsets, getD_eq_getElem?_getD,
        List.getElem?_append_right (by omega), hpre, Nat.sub_self]
      rfl
    · rw [RowLayout.nullBit, hbits, getD_eq_getElem?_getD,
        List.getElem?_append_right (by omega), hpreBits, Nat.sub_self]
      rfl
    · refine ih hrest (by omega) ?_
        (show layout.offsets = (pre ++ [off]) ++ offsets' from ?_) ?_
        (show layout.nullBits =
          (preBits ++ [if col.notnull then kNoNullBit else bit]) ++ bits' from ?_) ?_
      · rw [kNoNullBit]
        split_ifs <;> omega
      · rw [hoffsets, append_assoc]
        rfl
      · rw [length_append, hpre]
        rfl
      · rw [hbits, append_assoc]
        rfl
      · rw [length_append, hpreBits]
        rfl

theorem build_eq_ok (h : RowLayout.build pk body inlineCellWidth = .ok layout) :
    checkKeystoneColumn pk = .ok () ∧
      (kMinInlineCellWidth ≤ inlineCellWidth ∧ inlineCellWidth ≤ kMaxInlineCellWidth) ∧
      layout.inlineCellWidth = inlineCellWidth ∧ layout.rowSize ≤ kMaxTuplePayloadSize ∧
      ∃ offsets bits last lastBit,
        layColumns inlineCellWidth body kKeystoneWordSize 0 = .ok (offsets, bits, last, lastBit) ∧
        layout.offsets = 0 :: offsets ∧ layout.nullBits = kNoNullBit :: bits ∧
        layout.nullBitmapBytes = (lastBit + 7) / 8 ∧
        layout.rowSize = (last + layout.nullBitmapBytes) % 2 ^ 32 := by
  rw [RowLayout.build] at h
  obtain ⟨_, hkey, h⟩ := bind_eq_ok.mp h
  obtain ⟨_, hinline, h⟩ := bind_eq_ok.mp h
  rw [checkInlineCellWidth] at hinline
  split_ifs at hinline with hrange
  obtain ⟨hmin, hmax⟩ := not_or.mp hrange
  by_cases hnotnull : pk.notnull = false
  · rw [if_pos hnotnull] at h
    cases h
  rw [if_neg hnotnull] at h
  obtain ⟨⟨offsets, bits, last, lastBit⟩, hlay, h⟩ := bind_eq_ok.mp h
  dsimp only at h
  split_ifs at h with hlarge
  cases h
  exact ⟨hkey, ⟨Nat.not_lt.mp hmin, Nat.not_lt.mp hmax⟩, rfl, Nat.not_lt.mp hlarge, offsets, bits,
    last, lastBit, hlay, rfl, rfl, rfl, rfl⟩

/-- The columns fit a page together. -/
def ColumnsFit (inlineCellWidth : Nat) (body : List SysColumnRow) : Prop :=
  kKeystoneWordSize + bodyWidth inlineCellWidth body ≤ kMaxTuplePayloadSize

theorem laid_of_build (h : RowLayout.build pk body inlineCellWidth = .ok layout)
    (hfit : ColumnsFit inlineCellWidth body) :
    Laid layout 1 body kKeystoneWordSize 0 ∧
      layout.rowSize =
        kKeystoneWordSize + bodyWidth inlineCellWidth body + layout.nullBitmapBytes := by
  obtain ⟨-, -, hinline, -, offsets, bits, last, lastBit, hlay, hoffsets, hbits, hbitmap, hsize⟩ :=
    build_eq_ok h
  rw [ColumnsFit, kKeystoneWordSize, kMaxTuplePayloadSize] at hfit
  obtain ⟨hcols, -, -⟩ := length_of_layColumns hlay
  obtain ⟨hlast, hlastBit⟩ := last_of_layColumns hlay (by rw [kKeystoneWordSize]; omega) (by omega)
  have hnull := nullables_le body
  have hrow : layout.rowSize = last + layout.nullBitmapBytes := by
    rw [hsize]
    refine Nat.mod_eq_of_lt ?_
    rw [hbitmap, hlast, hlastBit, kKeystoneWordSize]
    omega
  subst hinline
  refine ⟨?_, by rw [hrow, hlast]⟩
  refine laid_of_layColumns hlay (by rw [kKeystoneWordSize]; omega) (by rw [kNoNullBit]; omega)
    (show layout.offsets = [0] ++ offsets from hoffsets) rfl
    (show layout.nullBits = [kNoNullBit] ++ bits from hbits) rfl ?_ hbitmap.symm
  rw [hrow, Nat.add_sub_cancel]

theorem bodyWidth_take_le (cols : List SysColumnRow) {l : Nat} (h : k ≤ l) :
    bodyWidth inlineCellWidth (cols.take k) ≤ bodyWidth inlineCellWidth (cols.take l) := by
  induction cols generalizing k l with
  | nil => simp
  | cons col cols ih =>
    cases k with
    | zero => exact Nat.zero_le _
    | succ k =>
      obtain ⟨l, rfl⟩ := Nat.exists_eq_succ_of_ne_zero (show l ≠ 0 by omega)
      rw [take_succ_cons, take_succ_cons, bodyWidth, bodyWidth]
      exact Nat.add_le_add_left (ih (by omega)) _

theorem nullables_take_lt {l : Nat} (hcol : cols[k]? = some col) (hnull : col.notnull = false)
    (h : k < l) : nullables (cols.take k) < nullables (cols.take l) := by
  induction cols generalizing k l with
  | nil => simp at hcol
  | cons first cols ih =>
    obtain ⟨l, rfl⟩ := Nat.exists_eq_succ_of_ne_zero (show l ≠ 0 by omega)
    cases k with
    | zero =>
      cases hcol
      rw [take_zero, take_succ_cons, nullables, nullables, hnull]
      simp
    | succ k =>
      rw [take_succ_cons, take_succ_cons, nullables, nullables]
      exact Nat.add_lt_add_left (ih hcol (by omega)) _

theorem Laid.at {i off bit k : Nat} {col : SysColumnRow} (h : Laid layout i cols off bit)
    (hcol : cols[k]? = some col) :
    ∃ width, columnWidth col layout.inlineCellWidth = .ok width ∧
      layout.cellBegin (i + k) = off + bodyWidth layout.inlineCellWidth (cols.take k) ∧
      layout.cellEnd (i + k) = off + bodyWidth layout.inlineCellWidth (cols.take (k + 1)) ∧
      layout.cellEnd (i + k) = layout.cellBegin (i + k) + width ∧
      (col.notnull = false → layout.nullBit (i + k) = bit + nullables (cols.take k)) := by
  induction cols generalizing i off bit k with
  | nil => simp at hcol
  | cons first cols ih =>
    obtain ⟨width, hwidth, -, hbegin, hend, hbit, -, hrest⟩ := h
    cases k with
    | zero =>
      cases hcol
      refine ⟨width, hwidth, hbegin, ?_, by rw [Nat.add_zero, hend, hbegin], fun hnull => ?_⟩
      · rw [Nat.add_zero, hend, take_succ_cons, bodyWidth_cons hwidth]
        rfl
      · rw [Nat.add_zero, hbit, hnull]
        rfl
    | succ k =>
      obtain ⟨width', hwidth', hbegin', hend', hown, hbit'⟩ := ih hrest hcol
      rw [Nat.add_right_comm i 1 k, Nat.add_assoc i k 1] at hbegin' hend' hown hbit'
      refine ⟨width', hwidth', ?_, ?_, hown, fun hnull => ?_⟩
      · rw [hbegin', take_succ_cons, bodyWidth_cons hwidth, Nat.add_assoc]
      · rw [hend', take_succ_cons, bodyWidth_cons hwidth, Nat.add_assoc]
      · rw [hbit' hnull, take_succ_cons, nullables]
        split_ifs <;> omega

theorem Laid.last (h : Laid layout i cols off bit) :
    layout.rowSize - layout.nullBitmapBytes = off + bodyWidth layout.inlineCellWidth cols ∧
      layout.nullBitmapBytes = (bit + nullables cols + 7) / 8 := by
  induction cols generalizing i off bit with
  | nil => exact ⟨h.1.symm, h.2.symm⟩
  | cons first cols ih =>
    obtain ⟨width, hwidth, -, -, -, -, -, hrest⟩ := h
    obtain ⟨hend, hbitmap⟩ := ih hrest
    rw [bodyWidth_cons hwidth, hend, hbitmap, nullables]
    refine ⟨Nat.add_assoc _ _ _, ?_⟩
    split_ifs <;> simp [Nat.add_assoc]

-- Cells apart

/-- Every column has a cell of its width, no two cells meet, nor a cell the Keystone word or the
    bitmap, and no two columns have one bit of the bitmap. -/
structure CellsApart (layout : RowLayout) (body : List SysColumnRow) : Prop where
  own : ∀ i col width, body[i]? = some col → columnWidth col layout.inlineCellWidth = .ok width →
    layout.cellEnd (i + 1) = layout.cellBegin (i + 1) + width
  word : ∀ i, i < body.length → kKeystoneWordSize ≤ layout.cellBegin (i + 1)
  apart : ∀ i j, i < j → j < body.length → layout.cellEnd (i + 1) ≤ layout.cellBegin (j + 1)
  bitmap : ∀ i, i < body.length → layout.cellEnd (i + 1) ≤ layout.rowSize - layout.nullBitmapBytes
  bits : ∀ i j ci cj, i < j → body[i]? = some ci → body[j]? = some cj → ci.notnull = false →
    cj.notnull = false → layout.nullBit (i + 1) ≠ layout.nullBit (j + 1)
  inside : ∀ i col, body[i]? = some col → col.notnull = false →
    layout.nullByteOf (layout.nullBit (i + 1)) < layout.rowSize

theorem cellsApart_iff (h : RowLayout.build pk body inlineCellWidth = .ok layout) :
    CellsApart layout body ↔ ColumnsFit inlineCellWidth body := by
  obtain ⟨-, -, hinline, hsize, offsets, bits, last, lastBit, hlay, -⟩ := build_eq_ok h
  constructor
  · intro hapart
    -- the cells up to a column's end hold the columns up to it
    have hends : ∀ k, k < body.length →
        kKeystoneWordSize + bodyWidth inlineCellWidth (body.take (k + 1)) ≤
          layout.cellEnd (k + 1) := by
      intro k hk
      have hcol := List.getElem?_eq_getElem hk
      obtain ⟨width, hwidth⟩ := columnWidth_of_layColumns hlay hcol
      have hown := hapart.own k _ width hcol (hinline ▸ hwidth)
      have htake : bodyWidth inlineCellWidth (body.take (k + 1)) =
          bodyWidth inlineCellWidth (body.take k) + width := bodyWidth_take_succ hcol hwidth
      induction k generalizing width with
      | zero =>
        have hword := hapart.word 0 hk
        rw [take_zero] at htake
        rw [htake, bodyWidth]
        omega
      | succ k ih =>
        have hk' : k < body.length := by omega
        have hcol' := List.getElem?_eq_getElem hk'
        obtain ⟨width', hwidth'⟩ := columnWidth_of_layColumns hlay hcol'
        have hbefore := ih hk' hcol' width' hwidth'
          (hapart.own k _ width' hcol' (hinline ▸ hwidth')) (bodyWidth_take_succ hcol' hwidth')
        have hstep := hapart.apart k (k + 1) (Nat.lt_succ_self k) hk
        omega
    rw [ColumnsFit]
    rcases Nat.eq_zero_or_pos body.length with hnil | hpos
    · rw [eq_nil_of_length_eq_zero hnil, bodyWidth]
      decide
    · obtain ⟨n, hn⟩ : ∃ n, body.length = n + 1 := ⟨body.length - 1, by omega⟩
      have hlast := hends n (by omega)
      have hbitmap := hapart.bitmap n (by omega)
      rw [show body.take (n + 1) = body by rw [← hn, take_length]] at hlast
      omega
  · intro hfit
    obtain ⟨hlaid, hrow⟩ := laid_of_build h hfit
    obtain ⟨hend, hbitmap⟩ := hlaid.last
    have hat := fun {k col} => @Laid.at layout body 1 kKeystoneWordSize 0 k col hlaid
    refine ⟨fun i col width hcol hwidth => ?_, fun i hi => ?_, fun i j hij hj => ?_, fun i hi => ?_,
      fun i j ci cj hij hci hcj hni hnj => ?_, fun i col hcol hnull => ?_⟩
    · obtain ⟨width', hwidth', -, -, hown, -⟩ := hat hcol
      cases hwidth.symm.trans hwidth'
      rw [Nat.add_comm i 1]
      exact hown
    · obtain ⟨-, -, hbegin, -⟩ := hat (List.getElem?_eq_getElem hi)
      rw [Nat.add_comm i 1, hbegin]
      exact Nat.le_add_right _ _
    · obtain ⟨-, -, -, hendi, -⟩ := hat (List.getElem?_eq_getElem (hij.trans hj))
      obtain ⟨-, -, hbeginj, -⟩ := hat (List.getElem?_eq_getElem hj)
      rw [Nat.add_comm i 1, Nat.add_comm j 1, hendi, hbeginj]
      exact Nat.add_le_add_left (bodyWidth_take_le body hij) _
    · obtain ⟨-, -, -, hendi, -⟩ := hat (List.getElem?_eq_getElem hi)
      rw [Nat.add_comm i 1, hendi, hend]
      refine Nat.add_le_add_left ((bodyWidth_take_le body hi).trans ?_) _
      rw [take_length]
    · obtain ⟨-, -, -, -, -, hbiti⟩ := hat hci
      obtain ⟨-, -, -, -, -, hbitj⟩ := hat hcj
      rw [Nat.add_comm i 1, Nat.add_comm j 1, hbiti hni, hbitj hnj]
      have hlt := nullables_take_lt hci hni hij
      omega
    · obtain ⟨-, -, -, -, -, hbiti⟩ := hat hcol
      have hlt := nullables_take_lt hcol hnull (List.getElem?_eq_some_iff.mp hcol).1
      rw [take_length] at hlt
      rw [RowLayout.nullByteOf, Nat.add_comm i 1, hbiti hnull, hend, hrow, hinline, hbitmap]
      omega

end Layouts

-- Rows laid out

/-- The cells, one behind another. -/
def cellsBytes (inlineCellWidth : Nat) : List SysColumnRow → List (Option StoredCell) → Bytes
  | col :: cols, cell :: cells =>
    cellBytes ((columnWidth col inlineCellWidth).toOption.getD 0) cell ++
      cellsBytes inlineCellWidth cols cells
  | _, _ => []

/-- The bitmap, a NULL's bit set for every column that holds one. -/
def markNulls : List SysColumnRow → List (Option StoredCell) → Nat → Bytes → Bytes
  | col :: cols, cell :: cells, bit, bitmap =>
    markNulls cols cells (if col.notnull then bit else bit + 1)
      (if cell = none then setBitAt bitmap (bit / 8) (bit % 8) else bitmap)
  | _, _, _, bitmap => bitmap

/-- A stored row's bytes: the Keystone word, the cells and the bitmap. -/
def layOut (layout : RowLayout) (body : List SysColumnRow) (stored : StoredRow) : Bytes :=
  storeLE 8 stored.id ++ (cellsBytes layout.inlineCellWidth body stored.cells ++
    markNulls body stored.cells 0 (List.replicate layout.nullBitmapBytes 0))

/-- A cell that its column's bytes can hold. -/
def CellFits (inlineCellWidth : Nat) (col : SysColumnRow) (cell : StoredCell) : Prop :=
  if col.kind = some .varchar then
    match cell with
    | .fixed _ => False
    | .inlined text => text.length ≤ inlineCapacity inlineCellWidth
    | .spilled len ptr => len < 2 ^ 32 ∧ ptr < 2 ^ 64
  else ∃ bytes, cell = .fixed bytes ∧ columnWidth col inlineCellWidth = .ok bytes.length

/-- Cells that fit, NULL only where a column takes it. -/
def CellsFit (inlineCellWidth : Nat) : List SysColumnRow → List (Option StoredCell) → Prop
  | col :: cols, cell :: cells =>
    (∀ c, cell = some c → CellFits inlineCellWidth col c) ∧
      (cell = none → col.notnull = false) ∧ CellsFit inlineCellWidth cols cells
  | [], [] => True
  | _, _ => False

section Cells

variable {lits : TypeLiterals} {col : SysColumnRow} {kind : ColumnKind} {v : AstValue}
  {heap heap' : VarHeap} {cell : StoredCell} {inlineCellWidth width : Nat}

theorem encodeOneValue_width (hwidth : columnWidth col inlineCellWidth = .ok width) :
    encodeOneValue lits width col v heap = encodeOneValue lits inlineCellWidth col v heap := by
  rw [encodeOneValue, encodeOneValue]
  cases hkind : col.kind with
  | none => rfl
  | some kind =>
    by_cases hvarchar : kind = .varchar
    · rw [columnWidth, hkind, hvarchar] at hwidth
      cases hwidth
      rfl
    · have hsame : encodeByKind lits width col v heap kind =
          encodeByKind lits inlineCellWidth col v heap kind := by
        cases kind with
        | varchar => exact absurd rfl hvarchar
        | _ => rfl
      dsimp only
      rw [hsame]

theorem cellFits_of_encode (hheap : heap'.length ≤ 2 ^ 64)
    (h : encodeOneValue lits inlineCellWidth col v heap = .ok (cell, heap')) :
    CellFits inlineCellWidth col cell := by
  obtain ⟨-, -, kind, hkind, hcell⟩ := encodeOneValue_eq_ok h
  rw [CellFits.eq_def, hkind]
  by_cases hvarchar : kind = .varchar
  · subst hvarchar
    rw [if_pos rfl]
    cases hcell with
    | inlined _ hinline => exact hinline
    | spilled _ _ hlong =>
      rw [length_append, length_singleton] at hheap
      rw [maxVarHeapValueSize] at hlong
      exact ⟨by omega, by omega⟩
  · rw [if_neg (fun heq => hvarchar (Option.some.inj heq))]
    exact hcell.fixed_length hvarchar hkind

theorem length_cellBytes (hmin : kMinInlineCellWidth ≤ inlineCellWidth)
    (hwidth : columnWidth col inlineCellWidth = .ok width) {stored : Option StoredCell}
    (hfits : ∀ c, stored = some c → CellFits inlineCellWidth col c) :
    (cellBytes width stored).length = width := by
  rw [kMinInlineCellWidth] at hmin
  cases stored with
  | none => exact length_replicate
  | some cell =>
    have hfit := hfits cell rfl
    rw [CellFits.eq_def] at hfit
    by_cases hvarchar : col.kind = some .varchar
    · rw [if_pos hvarchar] at hfit
      rw [columnWidth, hvarchar] at hwidth
      cases hwidth
      cases cell with
      | fixed bytes => exact absurd hfit id
      | inlined text =>
        dsimp only [inlineCapacity] at hfit
        simp only [cellBytes, length_cons, length_append, length_storeLE,
          length_replicate]
        omega
      | spilled len ptr =>
        simp only [cellBytes, length_cons, length_append, length_storeLE,
          length_replicate]
        omega
    · rw [if_neg hvarchar] at hfit
      obtain ⟨bytes, rfl, hlen⟩ := hfit
      exact Except.ok.inj (hlen.symm.trans hwidth)

theorem readCell_cellBytes (hmin : kMinInlineCellWidth ≤ inlineCellWidth)
    (hmax : inlineCellWidth ≤ kMaxInlineCellWidth)
    (hwidth : columnWidth col inlineCellWidth = .ok width)
    (hfit : CellFits inlineCellWidth col cell) :
    readCell col (cellBytes width (some cell)) = .ok cell := by
  have hlength := length_cellBytes hmin hwidth (fun c hc => Option.some.inj hc ▸ hfit)
  rw [CellFits.eq_def] at hfit
  rw [readCell]
  by_cases hvarchar : col.kind = some .varchar
  · rw [if_pos hvarchar] at hfit ⊢
    rw [columnWidth, hvarchar] at hwidth
    cases hwidth
    rw [decodeCell, if_neg (by rw [hlength]; omega)]
    rw [kMaxInlineCellWidth] at hmax
    cases cell with
    | fixed bytes => exact absurd hfit id
    | inlined text =>
      dsimp only [inlineCapacity] at hfit
      have htag : load 1 (cellBytes inlineCellWidth (some (.inlined text))) 0 = 1 := rfl
      have hlen : load 2 (cellBytes inlineCellWidth (some (.inlined text))) 1 = text.length := by
        rw [load, cellBytes, drop_succ_cons, drop_zero,
          take_left' (length_storeLE 2 _), leNat_storeLE]
        omega
      rw [htag, if_neg (by decide), if_neg (by decide), if_pos rfl, hlen, hlength,
        if_neg (by rw [inlineCapacity]; omega), cellBytes, drop_succ_cons,
        drop_left' (length_storeLE 2 _), take_left' rfl]
    | spilled len ptr =>
      have htag : load 1 (cellBytes inlineCellWidth (some (.spilled len ptr))) 0 = 2 := rfl
      have hlen : load 4 (cellBytes inlineCellWidth (some (.spilled len ptr))) 1 = len := by
        rw [load, cellBytes, drop_succ_cons, drop_zero,
          take_left' (length_storeLE 4 _), leNat_storeLE]
        omega
      have hptr : load 8 (cellBytes inlineCellWidth (some (.spilled len ptr))) 5 = ptr := by
        rw [load, cellBytes, drop_succ_cons, drop_left' (length_storeLE 4 _),
          take_left' (length_storeLE 8 _), leNat_storeLE]
        omega
      rw [htag, if_neg (by decide), if_neg (by decide), if_neg (by decide), hlen, hptr]
  · rw [if_neg hvarchar] at hfit ⊢
    obtain ⟨bytes, rfl, -⟩ := hfit
    rfl

end Cells

section Rows

variable {lits : TypeLiterals} {layout : RowLayout} {pk : SysColumnRow}
  {body cols : List SysColumnRow} {values : List AstValue} {heap heap' : VarHeap}
  {cells : List (Option StoredCell)} {pre bitmap out payload : Bytes}
    {i bit id inlineCellWidth : Nat}

theorem length_cellsBytes (hmin : kMinInlineCellWidth ≤ layout.inlineCellWidth) {off : Nat}
    (hlaid : Laid layout i cols off bit) (hfits : CellsFit layout.inlineCellWidth cols cells) :
    (cellsBytes layout.inlineCellWidth cols cells).length =
      bodyWidth layout.inlineCellWidth cols := by
  induction cols generalizing cells i off bit with
  | nil => rfl
  | cons col cols ih =>
    cases cells with
    | nil => exact absurd hfits id
    | cons cell cells =>
      obtain ⟨hcell, -, hrest⟩ := hfits
      obtain ⟨width, hwidth, -, -, -, -, -, hlaid⟩ := hlaid
      rw [cellsBytes, bodyWidth_cons hwidth, length_append, ih hlaid hrest, hwidth]
      exact congrArg (· + _) (length_cellBytes hmin hwidth hcell)

@[simp] theorem length_markNulls (cols : List SysColumnRow) (cells : List (Option StoredCell))
    (bit : Nat) (bitmap : Bytes) : (markNulls cols cells bit bitmap).length = bitmap.length := by
  induction cols generalizing cells bit bitmap with
  | nil => rfl
  | cons col cols ih =>
    cases cells with
    | nil => rfl
    | cons cell cells =>
      rw [markNulls, ih]
      split_ifs
      · exact length_setBitAt _ _ _
      · rfl

theorem encodeColumns_heap (hfits : ∀ v ∈ values, AstValue.Fits v)
    (h : encodeColumns lits layout i cols values out heap = .ok (payload, heap')) :
    heap.length ≤ heap'.length := by
  induction cols generalizing i values out heap with
  | nil =>
    obtain ⟨-, rfl⟩ := Prod.mk.inj (Except.ok.inj h)
    exact Nat.le_refl _
  | cons col cols ih =>
    cases values with
    | nil =>
      obtain ⟨-, rfl⟩ := Prod.mk.inj (Except.ok.inj h)
      exact Nat.le_refl _
    | cons v vs =>
      have hfits' : ∀ v ∈ vs, AstValue.Fits v := fun v hv => hfits v (mem_cons_of_mem _ hv)
      rw [encodeColumns] at h
      dsimp only at h
      by_cases hnull : v.type = .null
      · rw [if_pos hnull] at h
        by_cases hnone : layout.nullBit i = kNoNullBit
        · rw [if_pos hnone] at h
          cases h
        · rw [if_neg hnone] at h
          exact ih hfits' h
      · rw [if_neg hnull] at h
        obtain ⟨⟨cell, heap₁⟩, hone, h⟩ := bind_eq_ok.mp h
        obtain ⟨-, -, -, -, added, -, rfl, -⟩ := readsBack_of_encode (hfits v mem_cons_self) hone
        have hlater := ih hfits' h
        rw [length_append] at hlater
        omega

/-- **The encoder leaves the row laid out**, over a buffer that is zeroed from column `i` on. -/
theorem encodeColumns_eq (hmin : kMinInlineCellWidth ≤ layout.inlineCellWidth)
    (hlaid : Laid layout i cols pre.length bit) (hlen : values.length = cols.length)
    (hbitmap : bitmap.length = layout.nullBitmapBytes)
    (hfits : ∀ v ∈ values, AstValue.Fits v) (hheap : heap'.length ≤ 2 ^ 64)
    (h : encodeColumns lits layout i cols values
      (pre ++ (List.replicate (bodyWidth layout.inlineCellWidth cols) 0 ++ bitmap)) heap =
        .ok (out, heap')) :
    ∃ cells, encodeCells lits layout.inlineCellWidth cols values heap = .ok (cells, heap') ∧
      CellsFit layout.inlineCellWidth cols cells ∧
      out = pre ++ (cellsBytes layout.inlineCellWidth cols cells ++
        markNulls cols cells bit bitmap) := by
  induction cols generalizing i pre bit values bitmap heap with
  | nil =>
    cases h
    obtain rfl := eq_nil_of_length_eq_zero hlen
    exact ⟨[], rfl, trivial, rfl⟩
  | cons col cols ih =>
    obtain ⟨v, vs, rfl⟩ := exists_cons_of_length_eq_add_one hlen
    have hlen' : vs.length = cols.length := Nat.succ.inj hlen
    have hfits' : ∀ v ∈ vs, AstValue.Fits v := fun v hv => hfits v (mem_cons_of_mem _ hv)
    have hlast := hlaid.last.1
    obtain ⟨width, hwidth, -, hbegin, hend, hbit, hsmall, hrest⟩ := hlaid
    have hzeros : List.replicate (bodyWidth layout.inlineCellWidth (col :: cols)) (0 : UInt8) =
        List.replicate width 0 ++
          List.replicate (bodyWidth layout.inlineCellWidth cols) 0 := by
      rw [bodyWidth_cons hwidth, replicate_add]
    have hcell : layout.cellEnd i - layout.cellBegin i = width := by
      rw [hend, hbegin, Nat.add_sub_cancel_left]
    -- a cell of its width over the zeros moves the prefix on
    have hpatch : ∀ bytes marks : Bytes, bytes.length = width →
        patch (pre ++ (List.replicate (bodyWidth layout.inlineCellWidth (col :: cols)) 0 ++
          marks)) (layout.cellBegin i) bytes =
        (pre ++ bytes) ++ (List.replicate (bodyWidth layout.inlineCellWidth cols) 0 ++ marks) := by
      intro bytes marks hbytes
      rw [hzeros, append_assoc, hbegin,
        patch_append (by rw [length_replicate, hbytes]), append_assoc]
    rw [encodeColumns, hcell] at h
    dsimp only at h
    by_cases hnull : v.type = .null
    · rw [if_pos hnull] at h
      have hnotnull : col.notnull = false := by
        by_contra hne
        rw [Bool.not_eq_false] at hne
        rw [hbit, hne, if_pos rfl, if_pos rfl] at h
        cases h
      rw [hnotnull, if_neg Bool.false_ne_true] at hbit
      rw [hnotnull, if_neg Bool.false_ne_true] at hrest
      have hmark : layout.setNullBit
          (pre ++ (List.replicate (bodyWidth layout.inlineCellWidth (col :: cols)) 0 ++ bitmap)) i =
          pre ++ (List.replicate (bodyWidth layout.inlineCellWidth (col :: cols)) 0 ++
            setBitAt bitmap (bit / 8) (bit % 8)) := by
        rw [RowLayout.setNullBit, hbit, RowLayout.nullByteOf, hlast, ← append_assoc,
          ← append_assoc, ← setBitAt_append, length_append, length_replicate]
      rw [if_neg (by rw [hbit]; omega), hmark] at h
      -- a tagged cell takes its filler, which is what a fixed one keeps
      have hnext : encodeColumns lits layout (i + 1) cols vs
          ((pre ++ List.replicate width 0) ++
            (List.replicate (bodyWidth layout.inlineCellWidth cols) 0 ++
              setBitAt bitmap (bit / 8) (bit % 8))) heap = .ok (out, heap') := by
        by_cases hvarchar : col.kind = some .varchar
        · rw [if_pos hvarchar, cellBytes, hpatch _ _ length_replicate] at h
          exact h
        · rw [if_neg hvarchar, hzeros, append_assoc, ← append_assoc pre] at h
          exact h
      have hwide : pre.length + width = (pre ++ List.replicate width (0 : UInt8)).length := by
        rw [length_append, length_replicate]
      rw [hwide] at hrest
      obtain ⟨cells, hcells, hfit, rfl⟩ := ih hrest hlen' (by rw [length_setBitAt, hbitmap])
        hfits' hnext
      refine ⟨none :: cells, ?_, ⟨fun c hc => ?_, fun _ => hnotnull, hfit⟩, ?_⟩
      · rw [encodeCells, if_pos hnull, hnotnull, if_neg Bool.false_ne_true, hcells]
        rfl
      · cases hc
      · rw [cellsBytes, markNulls, hnotnull, if_neg Bool.false_ne_true, if_pos rfl, hwidth,
          append_assoc, append_assoc]
        rfl
    · rw [if_neg hnull] at h
      obtain ⟨⟨cell, heap₁⟩, hone, h⟩ := bind_eq_ok.mp h
      rw [encodeOneValue_width hwidth] at hone
      dsimp only at h
      have hone' : heap₁.length ≤ 2 ^ 64 := (encodeColumns_heap hfits' h).trans hheap
      have hcellFits := cellFits_of_encode hone' hone
      have hbytes : (cellBytes width (some cell)).length = width :=
        length_cellBytes hmin hwidth fun c hc => Option.some.inj hc ▸ hcellFits
      have hwide : pre.length + width = (pre ++ cellBytes width (some cell)).length := by
        rw [length_append, hbytes]
      rw [hpatch _ _ hbytes] at h
      -- a value leaves its column's bit clear
      obtain ⟨bit', hbit'⟩ : ∃ bit', bit' = if col.notnull then bit else bit + 1 := ⟨_, rfl⟩
      rw [← hbit', hwide] at hrest
      obtain ⟨cells, hcells, hfit, rfl⟩ := ih hrest hlen' hbitmap hfits' h
      refine ⟨some cell :: cells, ?_, ⟨fun c hc => ?_, fun hc => ?_, hfit⟩, ?_⟩
      · rw [encodeCells, if_neg hnull, hone]
        show encodeCells _ _ _ _ _ >>= _ = _
        rw [hcells]
        rfl
      · cases hc
        exact hcellFits
      · cases hc
      · rw [cellsBytes, markNulls, ← hbit', if_neg (by simp), hwidth, append_assoc,
          append_assoc]
        rfl

theorem bitAt_markNulls {w b : Nat} (hfits : CellsFit w cols cells) (hb : b < bit)
    (hroom : (bit + nullables cols + 7) / 8 ≤ bitmap.length) :
    bitAt (markNulls cols cells bit bitmap) (b / 8) (b % 8) = bitAt bitmap (b / 8) (b % 8) := by
  induction cols generalizing cells bit bitmap with
  | nil => rfl
  | cons col cols ih =>
    cases cells with
    | nil => rfl
    | cons cell cells =>
      obtain ⟨-, hnullable, hrest⟩ := hfits
      rw [nullables] at hroom
      rw [markNulls]
      by_cases hnull : cell = none
      · rw [hnullable hnull, if_neg Bool.false_ne_true] at hroom
        rw [hnullable hnull, if_neg Bool.false_ne_true, if_pos hnull,
          ih hrest (by omega) (by rw [length_setBitAt]; omega),
          bitAt_setBitAt (by omega) (Nat.mod_lt _ (by decide)),
          decide_eq_false (by omega), Bool.false_or]
      · rw [if_neg hnull]
        refine ih hrest ?_ ?_
        · split_ifs <;> omega
        · split_ifs at hroom ⊢ <;> omega

variable {row : Row}

theorem decodeColumns_eq (hmin : kMinInlineCellWidth ≤ layout.inlineCellWidth)
    (hmax : layout.inlineCellWidth ≤ kMaxInlineCellWidth)
    (hlaid : Laid layout i cols pre.length bit) (hfits : CellsFit layout.inlineCellWidth cols cells)
    (hbitmap : bitmap.length = layout.nullBitmapBytes)
    (hclear : ∀ b, bit ≤ b → bitAt bitmap (b / 8) (b % 8) = false)
    (hpayload : payload = pre ++ (cellsBytes layout.inlineCellWidth cols cells ++
      markNulls cols cells bit bitmap))
    (hdecode : decodeCells heap cols cells = .ok row) :
    ∃ slots, decodeColumns layout payload i cols = .ok slots ∧
      resolveSpills heap slots = .ok row := by
  induction cols generalizing i pre bit bitmap cells row with
  | nil =>
    cases hdecode
    exact ⟨[], rfl, rfl⟩
  | cons col cols ih =>
    cases cells with
    | nil => exact absurd hfits id
    | cons cell cells =>
      obtain ⟨value, hvalue, hdecode⟩ := bind_eq_ok.mp hdecode
      obtain ⟨rest, hrow, hdecode⟩ := bind_eq_ok.mp hdecode
      cases hdecode
      have hcells := length_cellsBytes hmin hlaid hfits
      obtain ⟨hlast, hbytes⟩ := hlaid.last
      obtain ⟨hcell, hnullable, hrestFits⟩ := id hfits
      obtain ⟨width, hwidth, -, hbegin, hend, hbit, hsmall, hrest⟩ := hlaid
      have hlength := length_cellBytes hmin hwidth hcell
      have hroom : (bit + nullables (col :: cols) + 7) / 8 ≤ bitmap.length := by
        rw [hbitmap, hbytes]
      -- behind this column's cell the row goes on as before
      obtain ⟨bit', hbit'⟩ : ∃ bit', bit' = if col.notnull then bit else bit + 1 := ⟨_, rfl⟩
      obtain ⟨marks, hmarks⟩ : ∃ marks, marks =
        if cell = none then setBitAt bitmap (bit / 8) (bit % 8) else bitmap := ⟨_, rfl⟩
      have hwide : pre.length + width = (pre ++ cellBytes width cell).length := by
        rw [length_append, hlength]
      rw [← hbit', hwide] at hrest
      have hmarksLength : marks.length = layout.nullBitmapBytes := by
        rw [hmarks]
        split_ifs
        · rw [length_setBitAt, hbitmap]
        · exact hbitmap
      have hmarksClear : ∀ b, bit' ≤ b → bitAt marks (b / 8) (b % 8) = false := by
        intro b hb
        rw [hmarks]
        by_cases hnull : cell = none
        · rw [hbit', hnullable hnull, if_neg Bool.false_ne_true] at hb
          rw [nullables, hnullable hnull, if_neg Bool.false_ne_true] at hroom
          rw [if_pos hnull, bitAt_setBitAt (by omega) (Nat.mod_lt _ (by decide)),
            hclear b (by omega), Bool.or_false]
          exact decide_eq_false (by omega)
        · rw [if_neg hnull]
          refine hclear b (le_trans ?_ hb)
          rw [hbit']
          split_ifs <;> omega
      have htail : payload = (pre ++ cellBytes width cell) ++
          (cellsBytes layout.inlineCellWidth cols cells ++ markNulls cols cells bit' marks) := by
        rw [hpayload, cellsBytes, markNulls, ← hbit', ← hmarks, hwidth, append_assoc,
          append_assoc]
        rfl
      obtain ⟨slots, hslots, hresolved⟩ :=
        ih hrest hrestFits hmarksLength hmarksClear htail hrow
      have hset : (layout.nullBitmapBytes ≠ 0 ∧ layout.nullBitIsSet payload i = true) ↔
          cell = none := by
        rw [RowLayout.nullBitIsSet, hbit]
        by_cases hnotnull : col.notnull = true
        · refine iff_of_false (fun h => ?_) fun h => ?_
          · rw [if_pos hnotnull, if_pos rfl] at h
            exact Bool.false_ne_true h.2
          · rw [hnullable h] at hnotnull
            exact Bool.false_ne_true hnotnull
        · rw [if_neg hnotnull] at hbit' ⊢
          rw [nullables, if_neg hnotnull] at hroom hbytes
          -- the column's bit is marked with its own cell, and by none behind it
          have hread : bitAt payload (layout.nullByteOf bit) (bit % 8) =
              bitAt marks (bit / 8) (bit % 8) := by
            rw [hpayload, ← append_assoc, RowLayout.nullByteOf, hlast, ← hcells,
              ← length_append, bitAt_append, markNulls, if_neg hnotnull, ← hmarks]
            refine bitAt_markNulls hrestFits (Nat.lt_succ_self bit) ?_
            rw [hmarksLength, hbytes]
            omega
          rw [if_neg (by omega), hread, hmarks]
          by_cases hnull : cell = none
          · rw [if_pos hnull, bitAt_setBitAt (by omega) (Nat.mod_lt _ (by decide))]
            simp [hnull]
            omega
          · rw [if_neg hnull, hclear bit (Nat.le_refl bit)]
            simp [hnull]
      rw [decodeColumns]
      by_cases hnull : cell = none
      · subst hnull
        cases hvalue
        refine ⟨.value nullCell :: slots, ?_, ?_⟩
        · rw [if_pos (hset.mpr rfl), hslots]
          rfl
        · rw [resolveSpills, hresolved]
          rfl
      · obtain ⟨stored, rfl⟩ := Option.ne_none_iff_exists'.mp hnull
        have hslice : slice payload (layout.cellBegin i) (layout.cellEnd i) =
            cellBytes width (some stored) := by
          have hend' : layout.cellEnd i = pre.length + (cellBytes width (some stored)).length := by
            rw [hend, hlength]
          rw [htail, hbegin, hend', append_assoc, slice_append]
        rw [if_neg (fun h => hnull (hset.mp h)), hslice,
          readCell_cellBytes hmin hmax hwidth (hcell stored rfl)]
        rw [decodeStored] at hvalue
        obtain ⟨decoded, hdecoded, hvalue⟩ := bind_eq_ok.mp hvalue
        refine ⟨decoded :: slots, ?_, ?_⟩
        · show decodeOneValueInto col stored >>= _ = _
          rw [hdecoded]
          show decodeColumns _ _ _ _ >>= _ = _
          rw [hslots]
          rfl
        · cases decoded with
          | value v =>
            cases hvalue
            rw [resolveSpills, hresolved]
            rfl
          | pendingSpill len ptr =>
            dsimp only at hvalue
            rw [resolveSpills, hvalue]
            show resolveSpills heap slots >>= _ = _
            rw [hresolved]
            rfl

theorem checkLayoutMatches_of_build (h : RowLayout.build pk body inlineCellWidth = .ok layout)
    (hfit : ColumnsFit inlineCellWidth body) :
    checkLayoutMatches (body.length + 1) layout = .ok () := by
  obtain ⟨-, hrow⟩ := laid_of_build h hfit
  obtain ⟨-, -, -, -, offsets, bits, last, lastBit, hlay, hoffsets, hbits, -⟩ := build_eq_ok h
  obtain ⟨-, hlenOffsets, hlenBits⟩ := length_of_layColumns hlay
  rw [kKeystoneWordSize] at hrow
  rw [checkLayoutMatches, hoffsets, hbits, length_cons, length_cons, hlenOffsets, hlenBits,
    if_neg (by omega)]

theorem encodeRowBytes_eq (hbuild : RowLayout.build pk body inlineCellWidth = .ok layout)
    (hfit : ColumnsFit inlineCellWidth body) (hfits : ∀ v ∈ values, AstValue.Fits v)
    (hheap : heap'.length ≤ 2 ^ 64)
    (h : encodeRowBytes lits layout pk body id values heap = .ok (payload, heap')) :
    ∃ cells, id < 2 ^ 40 ∧ values.length = body.length ∧
      encodeCells lits inlineCellWidth body values heap = .ok (cells, heap') ∧
      CellsFit inlineCellWidth body cells ∧ payload = layOut layout body ⟨id, cells⟩ := by
  obtain ⟨hlaid, hrow⟩ := laid_of_build hbuild hfit
  obtain ⟨-, ⟨hmin, -⟩, hinline, -⟩ := build_eq_ok hbuild
  subst hinline
  rw [encodeRowBytes] at h
  obtain ⟨_, -, h⟩ := bind_eq_ok.mp h
  obtain ⟨_, -, h⟩ := bind_eq_ok.mp h
  split_ifs at h with hlen hid
  obtain ⟨⟨out, heap₁⟩, hcols, h⟩ := bind_eq_ok.mp h
  dsimp only at h
  split_ifs at h
  cases h
  have hstart : patch (List.replicate layout.rowSize (0 : UInt8)) 0 (storeLE 8 id) =
      storeLE 8 id ++ (List.replicate (bodyWidth layout.inlineCellWidth body) 0 ++
        List.replicate layout.nullBitmapBytes 0) := by
    rw [hrow, Nat.add_assoc, replicate_add, replicate_add]
    exact @patch_append [] (List.replicate kKeystoneWordSize 0) _ (storeLE 8 id)
      (by rw [length_replicate, length_storeLE]; rfl)
  rw [hstart] at hcols
  have hword : Laid layout 1 body (storeLE 8 id).length 0 := by
    rw [length_storeLE]
    exact hlaid
  obtain ⟨cells, hcells, hcellsFit, rfl⟩ := encodeColumns_eq hmin hword (not_not.mp hlen)
    length_replicate hfits hheap hcols
  exact ⟨cells, by omega, not_not.mp hlen, hcells, hcellsFit, rfl⟩

theorem decodeRowBytes_layOut (hbuild : RowLayout.build pk body inlineCellWidth = .ok layout)
    (hfit : ColumnsFit inlineCellWidth body) (hid : id < 2 ^ 40)
    (hcells : CellsFit inlineCellWidth body cells) (hdecode : decodeCells heap body cells =
      .ok row) :
    decodeRowBytes heap layout pk body (layOut layout body ⟨id, cells⟩) =
      .ok (keystoneCell id :: row) := by
  have hmatches := checkLayoutMatches_of_build hbuild hfit
  obtain ⟨hlaid, hrow⟩ := laid_of_build hbuild hfit
  obtain ⟨hkey, ⟨hmin, hmax⟩, hinline, -⟩ := build_eq_ok hbuild
  subst hinline
  have hword : Laid layout 1 body (storeLE 8 id).length 0 := by
    rw [length_storeLE]
    exact hlaid
  have hlength : (layOut layout body ⟨id, cells⟩).length = layout.rowSize := by
    rw [layOut, length_append, length_append, length_storeLE, length_markNulls,
      length_replicate, length_cellsBytes hmin hlaid hcells, hrow, kKeystoneWordSize,
      Nat.add_assoc]
  have hload : load 8 (layOut layout body ⟨id, cells⟩) 0 = id := by
    rw [load, drop_zero, layOut, take_left' (length_storeLE 8 _), leNat_storeLE]
    exact Nat.mod_eq_of_lt (by show id < 256 ^ 8; omega)
  obtain ⟨slots, hslots, hresolved⟩ := decodeColumns_eq hmin hmax hword hcells
    length_replicate (fun b _ => bitAt_zeros _ _ _) rfl hdecode
  have hinto : decodeRowInto layout pk body (layOut layout body ⟨id, cells⟩) =
      .ok (.value (keystoneCell id) :: slots) := by
    rw [decodeRowInto, hkey, hmatches]
    show (if _ then _ else _) = _
    rw [if_neg (not_not_intro hlength), hload]
    show decodeColumns _ _ _ _ >>= _ = _
    rw [show decodeColumns layout (layOut layout body ⟨id, cells⟩) 1 body = .ok slots from hslots]
    rfl
  rw [decodeRowBytes, hinto]
  show resolveSpills heap (_ :: slots) = _
  rw [resolveSpills, hresolved]
  rfl

end Rows

-- Round trips

section RoundTrip

variable {lits : TypeLiterals} {layout : RowLayout} {pk : SysColumnRow}
  {body : List SysColumnRow} {values : List AstValue} {heap heap' : VarHeap} {payload : Bytes}
  {id inlineCellWidth : Nat}

/-- What is read of a column: NULL where NULL was written, and otherwise a value that compares
    equal to the one written as the column coerces it, a text its very bytes. -/
def ColumnKept (lits : TypeLiterals) (col : SysColumnRow) (v : AstValue) (w : Cell) : Prop :=
  if v.type = .null then w = nullCell
  else w.val.type ≠ .null ∧ ∃ c, coerceLiteralToColumn lits col v = .ok c ∧
    compareValues col.typeVal w.val c .eq = true ∧ (c.type = .str → w.val.strVal = c.strVal)

/-- The cells stand apart, and the row comes back from its bytes, whatever the var-heap takes
    later. -/
structure RoundTrips (lits : TypeLiterals) (layout : RowLayout) (pk : SysColumnRow)
    (body : List SysColumnRow) (id : Nat) (values : List AstValue) (payload : Bytes)
    (heap' : VarHeap) : Prop where
  apart : CellsApart layout body
  kept : ∃ row : Row, (∀ later,
      decodeRowBytes (heap' ++ later) layout pk body payload = .ok (keystoneCell id :: row)) ∧
    row.length = body.length ∧
    ∀ (i : Nat) (col : SysColumnRow) (v : AstValue) (w : Cell), body[i]? = some col →
      values[i]? = some v → row[i]? = some w → ColumnKept lits col v w

/-- The columns fit a page together, and no value is a misspelt day or, for a `char`, a text with a
    zero byte. -/
def RowKept (inlineCellWidth : Nat) (body : List SysColumnRow) (values : List AstValue) : Prop :=
  ColumnsFit inlineCellWidth body ∧
    ∀ (i : Nat) (col : SysColumnRow) (v : AstValue), body[i]? = some col → values[i]? = some v →
      ¬ DayMisspelt col v ∧ ¬ HoldsNul col v

variable {col : SysColumnRow} {v : AstValue} {w : Cell}

theorem columnKept_iff {cell : StoredCell} (hfits : AstValue.Fits v)
    (h : encodeOneValue lits inlineCellWidth col v heap = .ok (cell, heap'))
    (hdecode : decodeStored heap' col (some cell) = .ok w) :
    ColumnKept lits col v w ↔ ¬ DayMisspelt col v ∧ ¬ HoldsNul col v := by
  have hfound := found_iff hfits h hdecode
  obtain ⟨hnull, hparam, kind, hkind, added, d, -, hread, hsame⟩ := readsBack_of_encode hfits h
  have hnow := hread []
  rw [append_nil, hdecode] at hnow
  cases hnow
  rw [← hfound, ColumnKept, if_neg hnull, whereEquals]
  constructor
  · rintro ⟨-, c, hc, hequal, -⟩
    rw [hc]
    exact congrArg Except.ok hequal
  · intro heq
    obtain ⟨c, hc, hequal⟩ := map_eq_ok.mp heq
    rw [coerceLiteralToColumn_eq hnull hparam hkind] at hc
    have hboth : c.type = kindType kind ∧ w.val.type = kindType kind := by
      have hs := hsame c hc
      cases kind <;> exact ⟨hs.1, hs.2.1⟩
    refine ⟨?_, c, (coerceLiteralToColumn_eq hnull hparam hkind).trans hc, hequal, fun htext => ?_⟩
    · rw [hboth.2]
      cases kind <;> simp [kindType]
    · have hchar : kind ≠ .uint64 := by
        rintro rfl
        rw [htext] at hboth
        cases hboth.1
      exact (compareValues_str ((kindOf_uint64 hkind).not.mpr hchar)
        (hboth.2.trans (hboth.1.symm.trans htext)) hequal).2

theorem ColumnHolds.kept_iff (h : ColumnHolds lits inlineCellWidth col v w) :
    ColumnKept lits col v w ↔ ¬ DayMisspelt col v ∧ ¬ HoldsNul col v := by
  rw [ColumnHolds] at h
  by_cases hnull : v.type = .null
  · rw [if_pos hnull] at h
    rw [ColumnKept, if_pos hnull]
    refine iff_of_true h ⟨fun hday => ?_, fun hnul => ?_⟩
    · rw [DayMisspelt, hnull] at hday
      cases hday.1
    · rw [HoldsNul, hnull] at hnul
      cases hnul.2.1
  · rw [if_neg hnull] at h
    obtain ⟨hfits, heap, stored, heap', hencode, hdecode⟩ := h
    exact columnKept_iff hfits hencode hdecode

/-- **A row comes back from its bytes**, and no cell meets another, exactly where its columns fit a
    page together and its values are kept. -/
theorem rowRoundTrips_iff (lits : TypeLiterals) (pk : SysColumnRow) (body : List SysColumnRow)
    (inlineCellWidth : Nat) (layout : RowLayout)
    (hbuild : RowLayout.build pk body inlineCellWidth = .ok layout) (id : Nat)
    (values : List AstValue) (hfits : ∀ v ∈ values, AstValue.Fits v) (heap heap' : VarHeap)
    (hheap : heap'.length ≤ 2 ^ 64) (payload : Bytes)
    (haccepted : encodeRowBytes lits layout pk body id values heap = .ok (payload, heap')) :
    RoundTrips lits layout pk body id values payload heap' ↔
      RowKept inlineCellWidth body values := by
  have hpage := cellsApart_iff hbuild
  by_cases hfit : ColumnsFit inlineCellWidth body
  · obtain ⟨cells, hid, hlen, hcells, hcellsFit, rfl⟩ :=
      encodeRowBytes_eq hbuild hfit hfits hheap haccepted
    obtain ⟨row, hdecode, hrow, hcolumns⟩ := exists_decodedCells hlen hfits hcells
    have hreads : ∀ later, decodeRowBytes (heap' ++ later) layout pk body
        (layOut layout body ⟨id, cells⟩) = .ok (keystoneCell id :: row) := fun later =>
      decodeRowBytes_layOut hbuild hfit hid hcellsFit (hdecode later)
    constructor
    · rintro ⟨-, row', hreads', -, hkept⟩
      obtain rfl : row' = row :=
        (List.cons.inj (Except.ok.inj ((hreads' []).symm.trans (hreads [])))).2
      refine ⟨hfit, fun i col v hcol hv => ?_⟩
      have hlt := (List.getElem?_eq_some_iff.mp hcol).1
      have hw : row'[i]? = some row'[i] := List.getElem?_eq_getElem (hrow ▸ hlt)
      exact (hcolumns i col v _ hcol hv hw).kept_iff.mp (hkept i col v _ hcol hv hw)
    · rintro ⟨-, hvalues⟩
      refine ⟨hpage.mpr hfit, row, hreads, hrow, fun i col v w hcol hv hw => ?_⟩
      exact (hcolumns i col v w hcol hv hw).kept_iff.mpr (hvalues i col v hcol hv)
  · refine iff_of_false (fun h => hfit (hpage.mp h.apart)) fun h => hfit h.1

end RoundTrip

def keyColumn : SysColumnRow := { name := "id", typeVal := typeValInt64 }

/-- A key and a `char(4)`. -/
def charLayout : RowLayout where
  rowSize := 12
  offsets := [0, 8]
  nullBits := [kNoNullBit, kNoNullBit]
  nullBitmapBytes := 0
  inlineCellWidth := 64

/-- A `char` whose width wraps the layout's offset. -/
def wideChar : SysColumnRow := { name := "w", typeVal := 10, len := 4294967295 }

/-- A date, a `decimal(5, 2)`, a nullable integer and a text. -/
def mixedColumns : List SysColumnRow :=
  [dateColumn, { name := "m", typeVal := 7, len := 5 * 256 + 2 },
    { name := "n", typeVal := typeValInt64, notnull := false }, { name := "t", typeVal := 9 }]

/-- `'2024-02-29'`, `'-1.5'`, NULL and a text that does not fit its cell. -/
def mixedValues : List AstValue :=
  [{ type := .str, strVal := [50, 48, 50, 52, 45, 48, 50, 45, 50, 57] },
    { type := .str, strVal := [45, 49, 46, 53] }, { type := .null },
    { type := .str, strVal := replicate 70 97 }]

theorem mixedRow_roundTrips :
    ∃ layout payload, RowLayout.build keyColumn mixedColumns 64 = .ok layout ∧
      encodeRowBytes engineLiterals layout keyColumn mixedColumns 7 mixedValues [] =
        .ok (payload, [replicate 70 97]) ∧
      RoundTrips engineLiterals layout keyColumn mixedColumns 7 mixedValues payload
        [replicate 70 97] := by
  have hencoded : ((RowLayout.build keyColumn mixedColumns 64).bind fun layout =>
      encodeRowBytes engineLiterals layout keyColumn mixedColumns 7 mixedValues []).toOption.any
        (fun out => decide (out.2 = [replicate 70 97])) = true := by
    decide +kernel
  cases hbuild : RowLayout.build keyColumn mixedColumns 64 with
  | error e => rw [hbuild] at hencoded; cases hencoded
  | ok layout =>
    rw [hbuild] at hencoded
    cases hout : encodeRowBytes engineLiterals layout keyColumn mixedColumns 7 mixedValues [] with
    | error e => rw [Except.bind, hout] at hencoded; cases hencoded
    | ok out =>
      obtain ⟨payload, heap'⟩ := out
      obtain rfl : heap' = [replicate 70 97] := by
        rw [Except.bind, hout] at hencoded
        exact of_decide_eq_true hencoded
      have hzero : ∀ v ∈ mixedValues, v.intVal = 0 ∧ v.decHi = 0 := by decide
      have hfits : ∀ v ∈ mixedValues, AstValue.Fits v := by
        intro v hv
        obtain ⟨hint, hhigh⟩ := hzero v hv
        exact ⟨by rw [hint]; decide, by rw [hhigh]; decide⟩
      refine ⟨layout, payload, rfl, hout,
        (rowRoundTrips_iff engineLiterals keyColumn mixedColumns 64
        layout hbuild 7 mixedValues hfits [] _ (by decide) payload hout).mpr
        ⟨by unfold ColumnsFit; decide, fun i col v hcol hv => ⟨fun hday => ?_, fun hnul => ?_⟩⟩⟩
      · have hstrings : ∀ v ∈ mixedValues, v.type ≠ .int := by decide
        exact hstrings v (mem_of_getElem? hv) hday.1
      · have hkinds : ∀ col ∈ mixedColumns, col.kind ≠ some .char := by decide
        exact hkinds col (mem_of_getElem? hcol) hnul.1

/-- A text with a zero byte is accepted and comes back cut; and a layout that wraps is built, with a
    cell over the Keystone word. -/
theorem nulText_not_roundTrips :
    RowLayout.build keyColumn [charColumn] 64 = .ok charLayout ∧
    encodeRowBytes noTexts charLayout keyColumn [charColumn] 7 [nulText] [] =
      .ok ([7, 0, 0, 0, 0, 0, 0, 0, 97, 0, 0, 0], []) ∧
    ¬ RoundTrips noTexts charLayout keyColumn [charColumn] 7 [nulText]
      [7, 0, 0, 0, 0, 0, 0, 0, 97, 0, 0, 0] [] ∧
    ∃ layout, RowLayout.build keyColumn [wideChar] 64 = .ok layout ∧
      ¬ CellsApart layout [wideChar] := by
  refine ⟨rfl, by decide +kernel, ?_, ⟨7, [0, 8], [kNoNullBit, kNoNullBit], 0, 64⟩, rfl, ?_⟩
  · rintro ⟨-, row, hreads, -, hkept⟩
    have hread : decodeRowBytes [] charLayout keyColumn [charColumn]
        [7, 0, 0, 0, 0, 0, 0, 0, 97, 0, 0, 0] = .ok [keystoneCell 7, strCell [97]] := rfl
    obtain rfl : row = [strCell [97]] :=
      (List.cons.inj (Except.ok.inj ((hreads []).symm.trans hread))).2
    have hcolumn := hkept 0 charColumn nulText _ rfl rfl rfl
    rw [ColumnKept, if_neg (by decide)] at hcolumn
    obtain ⟨-, c, hc, hequal, -⟩ := hcolumn
    cases hc
    exact absurd hequal (by decide)
  · intro hapart
    have hfit := (@cellsApart_iff _ keyColumn _ 64 rfl).mp hapart
    rw [ColumnsFit] at hfit
    exact absurd hfit (by decide)

end Kds.Exec.Codec
