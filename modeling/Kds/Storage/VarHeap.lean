/-
  Kds.Storage.VarHeap

  A var-heap page (`src/storage/varheap.cpp`): the common header, four header fields, a slot
  directory that grows up from them, values that grow down from the page's last four bytes, and
  in those the chain's next page.  `Laid` says which values a page holds; appending adds one,
  and the write at a named slot of redo adds the value the page lacks and keeps one it has.
-/

import Kds.Base.Status
import Kds.Lib.Buffer
import Kds.Storage.PageHeader

namespace Kds.Storage.VarHeap

open Lib Kds.Storage.Pool List

-- The page

abbrev PageId := UInt32

def kInvalidPageId : PageId := 0xFFFFFFFF

/-- `PageType::kVarHeap`. -/
def kVarHeap : Nat := 10

def kMaxAssignedPageType : Nat := 14

def kPageRelayoutEpochOffset : Nat := 16
def kPageOwnerOidOffset : Nat := 24
def kVarHeapHeaderOffset : Nat := 32
def kHeaderSize : Nat := 8
def kSlotOnDiskSize : Nat := 4
def kNextPageIdOffset : Nat := 8188

/-- The largest value an empty page takes. -/
def kMaxValueSize : Nat := 8144

/-- `VarHeapPageHeaderFields`. -/
structure VarHeapPageHeaderFields where
  flags : Nat
  nrSlots : Nat
  lower : Nat
  upper : Nat
  deriving DecidableEq

/-- `VarHeapSlotFields`. -/
structure VarHeapSlotFields where
  offset : Nat
  length : Nat
  deriving DecidableEq

def slotOffset (idx : Nat) : Nat := kVarHeapHeaderOffset + kHeaderSize + idx * kSlotOnDiskSize

def readHeader (page : Bytes) : VarHeapPageHeaderFields where
  flags := load 2 page kVarHeapHeaderOffset
  nrSlots := load 2 page (kVarHeapHeaderOffset + 2)
  lower := load 2 page (kVarHeapHeaderOffset + 4)
  upper := load 2 page (kVarHeapHeaderOffset + 6)

/-- A field stored over the bytes at an offset. -/
def storeField (page : Bytes) (offset width value : Nat) : Bytes :=
  patch page offset (storeLE width value)

def writeHeader (page : Bytes) (h : VarHeapPageHeaderFields) : Bytes :=
  storeField (storeField (storeField (storeField page
    kVarHeapHeaderOffset 2 h.flags)
    (kVarHeapHeaderOffset + 2) 2 h.nrSlots)
    (kVarHeapHeaderOffset + 4) 2 h.lower)
    (kVarHeapHeaderOffset + 6) 2 h.upper

def readSlot (page : Bytes) (idx : Nat) : VarHeapSlotFields where
  offset := load 2 page (slotOffset idx)
  length := load 2 page (slotOffset idx + 2)

def writeSlot (page : Bytes) (idx : Nat) (s : VarHeapSlotFields) : Bytes :=
  storeField (storeField page (slotOffset idx) 2 s.offset) (slotOffset idx + 2) 2 s.length

/-- `storage::MaxSupportedFormatVersion`, of a raw page type. -/
def maxSupportedFormatVersion (type : Nat) : Nat :=
  if 1 ≤ type ∧ type ≤ kMaxAssignedPageType then 1 else 0

/-- `storage::FormatPage`: zeroes, and the common header over them. -/
def formatHeadered (type flags ownerOid : Nat) : Bytes :=
  storeField (storeField (storeField (storeField (storeField (storeField (storeField
    (List.replicate kPageSize 0)
    0 1 type)
    1 1 (maxSupportedFormatVersion type))
    kPageFlagsOffset 2 flags)
    kPageChecksumOffset 4 0)
    kPageLsnOffset 8 0)
    kPageRelayoutEpochOffset 8 0)
    kPageOwnerOidOffset 8 ownerOid

def formatPage (ownerOid : Nat) : Bytes :=
  storeField
    (writeHeader (formatHeadered kVarHeap 0 ownerOid)
      ⟨1, 0, kVarHeapHeaderOffset + kHeaderSize, kNextPageIdOffset⟩)
    kNextPageIdOffset 4 kInvalidPageId.toNat

def pageNextPageId (page : Bytes) : PageId := UInt32.ofNat (load 4 page kNextPageIdOffset)

/-- The link write of the chain's growth. -/
def linkPage (page : Bytes) (next : PageId) : Bytes :=
  storeField page kNextPageIdOffset 4 next.toNat

-- Reading and writing values

/-- The bytes between the slots and the values. -/
def avail (h : VarHeapPageHeaderFields) : Nat := if h.upper > h.lower then h.upper - h.lower else 0

/-- The value under the last, its slot, and the header that counts both. -/
def placeValue (page : Bytes) (h : VarHeapPageHeaderFields) (value : Bytes) : Bytes :=
  let newUpper := (h.upper - value.length) % 2 ^ 16
  let filled := if value.isEmpty then page else patch page newUpper value
  writeHeader (writeSlot filled h.nrSlots ⟨newUpper, value.length⟩)
    ⟨h.flags, (h.nrSlots + 1) % 2 ^ 16, (h.lower + kSlotOnDiskSize) % 2 ^ 16, newUpper⟩

def noRoom : Status := .outOfSpace "var-heap page has no room for this value"

/-- `PageAppend`: the page with the value, and the value's slot. -/
def pageAppend (page value : Bytes) : StatusOr (Bytes × Nat) :=
  if value.length > kMaxValueSize then
    .error (.unsupported ("var-heap value of " ++ toString value.length ++ " bytes exceeds the " ++
      toString kMaxValueSize ++ " a page can hold; values spanning pages are not supported " ++
      "(docs/rules/rule-fixed-length-tuple.md section 9)"))
  else
    let h := readHeader page
    if avail h < kSlotOnDiskSize + value.length then .error noRoom
    else .ok (placeValue page h value, h.nrSlots)

def pageRead (page : Bytes) (slot : Nat) : StatusOr Bytes :=
  let h := readHeader page
  if slot ≥ h.nrSlots then
    .error (.corruption ("var-heap slot " ++ toString slot ++ " is out of range (page holds " ++
      toString h.nrSlots ++ ")"))
  else
    let s := readSlot page slot
    -- An extent the page disagrees with is reported, not cut to it.
    if s.offset < h.upper ∨ s.offset + s.length > kNextPageIdOffset then
      .error (.corruption ("var-heap slot " ++ toString slot ++ " has extent [" ++
        toString s.offset ++ ", +" ++ toString s.length ++ ") outside the page's value area"))
    else .ok (slice page s.offset (s.offset + s.length))

/-- `PageWriteAt`: the value at a named slot, for redo. -/
def pageWriteAt (page : Bytes) (slot : Nat) (value : Bytes) : StatusOr Bytes :=
  if value.length > kMaxValueSize then
    .error (.unsupported ("var-heap value of " ++ toString value.length ++ " bytes exceeds the " ++
      toString kMaxValueSize ++ " a page can hold"))
  else
    let h := readHeader page
    if slot > h.nrSlots then
      .error (.corruption ("redo names var-heap slot " ++ toString slot ++ " on a page holding " ++
        toString h.nrSlots ++ "; slots are dense, so this record is not this page's"))
    else if slot < h.nrSlots then do
      let existing ← pageRead page slot
      -- Only the size is compared: the bytes of a value never change.
      if existing.length ≠ value.length then
        .error (.corruption ("redo would change var-heap slot " ++ toString slot ++ " from " ++
          toString existing.length ++ " bytes to " ++ toString value.length ++
          "; values are immutable per version"))
      else .ok page
    else if avail h < kSlotOnDiskSize + value.length then .error noRoom
    else .ok (placeValue page h value)

-- Fields of a page

section Fields

variable {page value : Bytes} {offset width n first last w : Nat}

theorem length_storeField (hsize : page.length = kPageSize) (h : offset + width ≤ kPageSize) :
    (storeField page offset width n).length = kPageSize := by
  rw [storeField, length_patch (by rw [length_storeLE]; omega), hsize]

theorem load_storeField_self (hsize : page.length = kPageSize) (h : offset + width ≤ kPageSize) :
    load width (storeField page offset width n) offset = n % 256 ^ width :=
  load_patch_self (by omega)

theorem slice_storeField (hsize : page.length = kPageSize) (h : offset + width ≤ kPageSize)
    (hapart : last ≤ offset ∨ offset + width ≤ first) :
    slice (storeField page offset width n) first last = slice page first last :=
  slice_patch_of_disjoint (by rw [length_storeLE]; omega) (by rw [length_storeLE]; exact hapart)

theorem load_storeField (hsize : page.length = kPageSize) (h : offset + width ≤ kPageSize)
    (hapart : first + w ≤ offset ∨ offset + width ≤ first) :
    load w (storeField page offset width n) first = load w page first := by
  rw [load_eq_leNat_slice, load_eq_leNat_slice, slice_storeField hsize h hapart]

end Fields

-- The values a page holds

/-- The bytes of some values. -/
def sizeOf (values : List Bytes) : Nat := (values.map List.length).sum

/-- Where the value area of a page with these values starts. -/
def upperOf (values : List Bytes) : Nat := kNextPageIdOffset - sizeOf values

/-- The values fit a page, with a slot each. -/
def Fits (values : List Bytes) : Prop :=
  kVarHeapHeaderOffset + kHeaderSize + kSlotOnDiskSize * values.length + sizeOf values ≤
    kNextPageIdOffset

/-- A page of the var-heap that holds these values, one to a slot. -/
structure Laid (page : Bytes) (values : List Bytes) : Prop where
  size : page.length = kPageSize
  type : load 1 page 0 = kVarHeap
  version : load 1 page 1 = 1
  nrSlots : (readHeader page).nrSlots = values.length
  lower : (readHeader page).lower =
    kVarHeapHeaderOffset + kHeaderSize + kSlotOnDiskSize * values.length
  upper : (readHeader page).upper = upperOf values
  fits : Fits values
  slot : ∀ i value, values[i]? = some value → ∃ offset,
    readSlot page i = ⟨offset, value.length⟩ ∧ upperOf values ≤ offset ∧
      offset + value.length ≤ kNextPageIdOffset ∧
      slice page offset (offset + value.length) = value

section

variable {page value : Bytes} {values : List Bytes} {i : Nat}

theorem Laid.pageRead (h : Laid page values) (hi : values[i]? = some value) :
    pageRead page i = .ok value := by
  obtain ⟨offset, hslot, hlow, hhigh, hread⟩ := h.slot i value hi
  have hlt : i < values.length := (List.getElem?_eq_some_iff.mp hi).1
  rw [VarHeap.pageRead, h.nrSlots, h.upper, hslot]
  simp only [if_neg (show ¬i ≥ values.length by omega)]
  rw [if_neg (by omega), hread]

@[simp] theorem sizeOf_append (values more : List Bytes) :
    sizeOf (values ++ more) = sizeOf values + sizeOf more := by
  simp [sizeOf]

@[simp] theorem sizeOf_singleton (value : Bytes) : sizeOf [value] = value.length := by
  simp [sizeOf]

theorem Fits.of_append {more : List Bytes} (h : Fits (values ++ more)) : Fits values := by
  rw [Fits, sizeOf_append, length_append] at h
  rw [Fits]
  simp only [kSlotOnDiskSize, kVarHeapHeaderOffset, kHeaderSize, kNextPageIdOffset] at *
  omega

end

-- Writing the header and a slot

section Writes

variable {page value : Bytes} {h : VarHeapPageHeaderFields} {s : VarHeapSlotFields}
  {idx first last w : Nat}

theorem length_writeHeader (hsize : page.length = kPageSize) :
    (writeHeader page h).length = kPageSize := by
  apply length_storeField _ (by decide)
  apply length_storeField _ (by decide)
  apply length_storeField _ (by decide)
  exact length_storeField hsize (by decide)

theorem slice_writeHeader (hsize : page.length = kPageSize)
    (hapart : last ≤ kVarHeapHeaderOffset ∨ kVarHeapHeaderOffset + kHeaderSize ≤ first) :
    slice (writeHeader page h) first last = slice page first last := by
  have h₁ := length_storeField (n := h.flags) hsize
    (show kVarHeapHeaderOffset + 2 ≤ kPageSize by decide)
  have h₂ := length_storeField (n := h.nrSlots) h₁
    (show kVarHeapHeaderOffset + 2 + 2 ≤ kPageSize by decide)
  have h₃ := length_storeField (n := h.lower) h₂
    (show kVarHeapHeaderOffset + 4 + 2 ≤ kPageSize by decide)
  have hend : kHeaderSize = 8 := rfl
  rw [writeHeader, slice_storeField h₃ (by decide) (by omega),
    slice_storeField h₂ (by decide) (by omega), slice_storeField h₁ (by decide) (by omega),
    slice_storeField hsize (by decide) (by omega)]

theorem readHeader_writeHeader (hsize : page.length = kPageSize) (hflags : h.flags < 256 ^ 2)
    (hnr : h.nrSlots < 256 ^ 2) (hlower : h.lower < 256 ^ 2) (hupper : h.upper < 256 ^ 2) :
    readHeader (writeHeader page h) = h := by
  have h₁ := length_storeField (n := h.flags) hsize
    (show kVarHeapHeaderOffset + 2 ≤ kPageSize by decide)
  have h₂ := length_storeField (n := h.nrSlots) h₁
    (show kVarHeapHeaderOffset + 2 + 2 ≤ kPageSize by decide)
  have h₃ := length_storeField (n := h.lower) h₂
    (show kVarHeapHeaderOffset + 4 + 2 ≤ kPageSize by decide)
  rw [readHeader, writeHeader, load_storeField_self h₃ (by decide),
    load_storeField h₃ (by decide) (by decide), load_storeField h₃ (by decide) (by decide),
    load_storeField h₃ (by decide) (by decide), load_storeField_self h₂ (by decide),
    load_storeField h₂ (by decide) (by decide), load_storeField h₂ (by decide) (by decide),
    load_storeField_self h₁ (by decide), load_storeField h₁ (by decide) (by decide),
    load_storeField_self hsize (by decide), Nat.mod_eq_of_lt hflags, Nat.mod_eq_of_lt hnr,
    Nat.mod_eq_of_lt hlower, Nat.mod_eq_of_lt hupper]

theorem length_writeSlot (hsize : page.length = kPageSize)
    (hidx : slotOffset idx + kSlotOnDiskSize ≤ kPageSize) :
    (writeSlot page idx s).length = kPageSize := by
  simp only [kSlotOnDiskSize] at hidx
  apply length_storeField _ (by omega)
  exact length_storeField hsize (by omega)

theorem slice_writeSlot (hsize : page.length = kPageSize)
    (hidx : slotOffset idx + kSlotOnDiskSize ≤ kPageSize)
    (hapart : last ≤ slotOffset idx ∨ slotOffset idx + kSlotOnDiskSize ≤ first) :
    slice (writeSlot page idx s) first last = slice page first last := by
  simp only [kSlotOnDiskSize] at hidx hapart
  have h₁ := length_storeField (n := s.offset) hsize (show slotOffset idx + 2 ≤ kPageSize by omega)
  rw [writeSlot, slice_storeField h₁ (by omega) (by omega),
    slice_storeField hsize (by omega) (by omega)]

theorem readSlot_writeSlot (hsize : page.length = kPageSize)
    (hidx : slotOffset idx + kSlotOnDiskSize ≤ kPageSize) (hoffset : s.offset < 256 ^ 2)
    (hlength : s.length < 256 ^ 2) : readSlot (writeSlot page idx s) idx = s := by
  simp only [kSlotOnDiskSize] at hidx
  have h₁ := length_storeField (n := s.offset) hsize (show slotOffset idx + 2 ≤ kPageSize by omega)
  rw [readSlot, writeSlot, load_storeField_self h₁ (by omega),
    load_storeField h₁ (by omega) (by omega), load_storeField_self hsize (by omega),
    Nat.mod_eq_of_lt hoffset, Nat.mod_eq_of_lt hlength]

theorem load_congr {page' : Bytes}
    (h : slice page' first (first + w) = slice page first (first + w)) :
    load w page' first = load w page first := by
  rw [load_eq_leNat_slice, load_eq_leNat_slice, h]

/-- Where `PageAppend` puts a value it has room for. -/
structure Room (page : Bytes) (h : VarHeapPageHeaderFields) (value : Bytes) : Prop where
  size : page.length = kPageSize
  slots : slotOffset h.nrSlots + kSlotOnDiskSize + value.length ≤ h.upper
  upper : h.upper ≤ kNextPageIdOffset
  flags : h.flags < 256 ^ 2
  lower : h.lower = slotOffset h.nrSlots

/-- The page with a value's bytes, then its slot: what the header is written over. -/
def slotted (page : Bytes) (h : VarHeapPageHeaderFields) (value : Bytes) : Bytes :=
  writeSlot (patch page (h.upper - value.length) value) h.nrSlots
    ⟨h.upper - value.length, value.length⟩

/-- The header after a value. -/
def after (h : VarHeapPageHeaderFields) (value : Bytes) : VarHeapPageHeaderFields :=
  ⟨h.flags, h.nrSlots + 1, h.lower + kSlotOnDiskSize, h.upper - value.length⟩

theorem Room.numbers (room : Room page h value) :
    40 + h.nrSlots * 4 + 4 + value.length ≤ h.upper ∧ h.upper ≤ 8188 ∧
      h.lower = 40 + h.nrSlots * 4 :=
  ⟨room.slots, room.upper, room.lower⟩

theorem placeValue_eq (room : Room page h value) :
    placeValue page h value = writeHeader (slotted page h value) (after h value) := by
  obtain ⟨hroom, hupper, hlower⟩ := room.numbers
  have hsize : page.length = 8192 := room.size
  have hfilled : (if value.isEmpty then page else patch page (h.upper - value.length) value) =
      patch page (h.upper - value.length) value := by
    cases value with
    | nil => simp [patch]
    | cons b rest => rfl
  rw [placeValue, slotted, after, Nat.mod_eq_of_lt (show h.upper - value.length < 2 ^ 16 by omega),
    Nat.mod_eq_of_lt (show h.nrSlots + 1 < 2 ^ 16 by omega),
    Nat.mod_eq_of_lt (show h.lower + kSlotOnDiskSize < 2 ^ 16 by
      simp only [kSlotOnDiskSize]; omega)]
  simp only [hfilled]

theorem Room.length_filled (room : Room page h value) :
    (patch page (h.upper - value.length) value).length = kPageSize := by
  obtain ⟨hroom, hupper, _⟩ := room.numbers
  have hsize : page.length = 8192 := room.size
  rw [length_patch (by omega), room.size]

theorem Room.slotOffset_le (room : Room page h value) :
    slotOffset h.nrSlots + kSlotOnDiskSize ≤ kPageSize := by
  obtain ⟨hroom, hupper, _⟩ := room.numbers
  simp only [slotOffset, kVarHeapHeaderOffset, kHeaderSize, kSlotOnDiskSize, kPageSize]
  omega

theorem Room.length_slotted (room : Room page h value) :
    (slotted page h value).length = kPageSize :=
  length_writeSlot room.length_filled room.slotOffset_le

theorem length_placeValue (room : Room page h value) :
    (placeValue page h value).length = kPageSize := by
  rw [placeValue_eq room, length_writeHeader room.length_slotted]

theorem readHeader_placeValue (room : Room page h value) :
    readHeader (placeValue page h value) = after h value := by
  obtain ⟨hroom, hupper, hlower⟩ := room.numbers
  have hflags : (after h value).flags < 256 ^ 2 := room.flags
  have hnr : (after h value).nrSlots < 256 ^ 2 := by
    simp only [after]; omega
  have hlow : (after h value).lower < 256 ^ 2 := by
    simp only [after, kSlotOnDiskSize]; omega
  have hup : (after h value).upper < 256 ^ 2 := by
    simp only [after]; omega
  rw [placeValue_eq room, readHeader_writeHeader room.length_slotted hflags hnr hlow hup]

theorem readSlot_placeValue (room : Room page h value) :
    readSlot (placeValue page h value) h.nrSlots = ⟨h.upper - value.length, value.length⟩ := by
  obtain ⟨hroom, hupper, hlower⟩ := room.numbers
  have hslot : slotOffset h.nrSlots = 40 + h.nrSlots * 4 := rfl
  have hread : readSlot (slotted page h value) h.nrSlots =
      ⟨h.upper - value.length, value.length⟩ := by
    have hup : h.upper - value.length < 256 ^ 2 := by omega
    have hlen : value.length < 256 ^ 2 := by omega
    exact readSlot_writeSlot room.length_filled room.slotOffset_le hup hlen
  have hend : kVarHeapHeaderOffset + kHeaderSize = 40 := rfl
  rw [placeValue_eq room, ← hread, readSlot, readSlot,
    load_congr (slice_writeHeader room.length_slotted (by omega)),
    load_congr (slice_writeHeader room.length_slotted (by omega))]

theorem slice_placeValue_self (room : Room page h value) :
    slice (placeValue page h value) (h.upper - value.length) h.upper = value := by
  obtain ⟨hroom, hupper, hlower⟩ := room.numbers
  have hsize : page.length = 8192 := room.size
  have hslot : slotOffset h.nrSlots = 40 + h.nrSlots * 4 := rfl
  have hend : kVarHeapHeaderOffset + kHeaderSize = 40 := rfl
  have hfour : kSlotOnDiskSize = 4 := rfl
  rw [placeValue_eq room, slice_writeHeader room.length_slotted (by omega), slotted,
    slice_writeSlot room.length_filled room.slotOffset_le (by omega),
    slice_patch_self (by omega) (by omega)]

theorem slice_placeValue (room : Room page h value)
    (hheader : last ≤ kVarHeapHeaderOffset ∨ kVarHeapHeaderOffset + kHeaderSize ≤ first)
    (hbody : last ≤ slotOffset h.nrSlots ∨ h.upper ≤ first) :
    slice (placeValue page h value) first last = slice page first last := by
  obtain ⟨hroom, hupper, hlower⟩ := room.numbers
  have hsize : page.length = 8192 := room.size
  have hslot : slotOffset h.nrSlots = 40 + h.nrSlots * 4 := rfl
  have hfour : kSlotOnDiskSize = 4 := rfl
  rw [placeValue_eq room, slice_writeHeader room.length_slotted hheader, slotted,
    slice_writeSlot room.length_filled room.slotOffset_le (by omega),
    slice_patch_of_disjoint (by omega) (by omega)]

end Writes

-- One value more

section Laying

variable {page page' value : Bytes} {values : List Bytes} {i : Nat}

theorem Fits.numbers (h : Fits values) :
    40 + 4 * values.length + sizeOf values ≤ 8188 ∧ upperOf values + sizeOf values = 8188 := by
  have hfits : 40 + 4 * values.length + sizeOf values ≤ 8188 := h
  have hupper : upperOf values = 8188 - sizeOf values := rfl
  omega

theorem Laid.room (h : Laid page values) (hfits : Fits (values ++ [value])) :
    Room page (readHeader page) value := by
  have hmore := hfits.numbers
  have hold := h.fits.numbers
  have hslot : slotOffset (readHeader page).nrSlots = 40 + values.length * 4 := by
    rw [h.nrSlots]; rfl
  have hlower : (readHeader page).lower = 40 + 4 * values.length := h.lower
  have hfour : kSlotOnDiskSize = 4 := rfl
  have hnext : kNextPageIdOffset = 8188 := rfl
  rw [sizeOf_append, sizeOf_singleton, length_append, length_singleton] at hmore
  refine ⟨h.size, ?_, ?_, load_lt 2 page _, ?_⟩
  · rw [h.upper]; omega
  · rw [h.upper]; omega
  · omega

theorem Laid.placeValue (h : Laid page values) (hfits : Fits (values ++ [value])) :
    Laid (placeValue page (readHeader page) value) (values ++ [value]) := by
  have room := h.room hfits
  have hmore := hfits.numbers
  have hold := h.fits.numbers
  have hhead : kVarHeapHeaderOffset = 32 := rfl
  have hheader : kHeaderSize = 8 := rfl
  have hfour : kSlotOnDiskSize = 4 := rfl
  have hslotAt : ∀ n, slotOffset n = 40 + n * 4 := fun _ => rfl
  have hnext : kNextPageIdOffset = 8188 := rfl
  have hnr := h.nrSlots
  have hupper := h.upper
  have hlower := h.lower
  rw [sizeOf_append, sizeOf_singleton, length_append, length_singleton] at hmore
  have hafter := readHeader_placeValue room
  refine ⟨length_placeValue room, ?_, ?_, ?_, ?_, ?_, hfits, ?_⟩
  · rw [load_congr (slice_placeValue room (by omega) (by rw [hslotAt]; omega)), h.type]
  · rw [load_congr (slice_placeValue room (by omega) (by rw [hslotAt]; omega)), h.version]
  · rw [hafter, after, hnr, length_append, length_singleton]
  · rw [hafter, length_append, length_singleton]
    simp only [after, kSlotOnDiskSize] at *
    omega
  · rw [hafter]
    simp only [after]
    omega
  · intro i v hi
    rcases Nat.lt_or_ge i values.length with hlt | hge
    · -- a value from before: its slot and its bytes lie where nothing was written
      rw [List.getElem?_append_left hlt] at hi
      obtain ⟨offset, hslot, hlow, hhigh, hread⟩ := h.slot i v hi
      refine ⟨offset, ?_, by omega, hhigh, ?_⟩
      · rw [readSlot, load_congr (slice_placeValue room (by rw [hslotAt]; omega)
            (by rw [hslotAt, hslotAt]; omega)),
          load_congr (slice_placeValue room (by rw [hslotAt]; omega)
            (by rw [hslotAt, hslotAt]; omega))]
        exact hslot
      · rw [slice_placeValue room (by omega) (by omega), hread]
    · -- the value placed
      have hlen : i < (values ++ [value]).length := (List.getElem?_eq_some_iff.mp hi).1
      rw [length_append, length_singleton] at hlen
      obtain rfl : i = values.length := by omega
      rw [List.getElem?_concat_length] at hi
      cases hi
      have hself := slice_placeValue_self room
      have hstart : (readHeader page).upper - value.length + value.length =
          (readHeader page).upper := by omega
      refine ⟨(readHeader page).upper - value.length, ?_, by omega, by omega, ?_⟩
      · rw [← hnr, readSlot_placeValue room]
      · rw [hstart, hself]

theorem Laid.congr (h : Laid page values) (hsize : page'.length = kPageSize)
    (htype : load 1 page' 0 = load 1 page 0) (hversion : load 1 page' 1 = load 1 page 1)
    (hbody : ∀ first last, kVarHeapHeaderOffset ≤ first → last ≤ kNextPageIdOffset →
      slice page' first last = slice page first last) : Laid page' values := by
  have hfits := h.fits.numbers
  have hnext : kNextPageIdOffset = 8188 := rfl
  have hslotAt : ∀ n, slotOffset n = 40 + n * 4 := fun _ => rfl
  have hhead : kVarHeapHeaderOffset = 32 := rfl
  have hheader : readHeader page' = readHeader page := by
    rw [readHeader, readHeader, load_congr (hbody _ _ (by omega) (by omega)),
      load_congr (hbody _ _ (by omega) (by omega)), load_congr (hbody _ _ (by omega) (by omega)),
      load_congr (hbody _ _ (by omega) (by omega))]
  refine ⟨hsize, ?_, ?_, ?_, ?_, ?_, h.fits, ?_⟩
  · rw [htype, h.type]
  · rw [hversion, h.version]
  · rw [hheader, h.nrSlots]
  · rw [hheader, h.lower]
  · rw [hheader, h.upper]
  · intro i v hi
    obtain ⟨offset, hslot, hlow, hhigh, hread⟩ := h.slot i v hi
    have hlt : i < values.length := (List.getElem?_eq_some_iff.mp hi).1
    refine ⟨offset, ?_, hlow, hhigh, ?_⟩
    · rw [readSlot, load_congr (hbody _ _ (by rw [hslotAt]; omega) (by rw [hslotAt]; omega)),
        load_congr (hbody _ _ (by rw [hslotAt]; omega) (by rw [hslotAt]; omega))]
      exact hslot
    · rw [hbody _ _ (by omega) (by omega), hread]

theorem Laid.linkPage (h : Laid page values) (next : PageId) :
    Laid (linkPage page next) values := by
  have hend : kNextPageIdOffset + 4 ≤ kPageSize := by decide
  have hnext : kNextPageIdOffset = 8188 := rfl
  apply h.congr (length_storeField h.size hend)
  · exact load_storeField h.size hend (by omega)
  · exact load_storeField h.size hend (by omega)
  · intro first last _ hlast
    exact slice_storeField h.size hend (Or.inl hlast)

theorem pageNextPageId_linkPage (hsize : page.length = kPageSize) (next : PageId) :
    pageNextPageId (VarHeap.linkPage page next) = next := by
  have hlt : next.toNat < 256 ^ 4 := next.toNat_lt
  rw [pageNextPageId, VarHeap.linkPage, load_storeField_self hsize (by decide),
    Nat.mod_eq_of_lt hlt, UInt32.ofNat_toNat]

theorem Laid.stamp (h : Laid page values) {offset width : Nat} (n : Nat) (hlow : 2 ≤ offset)
    (hhigh : offset + width ≤ kVarHeapHeaderOffset) :
    Laid (storeField page offset width n) values := by
  have hhead : kVarHeapHeaderOffset = 32 := rfl
  have hend : offset + width ≤ kPageSize := by rw [kPageSize]; omega
  apply h.congr (length_storeField h.size hend)
  · exact load_storeField h.size hend (by omega)
  · exact load_storeField h.size hend (by omega)
  · intro first last hfirst _
    exact slice_storeField h.size hend (by omega)

theorem pageNextPageId_stamp (hsize : page.length = kPageSize) {offset width : Nat} (n : Nat)
    (hhigh : offset + width ≤ kVarHeapHeaderOffset) :
    pageNextPageId (storeField page offset width n) = pageNextPageId page := by
  have hhead : kVarHeapHeaderOffset = 32 := rfl
  have hnext : kNextPageIdOffset = 8188 := rfl
  have hend : offset + width ≤ kPageSize := by rw [kPageSize]; omega
  rw [pageNextPageId, pageNextPageId, load_storeField hsize hend (by omega)]

theorem pageNextPageId_placeValue {h : VarHeapPageHeaderFields} (room : Room page h value) :
    pageNextPageId (VarHeap.placeValue page h value) = pageNextPageId page := by
  obtain ⟨hroom, hupper, _⟩ := room.numbers
  have hhead : kVarHeapHeaderOffset + kHeaderSize = 40 := rfl
  have hnext : kNextPageIdOffset = 8188 := rfl
  rw [pageNextPageId, pageNextPageId,
    load_congr (slice_placeValue room (by omega) (by omega))]

end Laying

-- An empty page

theorem length_formatHeadered (type flags ownerOid : Nat) :
    (formatHeadered type flags ownerOid).length = kPageSize := by
  rw [formatHeadered]
  iterate 7 apply length_storeField _ (by decide)
  exact length_replicate

theorem load_formatHeadered (type flags ownerOid : Nat) :
    load 1 (formatHeadered type flags ownerOid) 0 = type % 256 ^ 1 ∧
      load 1 (formatHeadered type flags ownerOid) 1 =
        maxSupportedFormatVersion type % 256 ^ 1 := by
  have h₀ : (List.replicate kPageSize (0 : UInt8)).length = kPageSize := length_replicate
  have h₁ := length_storeField (n := type) h₀ (show 0 + 1 ≤ kPageSize by decide)
  have h₂ := length_storeField (n := maxSupportedFormatVersion type) h₁
    (show 1 + 1 ≤ kPageSize by decide)
  have h₃ := length_storeField (n := flags) h₂ (show kPageFlagsOffset + 2 ≤ kPageSize by decide)
  have h₄ := length_storeField (n := 0) h₃ (show kPageChecksumOffset + 4 ≤ kPageSize by decide)
  have h₅ := length_storeField (n := 0) h₄ (show kPageLsnOffset + 8 ≤ kPageSize by decide)
  have h₆ := length_storeField (n := 0) h₅
    (show kPageRelayoutEpochOffset + 8 ≤ kPageSize by decide)
  constructor
  · rw [formatHeadered, load_storeField h₆ (by decide) (by decide),
      load_storeField h₅ (by decide) (by decide), load_storeField h₄ (by decide) (by decide),
      load_storeField h₃ (by decide) (by decide), load_storeField h₂ (by decide) (by decide),
      load_storeField h₁ (by decide) (by decide), load_storeField_self h₀ (by decide)]
  · rw [formatHeadered, load_storeField h₆ (by decide) (by decide),
      load_storeField h₅ (by decide) (by decide), load_storeField h₄ (by decide) (by decide),
      load_storeField h₃ (by decide) (by decide), load_storeField h₂ (by decide) (by decide),
      load_storeField_self h₁ (by decide)]

theorem laid_formatPage (ownerOid : Nat) : Laid (formatPage ownerOid) [] := by
  have hsize := length_formatHeadered kVarHeap 0 ownerOid
  have hwrite : ∀ h, (writeHeader (formatHeadered kVarHeap 0 ownerOid) h).length = kPageSize :=
    fun _ => length_writeHeader hsize
  have hread : readHeader (writeHeader (formatHeadered kVarHeap 0 ownerOid)
      ⟨1, 0, kVarHeapHeaderOffset + kHeaderSize, kNextPageIdOffset⟩) =
      ⟨1, 0, kVarHeapHeaderOffset + kHeaderSize, kNextPageIdOffset⟩ :=
    readHeader_writeHeader hsize (by decide) (by decide) (by decide) (by decide)
  obtain ⟨htype, hversion⟩ := load_formatHeadered kVarHeap 0 ownerOid
  refine Laid.linkPage ⟨hwrite _, ?_, ?_, ?_, ?_, ?_, ?_, ?_⟩ kInvalidPageId
  · rw [load_congr (slice_writeHeader hsize (by decide)), htype]
    rfl
  · rw [load_congr (slice_writeHeader hsize (by decide)), hversion]
    rfl
  · rw [hread, length_nil]
  · rw [hread, length_nil]
    rfl
  · rw [hread]
    rfl
  · rw [Fits]
    decide
  · intro i value hi
    cases hi

theorem pageNextPageId_formatPage (ownerOid : Nat) :
    pageNextPageId (formatPage ownerOid) = kInvalidPageId :=
  pageNextPageId_linkPage (length_writeHeader (length_formatHeadered kVarHeap 0 ownerOid))
    kInvalidPageId

-- The operations on a page that holds some values

section Operations

variable {page value : Bytes} {values : List Bytes} {i : Nat}

theorem Fits.length_le (h : Fits (values ++ [value])) : ¬value.length > kMaxValueSize := by
  have hmore := h.numbers
  rw [sizeOf_append, sizeOf_singleton, length_append, length_singleton] at hmore
  rw [kMaxValueSize]
  omega

theorem Laid.avail_lt_iff (h : Laid page values) :
    avail (readHeader page) < kSlotOnDiskSize + value.length ↔ ¬Fits (values ++ [value]) := by
  have hold := h.fits.numbers
  have hlower : (readHeader page).lower = 40 + 4 * values.length := h.lower
  have hupper := h.upper
  have hfour : kSlotOnDiskSize = 4 := rfl
  have havail : avail (readHeader page) = upperOf values - (40 + 4 * values.length) := by
    rw [avail, hlower, hupper]
    split_ifs <;> omega
  have hfits : Fits (values ++ [value]) ↔
      40 + 4 * (values.length + 1) + (sizeOf values + value.length) ≤ 8188 := by
    rw [Fits, sizeOf_append, sizeOf_singleton, length_append, length_singleton]
    rfl
  rw [havail, hfits]
  omega

theorem Laid.pageAppend (h : Laid page values) (hfits : Fits (values ++ [value])) :
    VarHeap.pageAppend page value =
      .ok (VarHeap.placeValue page (readHeader page) value, values.length) := by
  rw [VarHeap.pageAppend, if_neg hfits.length_le]
  simp only [if_neg (h.avail_lt_iff.not.mpr (not_not.mpr hfits)), h.nrSlots]

theorem Laid.pageAppend_full (h : Laid page values) (hlen : ¬value.length > kMaxValueSize)
    (hfits : ¬Fits (values ++ [value])) : VarHeap.pageAppend page value = .error noRoom := by
  rw [VarHeap.pageAppend, if_neg hlen]
  simp only [if_pos (h.avail_lt_iff.mpr hfits)]

theorem Laid.pageWriteAt_present (h : Laid page values) (hi : values[i]? = some value)
    (hlen : ¬value.length > kMaxValueSize) : pageWriteAt page i value = .ok page := by
  have hlt : i < values.length := (List.getElem?_eq_some_iff.mp hi).1
  rw [pageWriteAt, if_neg hlen]
  simp only [h.nrSlots, if_neg (show ¬i > values.length by omega), if_pos hlt, h.pageRead hi]
  exact if_neg (not_not.mpr rfl)

theorem Laid.pageWriteAt_next (h : Laid page values) (hfits : Fits (values ++ [value])) :
    pageWriteAt page values.length value =
      .ok (VarHeap.placeValue page (readHeader page) value) := by
  rw [pageWriteAt, if_neg hfits.length_le]
  simp only [h.nrSlots, gt_iff_lt, lt_self_iff_false, if_false]
  rw [if_neg (h.avail_lt_iff.not.mpr (not_not.mpr hfits))]

end Operations

end Kds.Storage.VarHeap
