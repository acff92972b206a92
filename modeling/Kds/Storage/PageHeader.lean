/-
  Kds.Storage.PageHeader

  A page's bytes and the header fields that every headered page carries
  (`src/storage/page_header.cpp`).  The checksum covers the page but for its own four bytes, so
  stamping it moves no other byte, and a stamped page verifies and is not all zero.  A page damaged
  in four adjacent bytes at most is refused (`verifyPageChecksum_burst`).
-/

import Kds.Base.Status
import Kds.Storage.Crc32c

namespace Kds.Storage.Pool

open Lib List

def kPageSize : Nat := 8192

def kPageFlagsOffset : Nat := 2
def kPageChecksumOffset : Nat := 4
def kPageLsnOffset : Nat := 8

/-- The bytes of a page, all of them. -/
structure Page where
  bytes : Bytes
  sized : bytes.length = kPageSize
  deriving DecidableEq

namespace Page

-- Fields

def zero : Page := ⟨List.replicate kPageSize 0, length_replicate⟩

/-- `PageIsAllZero`. -/
def isAllZero (page : Page) : Bool := page.bytes.all (· == 0)

/-- `StoreField`. -/
def storeField (page : Page) (offset width value : Nat) (h : offset + width ≤ kPageSize) :
    Page where
  bytes := page.bytes.take offset ++ storeLE width value ++ page.bytes.drop (offset + width)
  sized := by
    have hsize := page.sized
    simp only [length_append, length_take, length_drop, length_storeLE]
    omega

def rawPageType (page : Page) : Nat := load 1 page.bytes 0

def getPageLsn (page : Page) : Nat := load 8 page.bytes kPageLsnOffset

def setPageLsn (page : Page) (lsn : Nat) : Page :=
  page.storeField kPageLsnOffset 8 lsn (by decide)

def getPageStreamStamp (page : Page) : Nat := load 2 page.bytes kPageFlagsOffset

def setPageStreamStamp (page : Page) (stamp : Nat) : Page :=
  page.storeField kPageFlagsOffset 2 stamp (by decide)

def getStoredChecksum (page : Page) : Nat := load 4 page.bytes kPageChecksumOffset

-- The checksum

/-- `ComputePageChecksum`: the checksum's own bytes count as zero. -/
def computePageChecksum (page : Page) : Nat :=
  crc32cExtend
    (crc32cExtend (crc32cExtend 0 (page.bytes.take kPageChecksumOffset)) [0, 0, 0, 0])
    (page.bytes.drop (kPageChecksumOffset + 4))

def stampPageChecksum (page : Page) : Page :=
  page.storeField kPageChecksumOffset 4 page.computePageChecksum (by decide)

def verifyPageChecksum (page : Page) : StatusOr Unit :=
  if page.getStoredChecksum ≠ page.computePageChecksum then
    .error (.corruption ("page checksum mismatch: stored " ++ toString page.getStoredChecksum ++
      ", computed " ++ toString page.computePageChecksum))
  else .ok ()

theorem ext_bytes {p q : Page} (h : p.bytes = q.bytes) : p = q := by
  cases p
  cases q
  simpa using h

theorem take_storeField (page : Page) (offset width value : Nat)
    (h : offset + width ≤ kPageSize) :
    (page.storeField offset width value h).bytes.take offset = page.bytes.take offset := by
  have hlen : (page.bytes.take offset).length = offset := by
    have hsize := page.sized
    rw [length_take]
    omega
  unfold storeField
  simp only [append_assoc]
  exact take_left' hlen

theorem drop_storeField (page : Page) (offset width value : Nat)
    (h : offset + width ≤ kPageSize) :
    (page.storeField offset width value h).bytes.drop (offset + width) =
      page.bytes.drop (offset + width) := by
  have hlen : (page.bytes.take offset ++ storeLE width value).length = offset + width := by
    have hsize := page.sized
    simp only [length_append, length_take, length_storeLE]
    omega
  unfold storeField
  exact drop_left' hlen

theorem load_storeField (page : Page) (offset width value : Nat)
    (h : offset + width ≤ kPageSize) :
    load width (page.storeField offset width value h).bytes offset = value % 256 ^ width := by
  have hlen : (page.bytes.take offset).length = offset := by
    have hsize := page.sized
    rw [length_take]
    omega
  unfold load storeField
  simp only [append_assoc]
  rw [drop_left' hlen, take_left' (length_storeLE width value), leNat_storeLE]

theorem computePageChecksum_lt (page : Page) : page.computePageChecksum < 2 ^ 32 := by
  unfold computePageChecksum
  apply crc32cExtend_lt
  apply crc32cExtend_lt
  exact crc32cExtend_lt (by decide) _

theorem computePageChecksum_congr {p q : Page} (hlow : p.bytes.take 4 = q.bytes.take 4)
    (hhigh : p.bytes.drop 8 = q.bytes.drop 8) : p.computePageChecksum = q.computePageChecksum := by
  unfold computePageChecksum kPageChecksumOffset
  rw [hlow, hhigh]

theorem take_stampPageChecksum (page : Page) :
    page.stampPageChecksum.bytes.take 4 = page.bytes.take 4 :=
  page.take_storeField 4 4 _ (by decide)

theorem drop_stampPageChecksum (page : Page) :
    page.stampPageChecksum.bytes.drop 8 = page.bytes.drop 8 :=
  page.drop_storeField 4 4 _ (by decide)

@[simp] theorem computePageChecksum_stamp (page : Page) :
    page.stampPageChecksum.computePageChecksum = page.computePageChecksum :=
  computePageChecksum_congr page.take_stampPageChecksum page.drop_stampPageChecksum

@[simp] theorem getStoredChecksum_stamp (page : Page) :
    page.stampPageChecksum.getStoredChecksum = page.computePageChecksum := by
  unfold getStoredChecksum stampPageChecksum
  refine (page.load_storeField _ _ _ (by decide)).trans ?_
  exact Nat.mod_eq_of_lt page.computePageChecksum_lt

@[simp] theorem stampPageChecksum_stamp (page : Page) :
    page.stampPageChecksum.stampPageChecksum = page.stampPageChecksum := by
  apply ext_bytes
  have hlow := page.take_stampPageChecksum
  have hhigh := page.drop_stampPageChecksum
  unfold stampPageChecksum storeField kPageChecksumOffset at *
  dsimp only at *
  rw [hlow, hhigh]
  congr 3
  exact computePageChecksum_stamp page

@[simp] theorem getPageLsn_stamp (page : Page) :
    page.stampPageChecksum.getPageLsn = page.getPageLsn := by
  unfold getPageLsn load kPageLsnOffset
  rw [drop_stampPageChecksum]

theorem verifyPageChecksum_stamp (page : Page) :
    page.stampPageChecksum.verifyPageChecksum = .ok () := by
  unfold verifyPageChecksum
  rw [getStoredChecksum_stamp, computePageChecksum_stamp, if_neg (fun h => h rfl)]

-- The page of zeros

/-- The register after so many zero bytes; each step is run before the next. -/
def crcZeros : Nat → Nat → Nat
  | 0, state => state
  | n + 1, state =>
    match crcTable (state &&& 0xFF) ^^^ (state >>> 8) with
    | 0 => crcZeros n 0
    | next + 1 => crcZeros n (next + 1)

theorem foldl_zeros (n state : Nat) :
    (List.replicate n (0 : UInt8)).foldl
      (fun state b => crcTable ((state ^^^ b.toNat) &&& 0xFF) ^^^ (state >>> 8)) state =
      crcZeros n state := by
  induction n generalizing state with
  | zero => rfl
  | succ n ih =>
    rw [replicate_succ, foldl_cons, ih, crcZeros]
    have hzero : state ^^^ (0 : UInt8).toNat = state := Nat.xor_zero state
    rw [hzero]
    split
    · next h => rw [h]
    · next h => rw [h]

theorem crcZeros_crcZeros (m n state : Nat) :
    crcZeros n (crcZeros m state) = crcZeros (m + n) state := by
  rw [← foldl_zeros, ← foldl_zeros, ← foldl_zeros, ← foldl_append, ← replicate_add]

theorem computePageChecksum_zero :
    zero.computePageChecksum = complement32 (crcZeros 8192 0xFFFFFFFF) := by
  have hfour : ([0, 0, 0, 0] : Bytes) = List.replicate 4 0 := rfl
  unfold computePageChecksum crc32cExtend zero kPageChecksumOffset kPageSize
  simp only [take_replicate, drop_replicate, hfour, foldl_zeros,
    complement32_complement32, crcZeros_crcZeros]
  rfl

-- A quarter of the page at a time, so that no one evaluation is long.
theorem crcZeros_page : crcZeros 8192 0xFFFFFFFF ≠ 0xFFFFFFFF := by
  have hfirst : crcZeros 2048 0xFFFFFFFF = 0x5B767CB0 := by decide +kernel
  have hsecond : crcZeros 2048 0x5B767CB0 = 0x6706BE76 := by decide +kernel
  have hthird : crcZeros 2048 0x6706BE76 = 0xC5C91BBE := by decide +kernel
  have hlast : crcZeros 2048 0xC5C91BBE = 0x6FBBB9DC := by decide +kernel
  rw [← crcZeros_crcZeros 6144 2048, ← crcZeros_crcZeros 4096 2048, ← crcZeros_crcZeros 2048 2048,
    hfirst, hsecond, hthird, hlast]
  decide

theorem computePageChecksum_zero_ne : zero.computePageChecksum ≠ 0 := by
  rw [computePageChecksum_zero]
  intro h
  apply crcZeros_page
  rw [← complement32_complement32 (crcZeros 8192 0xFFFFFFFF), h]
  rfl

theorem isAllZero_stamp (page : Page) : page.stampPageChecksum.isAllZero = false := by
  apply Bool.eq_false_iff.mpr
  intro hall
  have hbytes : page.stampPageChecksum.bytes = zero.bytes := by
    apply eq_replicate_iff.mpr
    refine ⟨page.stampPageChecksum.sized, fun b hb => ?_⟩
    exact eq_of_beq (all_eq_true.mp hall b hb)
  have hpage : page.stampPageChecksum = zero := ext_bytes hbytes
  have hsum := page.computePageChecksum_stamp
  have hstored := page.getStoredChecksum_stamp
  rw [hpage] at hsum hstored
  apply computePageChecksum_zero_ne
  rw [hsum, ← hstored]
  decide +kernel

-- Damage

/-- What the checksum is of: the page, its own bytes as zeros. -/
def covered (page : Page) : Bytes :=
  page.bytes.take kPageChecksumOffset ++ [0, 0, 0, 0] ++ page.bytes.drop (kPageChecksumOffset + 4)

theorem computePageChecksum_eq (page : Page) :
    page.computePageChecksum = crc32cExtend 0 page.covered := by
  unfold computePageChecksum covered
  rw [crc32cExtend_append, crc32cExtend_append, append_assoc]

/-- **A damaged page is refused**: a page that verifies does not once up to four adjacent bytes of
    what its checksum covers have changed, or the checksum has. -/
theorem verifyPageChecksum_burst {page damaged : Page} (hok : page.verifyPageChecksum = .ok ())
    (hdamage : damaged.getStoredChecksum = page.getStoredChecksum ∧
        Burst page.covered damaged.covered ∨
      damaged.getStoredChecksum ≠ page.getStoredChecksum ∧ damaged.covered = page.covered) :
    ∃ e, damaged.verifyPageChecksum = .error e ∧ e.code = .corruption := by
  have hsum : page.getStoredChecksum = page.computePageChecksum := by
    unfold verifyPageChecksum at hok
    split_ifs at hok with h
    exact not_not.mp h
  have hbad : damaged.getStoredChecksum ≠ damaged.computePageChecksum := by
    rw [computePageChecksum_eq] at hsum ⊢
    rcases hdamage with ⟨hstored, hburst⟩ | ⟨hstored, hcovered⟩
    · rw [hstored, hsum]
      exact hburst.crc32cExtend_ne (by decide)
    · rw [hcovered, ← hsum]
      exact hstored
  unfold verifyPageChecksum
  rw [if_pos hbad]
  exact ⟨_, rfl, rfl⟩

/-- A page of zeros, and two bytes changed after its checksum is stamped. -/
theorem verifyPageChecksum_burst_zero :
    ∃ e, (zero.stampPageChecksum.setPageStreamStamp 258).verifyPageChecksum = .error e ∧
      e.code = .corruption := by
  have htail : (zero.stampPageChecksum.setPageStreamStamp 258).bytes.drop 4 =
      zero.stampPageChecksum.bytes.drop 4 := drop_storeField _ 2 2 258 (by decide)
  have hlow : zero.stampPageChecksum.bytes.take 4 = [0, 0, 0, 0] :=
    zero.take_stampPageChecksum.trans take_replicate
  have hhead : (zero.stampPageChecksum.setPageStreamStamp 258).bytes.take 4 = [0, 0, 2, 1] := by
    have htake : zero.stampPageChecksum.bytes.take 2 = [0, 0] := by
      rw [← min_eq_left (show 2 ≤ 4 by decide), ← take_take, hlow]
      rfl
    unfold setPageStreamStamp storeField kPageFlagsOffset
    dsimp only
    rw [htake]
    rfl
  refine verifyPageChecksum_burst zero.verifyPageChecksum_stamp (.inl ⟨?_, [0, 0], [0, 0], [2, 1],
    [0, 0, 0, 0] ++ zero.stampPageChecksum.bytes.drop 8, ?_, ?_, rfl, by decide, by decide⟩)
  · unfold getStoredChecksum load kPageChecksumOffset
    rw [htail]
  · unfold covered kPageChecksumOffset
    rw [hlow]
    simp only [cons_append, nil_append]
  · have hrest : (zero.stampPageChecksum.setPageStreamStamp 258).bytes.drop 8 =
        zero.stampPageChecksum.bytes.drop 8 := by
      rw [← drop_drop (i := 4) (j := 4), htail, drop_drop]
    unfold covered kPageChecksumOffset
    rw [hhead, hrest]
    simp only [cons_append, nil_append]

end Page

end Kds.Storage.Pool
