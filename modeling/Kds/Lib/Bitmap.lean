/-
  Kds.Lib.Bitmap

  A bitmap as bytes, bit `i` in byte `i / 8` at place `i % 8`, and the search for a clear bit that
  skips full bytes.  Setting a clear bit adds one to the count of set bits; the search answers the
  lowest clear bit from where it starts.
-/

import Mathlib.Algebra.BigOperators.Group.Finset.Basic
import Mathlib.Data.Nat.ModEq

namespace Kds.Lib

/-- Bytes by index. -/
abbrev Bitmap := Nat → BitVec 8

/-- How many bits of a byte are set. -/
def popcount (x : BitVec 8) : Nat := ((Finset.range 8).filter fun k => x.getLsbD k).card

/-- The lowest clear bit of a byte, 8 where it has none. -/
def countrOne (x : BitVec 8) : Nat := ((List.range 8).find? fun k => !x.getLsbD k).getD 8

namespace Bitmap

variable {b : Bitmap} {i j : Nat} {x : BitVec 8} {limit : Nat}

def test (b : Bitmap) (i : Nat) : Bool := (b (i / 8)).getLsbD (i % 8)

def set (b : Bitmap) (i : Nat) : Bitmap :=
  Function.update b (i / 8) (b (i / 8) ||| BitVec.twoPow 8 (i % 8))

/-- The set bits of the first `bytes` bytes. -/
def count (b : Bitmap) (bytes : Nat) : Nat := ∑ n ∈ Finset.range bytes, popcount (b n)

theorem test_set (b : Bitmap) (i j : Nat) : (b.set i).test j = (decide (j = i) || b.test j) := by
  unfold test set
  have hlt : i % 8 < 8 := Nat.mod_lt i (by decide)
  by_cases hbyte : j / 8 = i / 8
  · rw [hbyte, Function.update_self, BitVec.getLsbD_or, BitVec.getLsbD_twoPow]
    by_cases hij : j = i
    · subst hij
      simp [hlt]
    · have hbit : ¬ i % 8 = j % 8 := by omega
      simp [hij, hbit]
  · have hij : ¬ j = i := fun h => hbyte (h ▸ rfl)
    rw [Function.update_of_ne hbyte]
    simp [hij]

theorem set_eq_self (h : b.test i = true) : b.set i = b := by
  unfold set
  have hor : b (i / 8) ||| BitVec.twoPow 8 (i % 8) = b (i / 8) := by
    ext k hk
    rw [BitVec.getElem_or, BitVec.getElem_twoPow]
    by_cases hki : k = i % 8
    · subst hki
      have hbit : (b (i / 8))[i % 8] = true := by
        rw [BitVec.getElem_eq_testBit_toNat]
        exact h
      simp [hbit]
    · simp [hki]
  rw [hor, Function.update_eq_self]

theorem popcount_or {k : Nat} (hk : k < 8) (h : x.getLsbD k = false) :
    popcount (x ||| BitVec.twoPow 8 k) = popcount x + 1 := by
  unfold popcount
  have hset : (Finset.range 8).filter (fun n => (x ||| BitVec.twoPow 8 k).getLsbD n) =
      insert k ((Finset.range 8).filter fun n => x.getLsbD n) := by
    ext n
    rw [Finset.mem_filter, Finset.mem_insert, Finset.mem_filter, BitVec.getLsbD_or,
      BitVec.getLsbD_twoPow]
    by_cases hn : n = k
    · subst hn
      simp [hk]
    · have hkn : ¬ k = n := fun heq => hn heq.symm
      simp [hn, hkn]
  rw [hset, Finset.card_insert_of_notMem]
  rw [Finset.mem_filter, h]
  exact fun hmem => Bool.false_ne_true hmem.2

theorem count_set {bytes : Nat} (hi : i / 8 < bytes) (h : b.test i = false) :
    (b.set i).count bytes = b.count bytes + 1 := by
  unfold count
  have hmem : i / 8 ∈ Finset.range bytes := Finset.mem_range.mpr hi
  rw [← Finset.add_sum_erase _ _ hmem, ← Finset.add_sum_erase _ (fun n => popcount (b n)) hmem]
  have hhere : popcount (b.set i (i / 8)) = popcount (b (i / 8)) + 1 := by
    rw [set, Function.update_self]
    exact popcount_or (Nat.mod_lt i (by decide)) h
  have hrest : ∑ n ∈ (Finset.range bytes).erase (i / 8), popcount (b.set i n) =
      ∑ n ∈ (Finset.range bytes).erase (i / 8), popcount (b n) := by
    apply Finset.sum_congr rfl
    intro n hn
    rw [set, Function.update_of_ne (Finset.ne_of_mem_erase hn)]
  rw [hhere, hrest]
  omega

-- The search

/-- Bit by bit up to the next byte boundary: a clear bit, or the boundary. -/
def scanBits (b : Bitmap) (limit : Nat) : Nat → Nat → Nat ⊕ Nat
  | 0, i => .inr i
  | fuel + 1, i =>
    if i < limit ∧ i % 8 ≠ 0 then
      if b.test i then scanBits b limit fuel (i + 1) else .inl i
    else .inr i

/-- Byte by byte from a boundary, over those that are full. -/
def scanBytes (b : Bitmap) (limit : Nat) : Nat → Nat → Option Nat
  | 0, _ => none
  | fuel + 1, i =>
    if i < limit then
      if b (i / 8) = 0xFF#8 then scanBytes b limit fuel (i + 8)
      else some (i + countrOne (b (i / 8)))
    else none

/-- The lowest clear bit from `start` on. -/
def firstClear (b : Bitmap) (limit start : Nat) : Option Nat :=
  match b.scanBits limit 8 start with
  | .inl i => some i
  | .inr i => b.scanBytes limit (limit / 8) i

theorem countrOne_spec (h : x ≠ 0xFF#8) : countrOne x < 8 ∧ x.getLsbD (countrOne x) = false := by
  have hall : ∀ x : BitVec 8, x ≠ 0xFF#8 →
      countrOne x < 8 ∧ x.getLsbD (countrOne x) = false := by decide +kernel
  exact hall x h

theorem scanBits_inl {fuel found : Nat} (h : b.scanBits limit fuel i = .inl found) :
    i ≤ found ∧ found < limit ∧ b.test found = false := by
  induction fuel generalizing i with
  | zero => cases h
  | succ fuel ih =>
    simp only [scanBits] at h
    split_ifs at h with hin hset
    · obtain ⟨hle, hrest⟩ := ih h
      exact ⟨by omega, hrest⟩
    · obtain rfl := Sum.inl.inj h
      exact ⟨Nat.le_refl _, hin.1, by simpa using hset⟩

theorem scanBits_inr {fuel stop : Nat} (hfuel : 8 ≤ fuel + i % 8 ∨ i % 8 = 0)
    (h : b.scanBits limit fuel i = .inr stop) : i ≤ stop ∧ (limit ≤ stop ∨ stop % 8 = 0) := by
  induction fuel generalizing i with
  | zero =>
    obtain rfl := Sum.inr.inj h
    exact ⟨Nat.le_refl _, by omega⟩
  | succ fuel ih =>
    simp only [scanBits] at h
    split_ifs at h with hin hset
    · obtain ⟨hle, hrest⟩ := ih (by omega) h
      exact ⟨by omega, hrest⟩
    · obtain rfl := Sum.inr.inj h
      exact ⟨Nat.le_refl _, by omega⟩

theorem scanBytes_some {fuel found : Nat} (hlimit : limit % 8 = 0) (halign : limit ≤ i ∨ i % 8 = 0)
    (h : b.scanBytes limit fuel i = some found) :
    i ≤ found ∧ found < limit ∧ b.test found = false := by
  induction fuel generalizing i with
  | zero => cases h
  | succ fuel ih =>
    simp only [scanBytes] at h
    split_ifs at h with hin hfull
    · obtain ⟨hle, hrest⟩ := ih (by omega) h
      exact ⟨by omega, hrest⟩
    · obtain ⟨hlt, hclear⟩ := countrOne_spec hfull
      have hfound := Option.some.inj h
      have hbyte : found / 8 = i / 8 := by omega
      have hbit : found % 8 = countrOne (b (i / 8)) := by omega
      refine ⟨by omega, by omega, ?_⟩
      rw [test, hbyte, hbit]
      exact hclear

/-- **What the search finds is clear**, at or above its start and within the limit. -/
theorem firstClear_some {start found : Nat} (hlimit : limit % 8 = 0)
    (h : b.firstClear limit start = some found) :
    start ≤ found ∧ found < limit ∧ b.test found = false := by
  unfold firstClear at h
  rcases hscan : b.scanBits limit 8 start with i | i
  · rw [hscan] at h
    cases h
    exact scanBits_inl hscan
  · rw [hscan] at h
    obtain ⟨hle, halign⟩ := scanBits_inr (.inl (by omega)) hscan
    obtain ⟨hfound, hrest⟩ := scanBytes_some hlimit halign h
    exact ⟨by omega, hrest⟩

end Bitmap

end Kds.Lib
