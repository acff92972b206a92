/-
  Kds.Lib.Reading

  Readers that take values off the front of a byte string.  `Exact` says of a reader which texts it
  takes for which value, that it takes nothing else, and that it never leaves the bytes; a reader
  put together from exact ones is exact (`Exact.bind`, `Exact.repeated`).  `Refuses` says on which
  bytes one refusal is the answer.
-/

import Kds.Lib.Scalars

namespace Kds.Lib

open List

/-- Laying out what was read gives the number back. -/
class LawfulScalar (T : Type) [Scalar T] : Prop where
  toNat_ofNat : ∀ n, n < 256 ^ Scalar.width T → Scalar.toNat (Scalar.ofNat n : T) = n

instance : LawfulScalar UInt8 := ⟨fun _ h => UInt8.toNat_ofNat_of_lt' h⟩
instance : LawfulScalar UInt16 := ⟨fun _ h => UInt16.toNat_ofNat_of_lt' h⟩
instance : LawfulScalar UInt32 := ⟨fun _ h => UInt32.toNat_ofNat_of_lt' h⟩
instance : LawfulScalar UInt64 := ⟨fun _ h => UInt64.toNat_ofNat_of_lt' h⟩
instance : LawfulScalar Int64 := ⟨fun _ h => UInt64.toNat_ofNat_of_lt' h⟩

theorem storeLE_leNat (bytes : Bytes) : storeLE bytes.length (leNat bytes) = bytes := by
  induction bytes with
  | nil => rfl
  | cons b bs ih =>
    have hlow : (b.toNat + 256 * leNat bs) % 256 = b.toNat := by
      have := b.toNat_lt
      omega
    have hhigh : (b.toNat + 256 * leNat bs) / 256 = leNat bs := by
      have := b.toNat_lt
      omega
    rw [length_cons, storeLE, leNat, hlow, hhigh, ih, UInt8.ofNat_toNat]

/-- A reader: the bytes that are left go in, and come out behind what was read. -/
abbrev Reading (ε α : Type) := StateT Bytes (Outcome ε) α

variable {ε α β T : Type} [Scalar T]

/-- The texts a reader takes, for each value. -/
structure Exact (read : Reading ε α) (Spells : α → Bytes → Prop) : Prop where
  within : ∀ bytes, read bytes ≠ .error .outOfRange
  ok_iff : ∀ bytes a rest,
    read bytes = .ok (a, rest) ↔ ∃ text, Spells a text ∧ bytes = text ++ rest

section

variable {x : Reading ε α} {f : α → Reading ε β} {R R' : α → Bytes → Prop}
  {S : α → β → Bytes → Prop}

theorem Exact.congr (h : Exact x R) (hsame : ∀ a text, R a text ↔ R' a text) : Exact x R' :=
  ⟨h.within, fun bytes a rest => by simp only [h.ok_iff, hsame]⟩

theorem Exact.pure (a : α) :
    Exact (Pure.pure a : Reading ε α) (fun b text => b = a ∧ text = []) := by
  refine ⟨nofun, fun bytes b rest => ?_⟩
  change Except.ok (a, bytes) = Except.ok (b, rest) ↔ _
  simp only [Except.ok.injEq, Prod.mk.injEq]
  constructor
  · rintro ⟨rfl, rfl⟩
    exact ⟨[], ⟨rfl, rfl⟩, rfl⟩
  · rintro ⟨text, ⟨rfl, rfl⟩, rfl⟩
    exact ⟨rfl, rfl⟩

theorem Exact.bind (h : Exact x R) (hf : ∀ a, Exact (f a) (S a)) :
    Exact (x >>= f) (fun b text => ∃ a front back, R a front ∧ S a b back ∧
      text = front ++ back) := by
  have hrun (bytes : Bytes) : (x >>= f) bytes = x bytes >>= fun out => f out.1 out.2 := rfl
  constructor
  · intro bytes hout
    rw [hrun] at hout
    cases hx : x bytes with
    | ok out =>
      rw [hx] at hout
      exact (hf out.1).within out.2 hout
    | error e =>
      rw [hx] at hout
      cases hout
      exact h.within bytes hx
  · intro bytes b rest
    rw [hrun]
    constructor
    · intro hout
      cases hx : x bytes with
      | ok out =>
        rw [hx] at hout
        obtain ⟨front, hfront, rfl⟩ := (h.ok_iff bytes out.1 out.2).mp hx
        obtain ⟨back, hback, hrest⟩ := ((hf out.1).ok_iff out.2 b rest).mp hout
        exact ⟨front ++ back, ⟨out.1, front, back, hfront, hback, rfl⟩,
          by rw [hrest, append_assoc]⟩
      | error e =>
        rw [hx] at hout
        cases hout
    · rintro ⟨text, ⟨a, front, back, hfront, hback, rfl⟩, rfl⟩
      have hx := (h.ok_iff (front ++ (back ++ rest)) a (back ++ rest)).mpr ⟨front, hfront, rfl⟩
      rw [append_assoc, hx]
      exact ((hf a).ok_iff _ b rest).mpr ⟨back, hback, rfl⟩

theorem Exact.map (h : Exact x R) (g : α → β) :
    Exact (g <$> x) (fun b text => ∃ a, R a text ∧ b = g a) := by
  rw [← bind_pure_comp]
  refine (h.bind fun a => Exact.pure (g a)).congr fun b text => ?_
  constructor
  · rintro ⟨a, front, _, ha, ⟨rfl, rfl⟩, rfl⟩
    exact ⟨a, by rwa [append_nil], rfl⟩
  · rintro ⟨a, ha, rfl⟩
    exact ⟨a, text, [], ha, ⟨rfl, rfl⟩, (append_nil _).symm⟩

end

/-- A refusal. -/
def refuseRead (e : ε) : Reading ε α := fun _ => .error (.refused e)

theorem Exact.refuse (e : ε) : Exact (refuseRead e : Reading ε α) (fun _ _ => False) := by
  refine ⟨fun _ h => ?_, fun bytes a rest => ⟨nofun, ?_⟩⟩
  · cases h
  · rintro ⟨_, h, -⟩
    exact h.elim

/-- A reader with its refusals put into a larger type. -/
def rephrase {ε' : Type} (g : ε → ε') (read : Reading ε α) : Reading ε' α := fun bytes =>
  match read bytes with
  | .ok out => .ok out
  | .error .outOfRange => .error .outOfRange
  | .error (.refused e) => .error (.refused (g e))

theorem Exact.rephrase {ε' : Type} {x : Reading ε α} {R : α → Bytes → Prop} (h : Exact x R)
    (g : ε → ε') : Exact (rephrase g x) R := by
  constructor
  · intro bytes hout
    have hwithin := h.within bytes
    unfold Lib.rephrase at hout
    split at hout
    · cases hout
    · contradiction
    · cases hout
  · intro bytes a rest
    rw [← h.ok_iff, Lib.rephrase]
    split <;> simp_all

/-- The bytes on which a reader answers the refusal `e`. -/
def Refuses (read : Reading ε α) (e : ε) (On : Bytes → Prop) : Prop :=
  ∀ bytes, read bytes = .error (.refused e) ↔ On bytes

section

variable {x : Reading ε α} {f : α → Reading ε β} {e : ε} {R : α → Bytes → Prop}
  {On : Bytes → Prop} {OnAfter : α → Bytes → Prop}

theorem refuses_refuse (e : ε) : Refuses (refuseRead e : Reading ε α) e (fun _ => True) :=
  fun _ => iff_of_true rfl trivial

theorem refuses_pure (a : α) (e : ε) : Refuses (Pure.pure a : Reading ε α) e (fun _ => False) :=
  fun _ => iff_of_false nofun id

/-- A rephrased reader answers no refusal but a rephrased one. -/
theorem refuses_rephrase {ε' : Type} {g : ε → ε'} {e' : ε'} (hg : ∀ e, g e ≠ e') :
    Refuses (rephrase g x) e' (fun _ => False) := by
  intro bytes
  refine iff_of_false (fun h => ?_) id
  unfold rephrase at h
  split at h
  · cases h
  · cases h
  · next e _ => exact hg e (Fault.refused.inj (Except.error.inj h))

/-- The first part refuses, or it takes the front and the second part refuses behind it. -/
theorem Refuses.bind (hx : Exact x R) (h : Refuses x e On)
    (hf : ∀ a, Refuses (f a) e (OnAfter a)) :
    Refuses (x >>= f) e (fun bytes => On bytes ∨
      ∃ a front rest, R a front ∧ bytes = front ++ rest ∧ OnAfter a rest) := by
  intro bytes
  have hrun : (x >>= f) bytes = x bytes >>= fun out => f out.1 out.2 := rfl
  rw [hrun]
  constructor
  · intro hout
    cases hread : x bytes with
    | error fault =>
      rw [hread] at hout
      cases hout
      exact .inl ((h bytes).mp hread)
    | ok out =>
      rw [hread] at hout
      obtain ⟨front, hfront, hbytes⟩ := (hx.ok_iff bytes out.1 out.2).mp hread
      exact .inr ⟨out.1, front, out.2, hfront, hbytes, (hf out.1 out.2).mp hout⟩
  · rintro (hon | ⟨a, front, rest, hfront, hbytes, hon⟩)
    · rw [(h bytes).mpr hon]
      rfl
    · rw [(hx.ok_iff bytes a rest).mpr ⟨front, hfront, hbytes⟩]
      exact (hf a rest).mpr hon

/-- A first part that never refuses so leaves it to the second. -/
theorem Refuses.after (hx : Exact x R) (h : Refuses x e fun _ => False)
    (hf : ∀ a, Refuses (f a) e (OnAfter a)) :
    Refuses (x >>= f) e (fun bytes =>
      ∃ a front rest, R a front ∧ bytes = front ++ rest ∧ OnAfter a rest) :=
  fun bytes => (h.bind hx hf bytes).trans (or_iff_right id)

end

-- Scalars and strings

/-- A scalar, or what is answered when too few bytes are left. -/
def readScalar (T : Type) [Scalar T] (short : Bytes → ε) : Reading ε T := fun bytes =>
  if bytes.length < Scalar.width T then .error (.refused (short bytes))
  else do
    let a ← loadAt T bytes 0
    .ok (a, bytes.drop (Scalar.width T))

theorem Exact.readScalar [LawfulScalar T] (short : Bytes → ε) :
    Exact (readScalar T short) (fun a text => text = scalarBytes a) := by
  have hread (bytes : Bytes) : Lib.readScalar T short bytes =
      if bytes.length < Scalar.width T then .error (.refused (short bytes))
      else
        .ok (Scalar.ofNat (leNat (bytes.take (Scalar.width T))), bytes.drop (Scalar.width T)) := by
    rw [Lib.readScalar]
    split_ifs with hshort
    · rfl
    · rw [loadAt_of_le (by omega)]
      rfl
  constructor
  · intro bytes
    rw [hread]
    split_ifs <;> nofun
  · intro bytes a rest
    rw [hread]
    constructor
    · intro h
      split_ifs at h with hshort
      simp only [Except.ok.injEq, Prod.mk.injEq] at h
      obtain ⟨rfl, rfl⟩ := h
      refine ⟨_, rfl, ?_⟩
      have hlen : (bytes.take (Scalar.width T)).length = Scalar.width T :=
        length_take_of_le (by omega)
      have hback := storeLE_leNat (bytes.take (Scalar.width T))
      have hlt := leNat_lt (bytes.take (Scalar.width T))
      rw [hlen] at hback hlt
      rw [scalarBytes, LawfulScalar.toNat_ofNat _ hlt, hback, take_append_drop]
    · rintro ⟨text, rfl, rfl⟩
      have hlen := length_scalarBytes a
      rw [if_neg (by rw [length_append]; omega), ← hlen, take_left, drop_left,
        scalarBytes, leNat_storeLE, Scalar.ofNat_mod]

/-- A string behind its length. -/
def stringBytes (s : Bytes) : Bytes := scalarBytes (UInt32.ofNat s.length) ++ s

def readString (short : Bytes → ε) : Reading ε Bytes := do
  let length ← readScalar UInt32 short
  fun bytes =>
    if bytes.length < length.toNat then .error (.refused (short bytes))
    else .ok (bytes.take length.toNat, bytes.drop length.toNat)

theorem Exact.readString (short : Bytes → ε) :
    Exact (readString short) (fun s text => s.length < 2 ^ 32 ∧ text = stringBytes s) := by
  rw [Lib.readString]
  have htail (length : UInt32) : Exact (fun bytes =>
      if bytes.length < length.toNat then .error (.refused (short bytes))
      else .ok (bytes.take length.toNat, bytes.drop length.toNat) : Reading ε Bytes)
      (fun s text => s.length = length.toNat ∧ text = s) := by
    refine ⟨fun bytes h => ?_, fun bytes s rest => ?_⟩
    · split_ifs at h
      cases h
    constructor
    · intro h
      split_ifs at h with hshort
      simp only [Except.ok.injEq, Prod.mk.injEq] at h
      obtain ⟨rfl, rfl⟩ := h
      exact ⟨_, ⟨length_take_of_le (by omega), rfl⟩, (take_append_drop _ _).symm⟩
    · rintro ⟨text, ⟨hlen, rfl⟩, rfl⟩
      rw [if_neg (by rw [length_append]; omega), ← hlen, take_left, drop_left]
  refine ((Exact.readScalar short).bind htail).congr fun s text => ?_
  constructor
  · rintro ⟨length, front, back, rfl, ⟨hlen, rfl⟩, rfl⟩
    refine ⟨hlen ▸ length.toNat_lt, ?_⟩
    rw [stringBytes, hlen, UInt32.ofNat_toNat]
  · rintro ⟨hlen, rfl⟩
    exact ⟨_, _, _, rfl, ⟨(UInt32.toNat_ofNat_of_lt' hlen).symm, rfl⟩, rfl⟩

-- Lists

/-- The same reader so many times. -/
def readRepeated (read : Reading ε α) : Nat → Reading ε (List α)
  | 0 => pure []
  | n + 1 => do
    let a ← read
    let as ← readRepeated read n
    pure (a :: as)

theorem Exact.repeated {x : Reading ε α} {Valid : α → Prop} {write : α → Bytes}
    (h : Exact x (fun a text => Valid a ∧ text = write a)) (n : Nat) :
    Exact (readRepeated x n) (fun as text =>
      as.length = n ∧ (∀ a ∈ as, Valid a) ∧ text = as.flatMap write) := by
  induction n with
  | zero =>
    refine (Exact.pure []).congr fun as text => ?_
    constructor
    · rintro ⟨rfl, rfl⟩
      exact ⟨rfl, nofun, rfl⟩
    · rintro ⟨hlen, -, rfl⟩
      obtain rfl := eq_nil_of_length_eq_zero hlen
      exact ⟨rfl, rfl⟩
  | succ n ih =>
    rw [readRepeated]
    refine (h.bind fun a => ih.bind fun as => Exact.pure (a :: as)).congr fun as text => ?_
    constructor
    · rintro ⟨a, _, _, ⟨ha, rfl⟩, ⟨as', _, _, ⟨rfl, has, rfl⟩, ⟨rfl, rfl⟩, rfl⟩, rfl⟩
      exact ⟨rfl, forall_mem_cons.mpr ⟨ha, has⟩, by rw [append_nil, flatMap_cons]⟩
    · rintro ⟨hlen, hall, rfl⟩
      cases as with
      | nil => cases hlen
      | cons a as =>
        obtain ⟨ha, has⟩ := forall_mem_cons.mp hall
        exact ⟨a, _, _, ⟨ha, rfl⟩, ⟨as, _, _, ⟨Nat.succ.inj hlen, has, rfl⟩, ⟨rfl, rfl⟩, rfl⟩,
          by rw [append_nil, flatMap_cons]⟩

end Kds.Lib
