/-
  Kds.Exec.IndexKeyOrder

  Index keys against the executor's own comparison.  The keys of two stored values are ordered as
  the values compare, exactly, but for texts, of which a key holds the first bytes and zeros past
  the end (`compareValues_of_key`, `text_of_key`).  A composite key compares column by column, and a
  key of its first columns is its first bytes (`encodeIndexKey_order`, `encodeIndexKey_take`).  So
  the bounds that a probe encodes hold between them the sort key of every row that satisfies the
  predicates they were taken from (`encodeBounds_hold`, `correlatedBounds_hold`).
-/

import Kds.Exec.LiteralCoercion

namespace Kds.Lib

open List

variable {a b : Bytes}

theorem memcmp_append (hlen : a.length = b.length) (c d : Bytes) :
    memcmp (a ++ c) (b ++ d) = (memcmp a b).then (memcmp c d) := by
  induction a generalizing b with
  | nil =>
    obtain rfl := length_eq_zero_iff.mp hlen.symm
    rfl
  | cons x xs ih =>
    obtain ⟨y, ys, rfl⟩ := exists_cons_of_length_eq_add_one (hlen.symm.trans rfl)
    rw [cons_append, cons_append, memcmp, memcmp]
    by_cases hlt : x < y
    · rw [if_pos hlt, if_pos hlt]
      rfl
    · rw [if_neg hlt, if_neg hlt]
      by_cases hgt : y < x
      · rw [if_pos hgt, if_pos hgt]
        rfl
      · rw [if_neg hgt, if_neg hgt]
        exact ih (by simpa using hlen)

theorem zeroPad_eq_iff {width : Nat} :
    zeroPad width a = zeroPad width b ↔ ∀ i, i < width → a.getD i 0 = b.getD i 0 := by
  induction width generalizing a b with
  | zero => exact iff_of_true rfl fun i hi => absurd hi (Nat.not_lt_zero i)
  | succ width ih =>
    have hhead : ∀ s : Bytes, zeroPad (width + 1) s = s.getD 0 0 :: zeroPad width s.tail := by
      intro s
      cases s <;> rfl
    have htail : ∀ (s : Bytes) (i : Nat), s.getD (i + 1) 0 = s.tail.getD i 0 := by
      intro s i
      cases s <;> rfl
    rw [hhead a, hhead b, List.cons.injEq, ih]
    constructor
    · rintro ⟨hfirst, hrest⟩ i hi
      cases i with
      | zero => exact hfirst
      | succ i =>
        rw [htail, htail]
        exact hrest i (by omega)
    · intro h
      refine ⟨h 0 (Nat.succ_pos width), fun i hi => ?_⟩
      rw [← htail, ← htail]
      exact h (i + 1) (by omega)

end Kds.Lib

namespace Kds.Exec.Codec

open Lib

-- The encoding of a key

def kIndexPkWidth : Nat := 8

/-- The loop of `IndexKeyWidth`. -/
def sumKeyWidths : List SysColumnRow → StatusOr Nat
  | [] => .ok 0
  | col :: cols => do
    let width ← indexKeyColumnWidth col
    let rest ← sumKeyWidths cols
    .ok (width + rest)

/-- `IndexKeyWidth`. -/
def indexKeyWidth (keyCols : List SysColumnRow) : StatusOr Nat :=
  if keyCols = [] then .error (.invalidArgument "an index needs at least one key column")
  else sumKeyWidths keyCols

/-- The loop of `EncodeIndexKey`, from a byte of the buffer on. -/
def encodeKeyFrom (outSize given : Nat) : Nat → List SysColumnRow → List AstValue → StatusOr Bytes
  | pos, col :: cols, value :: values => do
    let width ← indexKeyColumnWidth col
    if outSize < pos + width then
      .error (.invalidArgument ("index key buffer is " ++ toString outSize ++
        " bytes, too small for the first " ++ toString given ++ " columns"))
    else do
      let key ← encodeIndexKeyColumn col value
      let rest ← encodeKeyFrom outSize given (pos + width) cols values
      .ok (key ++ rest)
  | pos, _, _ =>
    if pos ≠ outSize then
      .error (.invalidArgument ("index key encoded to " ++ toString pos ++
        " bytes but the buffer is " ++ toString outSize))
    else .ok []

/-- `EncodeIndexKey`, into a buffer of so many bytes. -/
def encodeIndexKey (keyCols : List SysColumnRow) (values : List AstValue) (outSize : Nat) :
    StatusOr Bytes :=
  if keyCols.length < values.length then
    .error (.invalidArgument ("index key has " ++ toString keyCols.length ++ " columns but " ++
      toString values.length ++ " values were given"))
  else encodeKeyFrom outSize values.length 0 keyCols values

-- The bounds of a probe

/-- A conjunct of a step's residual that compares a column of its own with a literal. -/
structure LiteralPredicate where
  colPos : Nat
  op : CompareOp
  literal : AstValue

/-- `EqualityOnColumn`: the first one; a parameter never enters an index. -/
def equalityOnColumn (residual : List LiteralPredicate) (colPos : Nat) : Option AstValue :=
  (residual.find? fun pred =>
    decide (pred.op = .eq ∧ pred.colPos = colPos ∧ pred.literal.type ≠ .param)).map (·.literal)

/-- `BoundsOnColumn`: the last inclusive bounds. -/
def boundsOnColumn (residual : List LiteralPredicate) (colPos : Nat) :
    Option AstValue × Option AstValue :=
  residual.foldl (fun out pred =>
    if pred.colPos ≠ colPos ∨ pred.literal.type = .param then out
    else if pred.op = .gte then (some pred.literal, out.2)
    else if pred.op = .lte then (out.1, some pred.literal)
    else out) (none, none)

/-- The literals a probe encodes, column by column: an equality's twice, while there is one, and
    then the bounds of a range, if both are there. -/
def probeLiterals (residual : List LiteralPredicate) :
    List Nat → List (Nat × AstValue × AstValue)
  | [] => []
  | colPos :: keys =>
    match equalityOnColumn residual colPos with
    | some literal => (colPos, literal, literal) :: probeLiterals residual keys
    | none =>
      match boundsOnColumn residual colPos with
      | (some low, some high) => [(colPos, low, high)]
      | _ => []

/-- The encoding loop of `IndexProbeOf`, over the templates `low` and `high`: `none` where a width
    does not fit or the encoder refuses a literal. -/
def encodeBounds (columns : Nat → SysColumnRow) (keyWidth : Nat) :
    Nat → List (Nat × AstValue × AstValue) → Option (Bytes × Bytes)
  | pos, [] =>
    some (List.replicate (keyWidth + kIndexPkWidth - pos) 0,
      List.replicate (keyWidth + kIndexPkWidth - pos) 255)
  | pos, (colPos, low, high) :: later =>
    match indexKeyColumnWidth (columns colPos) with
    | .error _ => none
    | .ok width =>
      if keyWidth < pos + width then none
      else
        match encodeIndexKeyColumn (columns colPos) low,
            encodeIndexKeyColumn (columns colPos) high,
            encodeBounds columns keyWidth (pos + width) later with
        | .ok lowKey, .ok highKey, some rest => some (lowKey ++ rest.1, highKey ++ rest.2)
        | _, _, _ => none

/-- `IndexProbeOf`, of one index: the low and the high sort key, where the index can be entered. -/
def probeBounds (columns : Nat → SysColumnRow) (keys : List Nat) (keyWidth : Nat)
    (residual : List LiteralPredicate) : Option (Bytes × Bytes) :=
  match probeLiterals residual keys with
  | [] => none
  | literals => encodeBounds columns keyWidth 0 literals

/-- `CorrelatedIndexProbeOf`, of one index, and the bounds `RunIndexStep` makes of an outer row's
    value: the equality is on the leading column. -/
def correlatedBounds (columns : Nat → SysColumnRow) (keys : List Nat) (keyWidth : Nat)
    (value : AstValue) : Option (Bytes × Bytes) :=
  match keys with
  | [] => none
  | colPos :: _ => encodeBounds columns keyWidth 0 [(colPos, value, value)]

def sameDescriptor (a b : SysColumnRow) : Prop := a.typeVal = b.typeVal ∧ a.len = b.len

-- Stored values

/-- What holds of every value that a column's row holds: it is of the column's type and fits it. -/
structure InStorage (col : SysColumnRow) (kind : ColumnKind) (a : AstValue) : Prop where
  fits : AstValue.Fits a
  type : a.type = kindType kind
  holds : match kind with
    | .signed width => fitsSigned a.intVal width.bytes = true
    | .date => fitsSigned a.intVal 4 = true
    | .bool => a.intVal = 0 ∨ a.intVal = 1
    | .uint64 => ∃ n, valueAsUint64 a = some n
    | .decimal | .decimalWide => a.scale = decimalScaleOf col.len
    | .timestamp | .char | .varchar => True

section Stored

variable {lits : TypeLiterals} {inlineCellWidth : Nat} {col : SysColumnRow} {kind : ColumnKind}

theorem fitsSigned_getSigned (width : IntWidth) (bytes : Bytes) :
    fitsSigned (getSigned width.bytes bytes) width.bytes = true := by
  have hlt := load_zero_lt width.bytes bytes
  rw [fitsSigned, decide_eq_true_eq, getSigned]
  cases width <;> simp only [IntWidth.bytes] at hlt ⊢ <;> split_ifs <;> omega

variable {heap : VarHeap} {cell : StoredCell}

theorem valueAsUint64_of_bytes (bytes : Bytes) :
    valueAsUint64 (uint64Cell bytes).val = some (load 8 bytes 0) := by
  have hlt := load_zero_lt 8 bytes
  rw [uint64Cell_val]
  by_cases hsmall : load 8 bytes 0 < 2 ^ 63
  · rw [if_pos hsmall, valueAsUint64, if_neg (fun hne => hne rfl), if_neg (fun hne => hne rfl),
      if_neg (show ¬ (AstValue.ofInt (load 8 bytes 0)).intVal < 0 from
        Int.not_lt.mpr (Int.natCast_nonneg _))]
    rfl
  · have htext := parseUint64Text_decimalText hlt
    have hne : decimalText (load 8 bytes 0) ≠ [] := fun hnil => by rw [hnil] at htext; cases htext
    rw [if_neg hsmall, valueAsUint64, if_neg (fun hne => hne rfl), if_pos hne]
    exact htext

variable {w : Cell}

theorem decodeStored_varchar
    (hkind : col.kind = some .varchar) (h : decodeStored heap col (some cell) = .ok w) :
    ∃ text, w = strCell text := by
  rw [decodeStored, decodeOneValueInto, hkind] at h
  obtain ⟨out, hout, h⟩ := bind_eq_ok.mp h
  cases cell with
  | fixed bytes => cases hout
  | inlined text =>
    cases hout
    exact ⟨text, (Except.ok.inj h).symm⟩
  | spilled len ptr =>
    cases hout
    dsimp only at h
    rw [resolveSpill] at h
    split at h
    · cases h
    · next text _ =>
      split_ifs at h
      exact ⟨text, (Except.ok.inj h).symm⟩

theorem fits_of_cell (hdecHi : w.val.decHi = 0) : AstValue.Fits w.val :=
  ⟨w.property.intRange, by rw [hdecHi]; decide⟩

theorem StoredIn.inStorage (h : StoredIn lits inlineCellWidth col w)
    (hkind : col.kind = some kind) : InStorage col kind w.val := by
  obtain ⟨u, heap, cell, heap', hcell, hsame⟩ := h.source hkind
  obtain ⟨u', heap₁, cell', heap₁', hfits, hencode, hdecode⟩ := id h
  obtain ⟨-, -, kind', hkind', hcell'⟩ := encodeOneValue_eq_ok hencode
  cases hkind.symm.trans hkind'
  by_cases hvarchar : kind = .varchar
  · subst hvarchar
    obtain ⟨text, rfl⟩ := decodeStored_varchar hkind hdecode
    exact ⟨fits_of_cell rfl, rfl, trivial⟩
  · obtain ⟨bytes, rfl, -⟩ := hcell'.fixed_length hvarchar hkind
    have hread : ∀ d, decodeByKind col kind (.fixed bytes) = .ok (.value d) → w = d := by
      intro d hd
      rw [decodeStored, decodeOneValueInto, hkind] at hdecode
      dsimp only at hdecode
      rw [hd] at hdecode
      exact (Except.ok.inj hdecode).symm
    cases kind with
    | varchar => exact absurd rfl hvarchar
    | signed width =>
      obtain rfl := hread _ rfl
      exact ⟨fits_of_cell rfl, rfl, fitsSigned_getSigned width bytes⟩
    | date =>
      obtain rfl := hread _ rfl
      exact ⟨fits_of_cell rfl, rfl, fitsSigned_getSigned .w32 bytes⟩
    | timestamp =>
      obtain rfl := hread _ rfl
      exact ⟨fits_of_cell rfl, rfl, trivial⟩
    | uint64 =>
      obtain rfl := hread _ rfl
      have hval := valueAsUint64_of_bytes bytes
      refine ⟨fits_of_cell ?_, ?_, _, hval⟩
      · rw [uint64Cell_val]
        split_ifs <;> rfl
      · rw [uint64Cell_val]
        split_ifs <;> rfl
    | bool =>
      obtain rfl := hread _ rfl
      refine ⟨fits_of_cell rfl, rfl, ?_⟩
      obtain ⟨-, -, hval⟩ := hsame u rfl
      cases hcell with | bool _ hbit =>
      show (boolCell bytes).val.intVal = 0 ∨ (boolCell bytes).val.intVal = 1
      rw [hval]
      omega
    | char =>
      obtain rfl := hread _ rfl
      exact ⟨fits_of_cell rfl, rfl, trivial⟩
    | decimal =>
      obtain rfl := hread _ rfl
      exact ⟨fits_of_cell rfl, rfl, rfl⟩
    | decimalWide =>
      obtain rfl := hread _ rfl
      exact ⟨⟨getSigned_range .w64 _, getSigned_range .w64 _⟩, rfl, rfl⟩

variable {a : AstValue}

theorem InStorage.of_sameDescriptor {other : SysColumnRow}
    (h : InStorage other kind a) (hsame : sameDescriptor col other) : InStorage col kind a := by
  refine ⟨h.fits, h.type, ?_⟩
  rw [hsame.2]
  exact h.holds

theorem InStorage.exists_key (h : InStorage col kind a)
    (hkind : col.kind = some kind) {width : Nat} (hwidth : indexKeyColumnWidth col = .ok width) :
    ∃ key, encodeIndexKeyColumn col a = .ok key := by
  have htype := h.type
  have hpayload : ∃ payload, encodeKeyPayload col a kind = .ok payload := by
    have hsigned : ∀ {w : Nat}, a.type = .int → fitsSigned a.intVal w = true →
        ∃ payload, encodeSignedInt col a w = .ok payload := by
      intro w htype hfits
      rw [encodeSignedInt, if_neg (not_not_intro htype), if_pos hfits]
      exact ⟨_, rfl⟩
    have hstring : ∀ {w : Nat}, a.type = .str → ∃ payload, encodeString col a w = .ok payload := by
      intro w htype
      rw [encodeString, if_neg (not_not_intro htype)]
      exact ⟨_, rfl⟩
    cases kind with
    | signed w => exact hsigned htype h.holds
    | date => exact hsigned htype h.holds
    | timestamp => exact hsigned htype (fitsSigned_int64 h.fits.intVal)
    | char => exact hstring htype
    | varchar => exact hstring htype
    | bool =>
      have hbit : a.intVal = 0 ∨ a.intVal = 1 := h.holds
      rw [encodeKeyPayload, if_neg]
      · exact ⟨_, rfl⟩
      · rw [not_or]
        exact ⟨not_not_intro htype, by omega⟩
    | uint64 =>
      obtain ⟨n, hn⟩ := h.holds
      have hint : a.type = .int := htype
      rw [encodeKeyPayload, if_neg (not_not_intro hint), hn]
      exact ⟨_, rfl⟩
    | decimal =>
      have hdec : a.type = .decimal := htype
      have hscale : a.scale = decimalScaleOf col.len := h.holds
      rw [encodeKeyPayload, if_neg (not_not_intro hdec), if_neg (not_not_intro hscale)]
      exact ⟨_, rfl⟩
    | decimalWide =>
      have hdec : a.type = .decimalWide := htype
      have hscale : a.scale = decimalScaleOf col.len := h.holds
      rw [encodeKeyPayload, if_neg (not_not_intro hdec), if_neg (not_not_intro hscale)]
      exact ⟨_, rfl⟩
  obtain ⟨payload, hpayload⟩ := hpayload
  have hnull : a.type ≠ .null := by
    rw [htype]
    cases kind <;> simp [kindType]
  rw [encodeIndexKeyColumn, hwidth]
  show ∃ key, (if a.type = .null then _ else _) = _
  rw [if_neg hnull, hkind]
  dsimp only
  rw [hpayload]
  exact ⟨_, rfl⟩

end Stored

-- One column

/-- What `memcmp` says of an operator. -/
def orderingMeets (o : Ordering) : CompareOp → Bool
  | .eq => o = .eq
  | .neq => o ≠ .eq
  | .lt => o = .lt
  | .lte => o ≠ .gt
  | .gt => o = .gt
  | .gte => o ≠ .lt
  | .isNull | .isNotNull => false

/-- A column whose key holds the whole value. -/
def ColumnKind.Exact (kind : ColumnKind) : Prop := kind ≠ .char ∧ kind ≠ .varchar

section Order

variable {lits : TypeLiterals} {inlineCellWidth : Nat} {col : SysColumnRow} {kind : ColumnKind}
  {a b : AstValue} {ka kb : Bytes}

variable {o : Ordering}

theorem applyCompare_int {x y : Int} (hle : x ≤ y ↔ o ≠ .gt) (hge : y ≤ x ↔ o ≠ .lt)
    (op : CompareOp) : applyCompare x y op = orderingMeets o op := by
  cases o <;> simp at hle hge <;> cases op <;> simp [applyCompare, orderingMeets] <;> omega

theorem applyCompare_nat {x y : Nat} (hle : x ≤ y ↔ o ≠ .gt) (hge : y ≤ x ↔ o ≠ .lt)
    (op : CompareOp) : applyCompare x y op = orderingMeets o op := by
  cases o <;> simp at hle hge <;> cases op <;> simp [applyCompare, orderingMeets] <;> omega

theorem InStorage.keyLE_total (ha : InStorage col kind a) (hb : InStorage col kind b)
    (hexact : kind.Exact) : KeyLE kind a b ∨ KeyLE kind b a := by
  cases kind with
  | char => exact absurd rfl hexact.1
  | varchar => exact absurd rfl hexact.2
  | uint64 =>
    obtain ⟨m, hm⟩ := ha.holds
    obtain ⟨n, hn⟩ := hb.holds
    rcases Nat.le_total m n with hle | hle
    · exact .inl ⟨m, n, hm, hn, hle⟩
    · exact .inr ⟨n, m, hn, hm, hle⟩
  | decimalWide => exact Int.le_total _ _
  | _ => exact Int.le_total a.intVal b.intVal

theorem keyLE_of_key_eq (hexact : kind.Exact) (ha : InStorage col kind a)
    (hb : InStorage col kind b)
    (hpa : encodeKeyPayload col a kind = .ok ka) (hpb : encodeKeyPayload col b kind = .ok ka) :
    KeyLE kind a b := by
  have hsigned : ∀ {width : Nat}, 0 < width → encodeSignedInt col a width = .ok ka →
      encodeSignedInt col b width = .ok ka → a.intVal = b.intVal := by
    intro width hwidth hpa hpb
    obtain ⟨-, hfa, hka⟩ := encodeSignedInt_eq_ok hpa
    obtain ⟨-, hfb, hkb⟩ := encodeSignedInt_eq_ok hpb
    exact signFlipped_inj hwidth hfa hfb (hka.symm.trans hkb)
  cases kind with
  | char => exact absurd rfl hexact.1
  | varchar => exact absurd rfl hexact.2
  | signed width => exact Int.le_of_eq (hsigned (by cases width <;> decide) hpa hpb)
  | date => exact Int.le_of_eq (hsigned (by decide) hpa hpb)
  | timestamp => exact Int.le_of_eq (hsigned (by decide) hpa hpb)
  | bool =>
    obtain ⟨-, hbitA, hka⟩ := encodeKeyPayload_bool hpa
    obtain ⟨-, hbitB, hkb⟩ := encodeKeyPayload_bool hpb
    have hsame := putBE_inj (hka.symm.trans hkb)
    show a.intVal ≤ b.intVal
    omega
  | uint64 =>
    obtain ⟨-, m, hm, hka⟩ := encodeKeyPayload_uint64 hpa
    obtain ⟨-, n, hn, hkb⟩ := encodeKeyPayload_uint64 hpb
    have hsame := putBE_inj (hka.symm.trans hkb)
    have hmlt := (valueAsUint64_lt ha.fits hm).2
    have hnlt := (valueAsUint64_lt hb.fits hn).2
    exact ⟨m, n, hm, hn, by omega⟩
  | decimal =>
    have hka := (encodeKeyPayload_decimal hpa).2.2
    have hkb := (encodeKeyPayload_decimal hpb).2.2
    exact Int.le_of_eq (signFlipped_inj (by decide) (fitsSigned_int64 ha.fits.intVal)
      (fitsSigned_int64 hb.fits.intVal) (hka.symm.trans hkb))
  | decimalWide =>
    have hka := (encodeKeyPayload_decimalWide hpa).2.2
    have hkb := (encodeKeyPayload_decimalWide hpb).2.2
    obtain ⟨hhigh, hlow⟩ := List.append_inj (hka.symm.trans hkb)
      (by rw [length_putBE, length_putBE])
    have hhi := signFlipped_inj (by decide) (fitsSigned_int64 ha.fits.decHi)
      (fitsSigned_int64 hb.fits.decHi) hhigh
    have hlo := putBE_inj hlow
    show a.decHi * 2 ^ 64 + a.intVal % 2 ^ 64 ≤ b.decHi * 2 ^ 64 + b.intVal % 2 ^ 64
    omega

theorem keyLE_iff (hkind : col.kind = some kind) (hexact : kind.Exact) (ha : InStorage col kind a)
    (hb : InStorage col kind b) (hka : encodeIndexKeyColumn col a = .ok ka)
    (hkb : encodeIndexKeyColumn col b = .ok kb) : KeyLE kind a b ↔ memcmpLE ka kb := by
  constructor
  · exact fun hle => encodeIndexKeyColumn_le hkind ha.fits hb.fits hle hka hkb
  · intro hmem
    rcases ha.keyLE_total hb hexact with hle | hge
    · exact hle
    · have hback := encodeIndexKeyColumn_le hkind hb.fits ha.fits hge hkb hka
      obtain ⟨-, kind', pa, width, hkind', hwidth, -, hpa, rfl⟩ := encodeIndexKeyColumn_eq_ok hka
      cases hkind.symm.trans hkind'
      obtain ⟨-, kind'', pb, -, hkind'', -, -, hpb, rfl⟩ := encodeIndexKeyColumn_eq_ok hkb
      cases hkind.symm.trans hkind''
      have hlength := (length_encodeIndexKeyColumn hwidth hka).trans
        (length_encodeIndexKeyColumn hwidth hkb).symm
      obtain rfl := (List.cons.inj (memcmpLE_antisymm hlength hmem hback)).2
      exact keyLE_of_key_eq hexact ha hb hpa hpb

theorem compareValues_of_key (hkind : col.kind = some kind) (hexact : kind.Exact)
    (ha : InStorage col kind a) (hb : InStorage col kind b)
    (hka : encodeIndexKeyColumn col a = .ok ka) (hkb : encodeIndexKeyColumn col b = .ok kb)
    {op : CompareOp} (hop : op ≠ .isNull ∧ op ≠ .isNotNull) :
    compareValues col.typeVal a b op = orderingMeets (memcmp ka kb) op := by
  have hscale : kind = .decimal ∨ kind = .decimalWide → a.scale = b.scale := by
    rintro (rfl | rfl)
    · exact Eq.trans ha.holds (Eq.symm hb.holds)
    · exact Eq.trans ha.holds (Eq.symm hb.holds)
  have hle := keyLE_iff hkind hexact ha hb hka hkb
  have hge := (keyLE_iff hkind hexact hb ha hkb hka).trans memcmp_ne_lt.symm
  rw [compareValues_eq_kindCompare hkind ha.type hb.type hscale hop]
  cases kind with
  | char => exact absurd rfl hexact.1
  | varchar => exact absurd rfl hexact.2
  | uint64 =>
    obtain ⟨m, hm⟩ := ha.holds
    obtain ⟨n, hn⟩ := hb.holds
    rw [kindCompare, hm, hn]
    refine applyCompare_nat (Iff.trans ?_ hle) (Iff.trans ?_ hge) op
    · refine ⟨fun h => ⟨m, n, hm, hn, h⟩, ?_⟩
      rintro ⟨m', n', hm', hn', h⟩
      cases hm.symm.trans hm'
      cases hn.symm.trans hn'
      exact h
    · refine ⟨fun h => ⟨n, m, hn, hm, h⟩, ?_⟩
      rintro ⟨n', m', hn', hm', h⟩
      cases hm.symm.trans hm'
      cases hn.symm.trans hn'
      exact h
  | decimalWide => exact applyCompare_int hle hge op
  | _ => exact applyCompare_int hle hge op

/-- **Texts in order have keys in order**, which are one where their first bytes agree, zeros past
    the end. -/
theorem text_of_key (hkind : col.kind = some kind) (htext : ¬ kind.Exact)
    (ha : InStorage col kind a) (hb : InStorage col kind b) {width : Nat}
    (hwidth : indexKeyColumnWidth col = .ok width) (hka : encodeIndexKeyColumn col a = .ok ka)
    (hkb : encodeIndexKeyColumn col b = .ok kb) :
    (compareValues col.typeVal a b .lte = true → memcmpLE ka kb) ∧
      (ka = kb ↔ ∀ i, i + 1 < width → a.strVal.getD i 0 = b.strVal.getD i 0) := by
  refine ⟨fun h => encodeIndexKeyColumn_le hkind ha.fits hb.fits
    (keyLE_of_compare hkind ha.type hb.type h) hka hkb, ?_⟩
  obtain ⟨-, kind', pa, width', hkind', hwidth', hpayload, hpa, rfl⟩ :=
    encodeIndexKeyColumn_eq_ok hka
  cases hkind.symm.trans hkind'
  obtain ⟨-, kind'', pb, -, hkind'', -, -, hpb, rfl⟩ := encodeIndexKeyColumn_eq_ok hkb
  cases hkind.symm.trans hkind''
  cases hwidth'.symm.trans hwidth
  have htexts : pa = zeroPad width' a.strVal ∧ pb = zeroPad width' b.strVal := by
    have hlen := length_encodeKeyPayload hpayload hpa
    have hstring : ∀ {w : Nat}, encodeString col a w = .ok pa → encodeString col b w = .ok pb →
        pa = zeroPad width' a.strVal ∧ pb = zeroPad width' b.strVal := by
      intro w hpa hpb
      obtain ⟨-, hpa⟩ := encodeString_eq_ok hpa
      obtain ⟨-, hpb⟩ := encodeString_eq_ok hpb
      rw [hpa, length_zeroPad] at hlen
      rw [← hlen]
      exact ⟨hpa, hpb⟩
    rw [ColumnKind.Exact, not_and_or, not_not, not_not] at htext
    rcases htext with rfl | rfl
    · exact hstring hpa hpb
    · exact hstring hpa hpb
  rw [htexts.1, htexts.2, List.cons.injEq, and_iff_right rfl, zeroPad_eq_iff]
  simp only [Nat.add_lt_add_iff_right]

end Order

-- Composite keys

/-- Column by column: the first column whose keys differ decides. -/
def columnOrder : List SysColumnRow → List AstValue → List AstValue → Ordering
  | col :: cols, a :: as, b :: bs =>
    (memcmp ((encodeIndexKeyColumn col a).toOption.getD [])
      ((encodeIndexKeyColumn col b).toOption.getD [])).then (columnOrder cols as bs)
  | _, _, _ => .eq

section Composite

variable {col : SysColumnRow} {cols : List SysColumnRow} {value : AstValue}
  {values values' : List AstValue} {outSize given pos : Nat} {key key' : Bytes}

theorem encodeKeyFrom_cons
    (h : encodeKeyFrom outSize given pos (col :: cols) (value :: values) = .ok key) :
    ∃ width first rest, indexKeyColumnWidth col = .ok width ∧ pos + width ≤ outSize ∧
      encodeIndexKeyColumn col value = .ok first ∧ first.length = width ∧
      encodeKeyFrom outSize given (pos + width) cols values = .ok rest ∧ key = first ++ rest := by
  rw [encodeKeyFrom] at h
  obtain ⟨width, hwidth, h⟩ := bind_eq_ok.mp h
  split_ifs at h with hsmall
  obtain ⟨first, hfirst, h⟩ := bind_eq_ok.mp h
  obtain ⟨rest, hrest, h⟩ := bind_eq_ok.mp h
  exact ⟨width, first, rest, hwidth, Nat.not_lt.mp hsmall, hfirst,
    length_encodeIndexKeyColumn hwidth hfirst, hrest, (Except.ok.inj h).symm⟩

theorem encodeKeyFrom_take (h : encodeKeyFrom outSize given pos cols values = .ok key)
    (given' k : Nat) :
    ∃ n, encodeKeyFrom (pos + n) given' pos cols (values.take k) = .ok (key.take n) := by
  induction cols generalizing pos values key k with
  | nil =>
    refine ⟨0, ?_⟩
    rw [encodeKeyFrom]
    · exact if_neg (not_not_intro rfl)
    · simp
  | cons col cols ih =>
    have hnone : ∃ n, encodeKeyFrom (pos + n) given' pos (col :: cols) [] = .ok (key.take n) :=
      ⟨0, by rw [encodeKeyFrom]; exact if_neg (not_not_intro rfl); simp⟩
    cases values with
    | nil =>
      rw [List.take_nil]
      exact hnone
    | cons value values =>
      cases k with
      | zero =>
        rw [List.take_zero]
        exact hnone
      | succ k =>
        obtain ⟨width, first, rest, hwidth, -, hfirst, hlength, hrest, rfl⟩ :=
          encodeKeyFrom_cons h
        obtain ⟨n, hn⟩ := ih hrest k
        refine ⟨width + n, ?_⟩
        rw [List.take_succ_cons, encodeKeyFrom, hwidth, ← hlength, List.take_length_add_append]
        show (if _ then _ else _) = _
        rw [if_neg (by omega), hfirst]
        rw [← hlength, Nat.add_assoc] at hn
        show encodeKeyFrom _ _ _ _ _ >>= _ = _
        rw [hn]
        rfl

theorem encodeIndexKey_take (h : encodeIndexKey cols values outSize = .ok key) (k : Nat) :
    ∃ n, encodeIndexKey cols (values.take k) n = .ok (key.take n) := by
  rw [encodeIndexKey] at h
  split_ifs at h with hmany
  obtain ⟨n, hn⟩ := encodeKeyFrom_take h (values.take k).length k
  rw [Nat.zero_add] at hn
  refine ⟨n, ?_⟩
  rw [encodeIndexKey, if_neg]
  · exact hn
  · rw [List.length_take]
    omega

theorem encodeKeyFrom_order (hlength : values.length = values'.length)
    (h : encodeKeyFrom outSize given pos cols values = .ok key)
    (h' : encodeKeyFrom outSize given pos cols values' = .ok key') :
    memcmp key key' = columnOrder cols values values' := by
  have hend : ∀ {cols : List SysColumnRow} {pos : Nat} {key : Bytes},
      encodeKeyFrom outSize given pos cols [] = .ok key → key = [] := by
    intro cols pos key h
    cases cols <;> rw [encodeKeyFrom] at h
    · split_ifs at h
      exact (Except.ok.inj h).symm
    · simp
    · split_ifs at h
      exact (Except.ok.inj h).symm
    · simp
  induction cols generalizing pos values values' key key' with
  | nil =>
    have hnil : ∀ {values : List AstValue} {key : Bytes},
        encodeKeyFrom outSize given pos [] values = .ok key → key = [] := by
      intro values key h
      rw [encodeKeyFrom] at h
      · split_ifs at h
        exact (Except.ok.inj h).symm
      · simp
    rw [hnil h, hnil h']
    rfl
  | cons col cols ih =>
    cases values with
    | nil =>
      obtain rfl := List.eq_nil_of_length_eq_zero hlength.symm
      rw [hend h, hend h']
      rfl
    | cons value values =>
      obtain ⟨value', values', rfl⟩ := List.exists_cons_of_length_eq_add_one
        (hlength.symm.trans rfl)
      obtain ⟨width, first, rest, hwidth, -, hfirst, hlen, hrest, rfl⟩ := encodeKeyFrom_cons h
      obtain ⟨width', first', rest', hwidth', -, hfirst', hlen', hrest', rfl⟩ :=
        encodeKeyFrom_cons h'
      cases hwidth.symm.trans hwidth'
      rw [memcmp_append (hlen.trans hlen'.symm), columnOrder, hfirst, hfirst',
        ih (by simpa using hlength) hrest hrest']
      rfl

theorem encodeIndexKey_order (hlength : values.length = values'.length)
    (h : encodeIndexKey cols values outSize = .ok key)
    (h' : encodeIndexKey cols values' outSize = .ok key') :
    memcmp key key' = columnOrder cols values values' := by
  rw [encodeIndexKey] at h h'
  split_ifs at h h'
  rw [← hlength] at h'
  exact encodeKeyFrom_order hlength h h'

end Composite

-- Probes

section Probe

variable {lits : TypeLiterals} {inlineCellWidth : Nat} {columns : Nat → SysColumnRow}
  {residual : List LiteralPredicate} {row : Nat → Cell} {keys : List Nat} {keyWidth given pos : Nat}
  {key low high pk : Bytes}

/-- The row satisfies every conjunct. -/
def Satisfies (columns : Nat → SysColumnRow) (row : Nat → Cell)
    (residual : List LiteralPredicate) : Prop :=
  ∀ pred ∈ residual, compareValues (columns pred.colPos).typeVal (row pred.colPos).val pred.literal
    pred.op = true

variable {colPos : Nat}

theorem equalityOnColumn_spec {literal : AstValue}
    (h : equalityOnColumn residual colPos = some literal) :
    ∃ pred ∈ residual, pred.op = .eq ∧ pred.colPos = colPos ∧ pred.literal = literal := by
  rw [equalityOnColumn, Option.map_eq_some_iff] at h
  obtain ⟨pred, hfind, rfl⟩ := h
  have hmatch := List.find?_some hfind
  rw [decide_eq_true_eq] at hmatch
  exact ⟨pred, List.mem_of_find?_eq_some hfind, hmatch.1, hmatch.2.1, rfl⟩

theorem boundsOnColumn_spec {low high : AstValue}
    (h : boundsOnColumn residual colPos = (some low, some high)) :
    (∃ pred ∈ residual, pred.op = .gte ∧ pred.colPos = colPos ∧ pred.literal = low) ∧
      ∃ pred ∈ residual, pred.op = .lte ∧ pred.colPos = colPos ∧ pred.literal = high := by
  -- whatever the fold has come to was taken from a conjunct, or was there before
  have hfold : ∀ (preds : List LiteralPredicate) (start : Option AstValue × Option AstValue),
      (∀ pred ∈ preds, pred ∈ residual) →
      (∀ v, start.1 = some v → ∃ pred ∈ residual, pred.op = .gte ∧ pred.colPos = colPos ∧
        pred.literal = v) →
      (∀ v, start.2 = some v → ∃ pred ∈ residual, pred.op = .lte ∧ pred.colPos = colPos ∧
        pred.literal = v) →
      ∀ out, preds.foldl (fun out pred =>
        if pred.colPos ≠ colPos ∨ pred.literal.type = .param then out
        else if pred.op = .gte then (some pred.literal, out.2)
        else if pred.op = .lte then (out.1, some pred.literal)
        else out) start = out →
      (∀ v, out.1 = some v → ∃ pred ∈ residual, pred.op = .gte ∧ pred.colPos = colPos ∧
        pred.literal = v) ∧
        ∀ v, out.2 = some v → ∃ pred ∈ residual, pred.op = .lte ∧ pred.colPos = colPos ∧
          pred.literal = v := by
    intro preds
    induction preds with
    | nil =>
      rintro start - hlow hhigh out rfl
      exact ⟨hlow, hhigh⟩
    | cons pred preds ih =>
      intro start hmem hlow hhigh out hout
      rw [List.foldl_cons] at hout
      refine ih _ (fun p hp => hmem p (List.mem_cons_of_mem _ hp)) ?_ ?_ out hout
      · intro v hv
        split_ifs at hv with hother hgte hlte
        · exact hlow v hv
        · obtain ⟨hpos, -⟩ := not_or.mp hother
          exact ⟨pred, hmem pred List.mem_cons_self, hgte, not_not.mp hpos, Option.some.inj hv⟩
        · exact hlow v hv
        · exact hlow v hv
      · intro v hv
        split_ifs at hv with hother hgte hlte
        · exact hhigh v hv
        · exact hhigh v hv
        · obtain ⟨hpos, -⟩ := not_or.mp hother
          exact ⟨pred, hmem pred List.mem_cons_self, hlte, not_not.mp hpos, Option.some.inj hv⟩
        · exact hhigh v hv
  obtain ⟨hlow, hhigh⟩ := hfold residual (none, none) (fun _ hp => hp) (by simp) (by simp) _ h
  exact ⟨hlow low rfl, hhigh high rfl⟩

theorem encodeBounds_cons {lowValue highValue : AstValue} {later : List (Nat × AstValue × AstValue)}
    (h : encodeBounds columns keyWidth pos ((colPos, lowValue, highValue) :: later) =
      some (low, high)) :
    ∃ width lowKey highKey rest, indexKeyColumnWidth (columns colPos) = .ok width ∧
      encodeIndexKeyColumn (columns colPos) lowValue = .ok lowKey ∧
      encodeIndexKeyColumn (columns colPos) highValue = .ok highKey ∧
      encodeBounds columns keyWidth (pos + width) later = some rest ∧
      low = lowKey ++ rest.1 ∧ high = highKey ++ rest.2 := by
  rw [encodeBounds] at h
  rcases hwidth : indexKeyColumnWidth (columns colPos) with e | width
  · rw [hwidth] at h
    cases h
  · rw [hwidth] at h
    dsimp only at h
    split_ifs at h
    split at h
    · next lowKey highKey rest hlow hhigh hrest =>
      cases h
      exact ⟨width, lowKey, highKey, rest, rfl, hlow, hhigh, hrest, rfl, rfl⟩
    · cases h

/-- **A row that satisfies the conjuncts lies between the bounds taken from them**: column by
    column, and the padding is below and above every tail. -/
theorem encodeBounds_hold
    (hstored : ∀ colPos ∈ keys, StoredIn lits inlineCellWidth (columns colPos) (row colPos))
    (hfits : ∀ pred ∈ residual, AstValue.Fits pred.literal)
    (hmeets : Satisfies columns row residual)
    (hkey : encodeKeyFrom keyWidth given pos (keys.map columns)
      (keys.map fun colPos => (row colPos).val) = .ok key)
    (hbounds : encodeBounds columns keyWidth pos (probeLiterals residual keys) = some (low, high)) :
    memcmpLE low (key ++ pk) ∧ memcmpLE (key ++ pk) high := by
  induction keys generalizing pos key low high with
  | nil =>
    cases hbounds
    exact ⟨memcmpLE_zeros _ _, memcmpLE_ones _ _⟩
  | cons colPos keys ih =>
    obtain ⟨width, first, rest, hwidth, -, hfirst, hlen, hrest, rfl⟩ := encodeKeyFrom_cons hkey
    obtain ⟨-, kind, -, -, hkind, -, -, -, -⟩ := encodeIndexKeyColumn_eq_ok hfirst
    have hvalue := (hstored colPos List.mem_cons_self).inStorage hkind
    have hlater := fun p hp => hstored p (List.mem_cons_of_mem _ hp)
    rw [List.append_assoc]
    -- a literal with a key is of the column's type
    have htyped : ∀ {v : AstValue} {k : Bytes}, encodeIndexKeyColumn (columns colPos) v = .ok k →
        v.type = kindType kind := by
      intro v k hk
      obtain ⟨-, kind', payload, -, hkind', -, -, hpayload, -⟩ := encodeIndexKeyColumn_eq_ok hk
      cases hkind.symm.trans hkind'
      exact type_of_encodeKeyPayload hpayload
    rw [probeLiterals] at hbounds
    rcases hequal : equalityOnColumn residual colPos with _ | literal
    · rw [hequal] at hbounds
      dsimp only at hbounds
      rcases hrange : boundsOnColumn residual colPos with ⟨_ | lowValue, _ | highValue⟩
      · rw [hrange] at hbounds
        cases hbounds
        exact ⟨memcmpLE_zeros _ _, memcmpLE_ones _ _⟩
      · rw [hrange] at hbounds
        cases hbounds
        exact ⟨memcmpLE_zeros _ _, memcmpLE_ones _ _⟩
      · rw [hrange] at hbounds
        cases hbounds
        exact ⟨memcmpLE_zeros _ _, memcmpLE_ones _ _⟩
      · rw [hrange] at hbounds
        obtain ⟨width', lowKey, highKey, tails, hwidth', hlow, hhigh, htails, rfl, rfl⟩ :=
          encodeBounds_cons hbounds
        cases hwidth.symm.trans hwidth'
        obtain ⟨zeros, ones⟩ := tails
        cases htails
        obtain ⟨⟨pred, hpred, hop, rfl, rfl⟩, pred', hpred', hop', hpos', rfl⟩ :=
          boundsOnColumn_spec hrange
        have hge := hmeets pred hpred
        have hle := hmeets pred' hpred'
        rw [hop] at hge
        rw [hop', hpos'] at hle
        have hkey := keyLE_of_kindCompare (kindCompare_gte
          (compareValues_kind hkind hvalue.type (htyped hlow) (by decide) hge))
        refine ⟨memcmpLE_append ((length_encodeIndexKeyColumn hwidth hlow).trans hlen.symm)
            (encodeIndexKeyColumn_le hkind (hfits pred hpred) hvalue.fits hkey hlow hfirst)
            fun _ => memcmpLE_zeros _ _,
          memcmpLE_append (hlen.trans (length_encodeIndexKeyColumn hwidth hhigh).symm)
            (encodeIndexKeyColumn_le hkind hvalue.fits (hfits pred' hpred')
              (keyLE_of_compare hkind hvalue.type (htyped hhigh) hle) hfirst hhigh)
            fun _ => memcmpLE_ones _ _⟩
    · rw [hequal] at hbounds
      obtain ⟨width', lowKey, highKey, ⟨lowRest, highRest⟩, hwidth', hlow, hhigh, htails, rfl,
        rfl⟩ := encodeBounds_cons hbounds
      cases hwidth.symm.trans hwidth'
      cases hlow.symm.trans hhigh
      obtain ⟨pred, hpred, hop, rfl, rfl⟩ := equalityOnColumn_spec hequal
      have heq := hmeets pred hpred
      rw [hop] at heq
      have hfit := hfits pred hpred
      have hsame := keyEqual_of_compare hkind hvalue.type (htyped hlow) hvalue.fits.intVal
        hfit.intVal heq
      obtain rfl := encodeIndexKeyColumn_eq hkind hsame hfirst hlow
      obtain ⟨hlowRest, hhighRest⟩ := ih hlater hrest htails
      exact ⟨memcmpLE_append rfl (memcmpLE_refl _) fun _ => hlowRest,
        memcmpLE_append rfl (memcmpLE_refl _) fun _ => hhighRest⟩

theorem correlatedBounds_hold {other : SysColumnRow} {value : Cell}
    (hown : StoredIn lits inlineCellWidth (columns colPos) (row colPos))
    (hother : StoredIn lits inlineCellWidth other value)
    (hsame : sameDescriptor (columns colPos) other)
    (hequal : compareValues (columns colPos).typeVal (row colPos).val value.val .eq = true)
    (hkey : encodeKeyFrom keyWidth given 0 ((colPos :: keys).map columns)
      ((colPos :: keys).map fun colPos => (row colPos).val) = .ok key)
    (hbounds : correlatedBounds columns (colPos :: keys) keyWidth value.val = some (low, high)) :
    memcmpLE low (key ++ pk) ∧ memcmpLE (key ++ pk) high := by
  obtain ⟨width, first, rest, hwidth, -, hfirst, hlen, hrest, rfl⟩ := encodeKeyFrom_cons hkey
  obtain ⟨-, kind, -, -, hkind, -, -, -, -⟩ := encodeIndexKeyColumn_eq_ok hfirst
  have hotherKind : other.kind = some kind := by
    rw [SysColumnRow.kind, ← hsame.1]
    exact hkind
  have hrow := hown.inStorage hkind
  have hvalue := (hother.inStorage hotherKind).of_sameDescriptor hsame
  obtain ⟨width', lowKey, highKey, tails, hwidth', hlow, hhigh, htails, rfl, rfl⟩ :=
    encodeBounds_cons hbounds
  obtain ⟨zeros, ones⟩ := tails
  cases htails
  cases hlow.symm.trans hhigh
  have hone := keyEqual_of_compare hkind hrow.type hvalue.type hrow.fits.intVal hvalue.fits.intVal
    hequal
  obtain rfl := encodeIndexKeyColumn_eq hkind hone hfirst hlow
  rw [List.append_assoc]
  exact ⟨memcmpLE_append rfl (memcmpLE_refl _) fun _ => memcmpLE_zeros _ _,
    memcmpLE_append rfl (memcmpLE_refl _) fun _ => memcmpLE_ones _ _⟩

theorem exists_encodeKeyFrom {rest : Nat}
    (hstored : ∀ colPos ∈ keys, StoredIn lits inlineCellWidth (columns colPos) (row colPos))
    (hwidth : sumKeyWidths (keys.map columns) = .ok rest) (hsum : pos + rest = keyWidth) :
    ∃ key, encodeKeyFrom keyWidth given pos (keys.map columns)
      (keys.map fun colPos => (row colPos).val) = .ok key := by
  induction keys generalizing pos rest with
  | nil =>
    cases hwidth
    refine ⟨[], ?_⟩
    rw [List.map_nil, List.map_nil, encodeKeyFrom]
    · exact if_neg (not_not_intro hsum)
    · simp
  | cons colPos keys ih =>
    obtain ⟨width, hcol, hwidth⟩ := bind_eq_ok.mp hwidth
    obtain ⟨later, hlater, hwidth⟩ := bind_eq_ok.mp hwidth
    cases hwidth
    have hkind : ∃ kind, (columns colPos).kind = some kind := by
      rw [indexKeyColumnWidth] at hcol
      cases hkind : (columns colPos).kind with
      | none =>
        rw [hkind] at hcol
        cases hcol
      | some kind => exact ⟨kind, rfl⟩
    obtain ⟨kind, hkind⟩ := hkind
    obtain ⟨first, hfirst⟩ :=
      ((hstored colPos List.mem_cons_self).inStorage hkind).exists_key hkind hcol
    obtain ⟨key, hkey⟩ := @ih (pos + width) later
      (fun p hp => hstored p (List.mem_cons_of_mem _ hp)) hlater (by omega)
    refine ⟨first ++ key, ?_⟩
    rw [List.map_cons, List.map_cons, encodeKeyFrom, hcol]
    show (if _ then _ else _) = _
    rw [if_neg (by omega), hfirst]
    show encodeKeyFrom _ _ _ _ _ >>= _ = _
    rw [hkey]
    rfl

end Probe

-- Stored values, their keys and their rows

/-- **Index keys order rows as the executor compares them.**  Column by column the key of a stored
    value is ordered as the value; a composite key is the keys of its columns, one after another;
    and a probe's bounds hold between them every row that satisfies its predicates. -/
theorem indexKeys_ordered (lits : TypeLiterals) (inlineCellWidth : Nat) :
    (∀ (col : SysColumnRow) (kind : ColumnKind) (width : Nat) (a b : Cell),
      col.kind = some kind → indexKeyColumnWidth col = .ok width →
      StoredIn lits inlineCellWidth col a → StoredIn lits inlineCellWidth col b →
      ∃ ka kb, encodeIndexKeyColumn col a.val = .ok ka ∧ encodeIndexKeyColumn col b.val = .ok kb ∧
        (kind.Exact → ∀ op, op ≠ .isNull ∧ op ≠ .isNotNull →
          compareValues col.typeVal a.val b.val op = orderingMeets (memcmp ka kb) op) ∧
        (¬ kind.Exact → (compareValues col.typeVal a.val b.val .lte = true → memcmpLE ka kb) ∧
          (ka = kb ↔ ∀ i, i + 1 < width → a.val.strVal.getD i 0 = b.val.strVal.getD i 0))) ∧
    (∀ (cols : List SysColumnRow) (values : List AstValue) (outSize : Nat) (key : Bytes),
      encodeIndexKey cols values outSize = .ok key →
      (∀ k, ∃ n, encodeIndexKey cols (values.take k) n = .ok (key.take n)) ∧
      ∀ values' key', values.length = values'.length →
        encodeIndexKey cols values' outSize = .ok key' →
        memcmp key key' = columnOrder cols values values') ∧
    ∀ (columns : Nat → SysColumnRow) (row : Nat → Cell) (residual : List LiteralPredicate)
      (keys : List Nat) (keyWidth : Nat),
      indexKeyWidth (keys.map columns) = .ok keyWidth →
      (∀ colPos ∈ keys, StoredIn lits inlineCellWidth (columns colPos) (row colPos)) →
      (∀ pred ∈ residual, AstValue.Fits pred.literal) →
      Satisfies columns row residual →
      ∃ key, encodeIndexKey (keys.map columns) (keys.map fun colPos => (row colPos).val) keyWidth =
          .ok key ∧
        (∀ low high pk, probeBounds columns keys keyWidth residual = some (low, high) →
          memcmpLE low (key ++ pk) ∧ memcmpLE (key ++ pk) high) ∧
        ∀ colPos other value low high pk, keys.head? = some colPos →
          sameDescriptor (columns colPos) other → StoredIn lits inlineCellWidth other value →
          compareValues (columns colPos).typeVal (row colPos).val value.val .eq = true →
          correlatedBounds columns keys keyWidth value.val = some (low, high) →
          memcmpLE low (key ++ pk) ∧ memcmpLE (key ++ pk) high := by
  refine ⟨?_, ?_, ?_⟩
  · intro col kind width a b hkind hwidth ha hb
    have ha := ha.inStorage hkind
    have hb := hb.inStorage hkind
    obtain ⟨ka, hka⟩ := ha.exists_key hkind hwidth
    obtain ⟨kb, hkb⟩ := hb.exists_key hkind hwidth
    exact ⟨ka, kb, hka, hkb,
      fun hexact op hop => compareValues_of_key hkind hexact ha hb hka hkb hop,
      fun htext => text_of_key hkind htext ha hb hwidth hka hkb⟩
  · intro cols values outSize key hkey
    refine ⟨fun k => encodeIndexKey_take hkey k, fun values' key' hlength hkey' => ?_⟩
    exact encodeIndexKey_order hlength hkey hkey'
  · intro columns row residual keys keyWidth hwidth hstored hfits hmeets
    rw [indexKeyWidth] at hwidth
    split_ifs at hwidth
    obtain ⟨key, hkey⟩ := @exists_encodeKeyFrom _ _ _ _ _ _ keys.length 0 _ hstored hwidth
      (Nat.zero_add keyWidth)
    refine ⟨key, ?_, fun low high pk hbounds => ?_, ?_⟩
    · rw [encodeIndexKey, if_neg (by simp), List.length_map]
      exact hkey
    · rw [probeBounds] at hbounds
      split at hbounds
      · cases hbounds
      · exact encodeBounds_hold hstored hfits hmeets hkey hbounds
    · intro colPos other value low high pk hhead hsame hvalue hequal hbounds
      obtain ⟨later, rfl⟩ := List.head?_eq_some_iff.mp hhead
      exact correlatedBounds_hold (hstored colPos List.mem_cons_self) hvalue hsame hequal hkey
        hbounds

def varcharColumn : SysColumnRow := { name := "v", typeVal := 9 }

theorem letterText_storedIn : StoredIn noTexts 64 varcharColumn (strCell letterText.strVal) :=
  ⟨letterText, [], .inlined letterText.strVal, [], ⟨by decide, by decide⟩, by decide +kernel, rfl⟩

theorem nulText_storedIn : StoredIn noTexts 64 varcharColumn (strCell nulText.strVal) :=
  ⟨nulText, [], .inlined nulText.strVal, [], ⟨by decide, by decide⟩, by decide +kernel, rfl⟩

theorem letterText_keyOrder :
    ∃ ka kb, encodeIndexKeyColumn varcharColumn letterText = .ok ka ∧
      encodeIndexKeyColumn varcharColumn nulText = .ok kb ∧ memcmpLE ka kb := by
  obtain ⟨ka, kb, hka, hkb, -, htexts⟩ := (indexKeys_ordered noTexts 64).1 varcharColumn .varchar 33
    _ _ rfl rfl letterText_storedIn nulText_storedIn
  obtain ⟨hle, -⟩ := htexts (by rw [ColumnKind.Exact]; decide)
  exact ⟨ka, kb, hka, hkb, hle (by decide)⟩

/-- Two stored texts that differ within the bytes a key holds, and have one key. -/
theorem nulText_oneKey :
    ∃ a b : Cell, StoredIn noTexts 64 varcharColumn a ∧ StoredIn noTexts 64 varcharColumn b ∧
      a.val.strVal.take kIndexStringKeyBytes ≠ b.val.strVal.take kIndexStringKeyBytes ∧
      compareValues varcharColumn.typeVal a.val b.val .eq = false ∧
      encodeIndexKeyColumn varcharColumn a.val = encodeIndexKeyColumn varcharColumn b.val := by
  refine ⟨strCell letterText.strVal, strCell nulText.strVal, letterText_storedIn, nulText_storedIn,
    ?_, ?_, ?_⟩
  · decide
  · decide
  · decide

end Kds.Exec.Codec
