/-
  Kds.Server.StepDescriptorExact

  Which texts the decoder of a step takes, which ask for more room than there is, and which steps
  come back.
-/

import Kds.Server.StepDescriptor

namespace Kds.Server.Descriptor

open Lib List
open Exec (CompareOp)

variable {Cabin Index SubChain Build : Type}

-- What can travel

/-- A value with a text of its own: no parameter, and no string too long for its length field. -/
def AstValue.Wire (v : AstValue) : Prop :=
  v.type ≠ .param ∧ v.strVal.length < 2 ^ 32 ∧ v.rawIntText.length < 2 ^ 32

def Operand.Wire : Operand → Prop
  | .literal v => v.Wire
  | .column _ => True

def operandBytes : Operand → Bytes
  | .literal v => scalarBytes (0 : UInt8) ++ valueBytes v
  | .column c => scalarBytes (1 : UInt8) ++ columnBytes c

def predicateBytes (pred : StepPredicate) : Bytes :=
  columnBytes pred.lhs ++ (scalarBytes (opCode pred.op) ++ operandBytes pred.rhs)

/-- The predicate as it arrives. -/
def StepPredicate.onWire (pred : StepPredicate) : StepPredicate := { pred with derived := false }

/-- The step as it arrives: what is not encoded has its default. -/
def Step.onWire (step : Step Cabin Index SubChain Build) : Step Cabin Index SubChain Build :=
  { step with
    cabin := none, index := none, emitInKeyOrder := false, subChains := [], build := none
    residual := step.residual.map StepPredicate.onWire }

/-- Every list and string has a length that its field holds, and no value is a parameter. -/
structure Step.Wire (step : Step Cabin Index SubChain Build) : Prop where
  relName : step.relName.length < 2 ^ 32
  key : ∀ op ∈ step.key, op.Wire
  residual : ∀ pred ∈ step.residual, pred.rhs.Wire
  residualCount : step.residual.length < 2 ^ 32
  accessColumns : step.accessColumns.length < 2 ^ 32

/-- A text spells what stands in front of the residual: any byte but 0 flags a part that is
    there. -/
def HeadText (step : Step Cabin Index SubChain Build) (text : Bytes) : Prop :=
  step.relName.length < 2 ^ 32 ∧ (∀ op ∈ step.key, op.Wire) ∧
    ∃ keyFlag rangeFlag : UInt8, (keyFlag ≠ 0 ↔ step.key.isSome) ∧
      (rangeFlag ≠ 0 ↔ step.range.isSome) ∧
      text = headBytes step (scalarBytes keyFlag ++ step.key.elim [] operandBytes)
        (rangeBytes rangeFlag step.range)

/-- The text that is written for a step. -/
def stepBytes (step : Step Cabin Index SubChain Build) : Bytes :=
  frameBytes step (scalarBytes (if step.key.isSome then 1 else 0 : UInt8) ++
      step.key.elim [] operandBytes)
    (rangeBytes (if step.range.isSome then 1 else 0) step.range)
    (step.residual.flatMap predicateBytes)

/-- The text of a list of predicates behind its length. -/
def residualBytes (residual : List StepPredicate) : Bytes :=
  countBytes residual.length ++ residual.flatMap predicateBytes

/-- A text spells a step. -/
def StepText (step : Step Cabin Index SubChain Build) (text : Bytes) : Prop :=
  step.Wire ∧ step.onWire = step ∧ ∃ head, HeadText step head ∧
    text = scalarBytes kStepDescriptorVersion ++ (head ++ (residualBytes step.residual ++
      (countBytes step.accessColumns.length ++ step.accessColumns.flatMap scalarBytes ++
        (scalarBytes step.filterColumns ++ scalarBytes step.readColumns))))

/-- Room for the step's two lists can be reserved. -/
def Memory.Serves (mem : Memory) (step : Step Cabin Index SubChain Build) : Prop :=
  mem.residual step.residual.length = true ∧ mem.accessColumns step.accessColumns.length = true

/-- The decoder comes to a count that memory does not serve: the residual's, or behind a whole
    residual the access columns'. -/
def Overrun (Cabin Index SubChain Build : Type) (mem : Memory) (bytes : Bytes) : Prop :=
  ∃ (step : Step Cabin Index SubChain Build) (head tail rest : Bytes) (count : UInt32),
    HeadText step head ∧ bytes = scalarBytes kStepDescriptorVersion ++ (head ++ tail) ∧
    (mem.residual count.toNat = false ∧ tail = scalarBytes count ++ rest ∨
      ∃ residual, (residual.length < 2 ^ 32 ∧ mem.residual residual.length = true ∧
          ∀ pred ∈ residual, pred.rhs.Wire ∧ pred.onWire = pred) ∧
        mem.accessColumns count.toNat = false ∧
          tail = residualBytes residual ++ (scalarBytes count ++ rest))

-- The readers

section

variable {α : Type} {size : Nat}

/-- A reader whose errors are answered, among those that can end the process. -/
theorem exact_lift {x : Reading Status α} {R : α → Bytes → Prop} (h : Exact x R) :
    Exact (liftM x : Reading Stop α) R := h.rephrase _

theorem refuses_lift (x : Reading Status α) :
    Refuses (liftM x : Reading Stop α) .badAlloc (fun _ => False) :=
  refuses_rephrase fun _ h => by cases h

theorem exact_found (o : Option α) (e : Status) : Exact (match o with
      | some a => pure a
      | none => refuseRead e : Reading Status α) (fun a text => o = some a ∧ text = []) := by
  cases o with
  | some a => exact (Exact.pure a).congr fun b text => by rw [Option.some.injEq, eq_comm]
  | none => exact (Exact.refuse _).congr fun b text => by simp

theorem exact_readCode {all : List α} {code : α → UInt8} (refusal : UInt8 → String)
    (hall : ∀ a ∈ all, (all.find? fun b => code b = code a) = some a) :
    Exact (readCode size all code refusal)
      (fun a text => a ∈ all ∧ text = scalarBytes (code a)) := by
  refine ((Exact.readScalar _).bind fun c => exact_found (all.find? fun a => code a = c)
    (.invalidArgument (refusal c))).congr fun a text => ?_
  constructor
  · rintro ⟨c, _, _, rfl, ⟨hfind, rfl⟩, rfl⟩
    have hcode : code a = c := by simpa using List.find?_some hfind
    exact ⟨mem_of_find?_eq_some hfind, by rw [hcode, append_nil]⟩
  · rintro ⟨ha, rfl⟩
    exact ⟨code a, _, [], rfl, ⟨hall a ha, rfl⟩, (append_nil _).symm⟩

theorem exact_decodeColumnRef :
    Exact (decodeColumnRef size) (fun c text => text = columnBytes c) := by
  refine ((Exact.readScalar _).bind fun up => (Exact.readScalar _).bind fun slot =>
    (Exact.readScalar _).bind fun pos => Exact.pure _).congr fun c text => ?_
  constructor
  · rintro ⟨up, _, _, rfl, ⟨slot, _, _, rfl, ⟨pos, _, _, rfl, ⟨rfl, rfl⟩, rfl⟩, rfl⟩, rfl⟩
    rw [append_nil]
    rfl
  · rintro rfl
    exact ⟨c.up, _, _, rfl, ⟨c.relSlot, _, _, rfl, ⟨c.colPos, _, _, rfl, ⟨rfl, rfl⟩, rfl⟩, rfl⟩,
      by rw [append_nil]; rfl⟩

theorem exact_decodeValue :
    Exact (decodeValue size) (fun v text => v.Wire ∧ text = valueBytes v) := by
  refine ((exact_readCode _ (by decide)).bind fun type => (Exact.readScalar _).bind fun intVal =>
    (Exact.readScalar _).bind fun decHi => (Exact.readScalar _).bind fun scale =>
    (Exact.readScalar _).bind fun byteOffset => (Exact.readString _).bind fun strVal =>
    (Exact.readString _).bind fun raw => Exact.pure _).congr fun v text => ?_
  constructor
  · rintro ⟨type, _, _, ⟨htype, rfl⟩, ⟨intVal, _, _, rfl, ⟨decHi, _, _, rfl, hback, rfl⟩, rfl⟩,
      rfl⟩
    obtain ⟨scale, _, _, rfl, ⟨offset, _, _, rfl, hback, rfl⟩, rfl⟩ := hback
    obtain ⟨str, _, _, ⟨hstr, rfl⟩, ⟨raw, _, _, ⟨hraw, rfl⟩, ⟨rfl, rfl⟩, rfl⟩, rfl⟩ := hback
    refine ⟨⟨?_, hstr, hraw⟩, ?_⟩
    · rintro rfl
      revert htype
      decide
    · rw [append_nil]
      rfl
  · rintro ⟨⟨htype, hstr, hraw⟩, rfl⟩
    refine ⟨v.type, _, _, ⟨?_, rfl⟩, ⟨v.intVal, _, _, rfl, ⟨v.decHi, _, _, rfl, ⟨v.scale, _, _, rfl,
      ⟨v.byteOffset, _, _, rfl, ⟨v.strVal, _, _, ⟨hstr, rfl⟩, ⟨v.rawIntText, _, _, ⟨hraw, rfl⟩,
      ⟨rfl, rfl⟩, rfl⟩, rfl⟩, rfl⟩, rfl⟩, rfl⟩, rfl⟩, ?_⟩
    · cases hv : v.type with
      | param => exact absurd hv htype
      | _ => decide
    · rw [append_nil]
      rfl

theorem exact_decodeOperand :
    Exact (decodeOperand size) (fun op text => op.Wire ∧ text = operandBytes op) := by
  have htail (column : Bool) : Exact
      (if column = true then Operand.column <$> decodeColumnRef size
        else Operand.literal <$> decodeValue size)
      (fun op text => if column = true then ∃ c, text = columnBytes c ∧ op = .column c
        else ∃ v : AstValue, (v.Wire ∧ text = valueBytes v) ∧ op = .literal v) := by
    cases column with
    | true => exact exact_decodeColumnRef.map _
    | false => exact exact_decodeValue.map _
  refine ((exact_readCode _ (by decide)).bind htail).congr fun op text => ?_
  constructor
  · rintro ⟨column, _, _, ⟨-, rfl⟩, hback, rfl⟩
    cases column with
    | true =>
      obtain ⟨c, rfl, rfl⟩ := hback
      exact ⟨trivial, rfl⟩
    | false =>
      obtain ⟨v, ⟨hv, rfl⟩, rfl⟩ := hback
      exact ⟨hv, rfl⟩
  · rintro ⟨hop, rfl⟩
    cases op with
    | literal v => exact ⟨false, _, _, ⟨by decide, rfl⟩, ⟨v, ⟨hop, rfl⟩, rfl⟩, rfl⟩
    | column c => exact ⟨true, _, _, ⟨by decide, rfl⟩, ⟨c, rfl, rfl⟩, rfl⟩

theorem exact_decodePredicate : Exact (decodePredicate size)
    (fun pred text => (pred.rhs.Wire ∧ pred.onWire = pred) ∧ text = predicateBytes pred) := by
  refine (exact_decodeColumnRef.bind fun lhs => (exact_readCode _ (by decide)).bind fun op =>
    exact_decodeOperand.bind fun rhs => Exact.pure _).congr fun pred text => ?_
  constructor
  · rintro ⟨lhs, _, _, rfl, ⟨op, _, _, ⟨-, rfl⟩, ⟨rhs, _, _, ⟨hrhs, rfl⟩, ⟨rfl, rfl⟩, rfl⟩, rfl⟩,
      rfl⟩
    refine ⟨⟨hrhs, rfl⟩, ?_⟩
    rw [append_nil]
    rfl
  · rintro ⟨⟨hrhs, hwire⟩, rfl⟩
    refine ⟨pred.lhs, _, _, rfl, ⟨pred.op, _, _, ⟨?_, rfl⟩, ⟨pred.rhs, _, _, ⟨hrhs, rfl⟩,
      ⟨hwire.symm, rfl⟩, rfl⟩, rfl⟩, ?_⟩
    · cases pred.op <;> decide
    · rw [append_nil]
      rfl

theorem exact_decodeRange : Exact (decodeRange size)
    (fun range text => True ∧ text = scalarBytes range.low ++ scalarBytes range.high) := by
  refine ((Exact.readScalar _).bind fun low => (Exact.readScalar _).bind fun high =>
    Exact.pure _).congr fun range text => ?_
  constructor
  · rintro ⟨low, _, _, rfl, ⟨high, _, _, rfl, ⟨rfl, rfl⟩, rfl⟩, rfl⟩
    exact ⟨trivial, by rw [append_nil]⟩
  · rintro ⟨-, rfl⟩
    exact ⟨range.low, _, _, rfl, ⟨range.high, _, _, rfl, ⟨rfl, rfl⟩, rfl⟩, by rw [append_nil]⟩

variable {read : Reading Status α} {Valid : α → Prop} {write : α → Bytes}

theorem exact_readOptional (h : Exact read (fun a text => Valid a ∧ text = write a)) :
    Exact (readOptional size read) (fun o text => (∀ a ∈ o, Valid a) ∧
      ∃ flag : UInt8, (flag ≠ 0 ↔ o.isSome) ∧ text = scalarBytes flag ++ o.elim [] write) := by
  have htail (flag : UInt8) : Exact (if flag ≠ 0 then some <$> read else pure none)
      (fun o text => (∀ a ∈ o, Valid a) ∧ (flag ≠ 0 ↔ o.isSome) ∧ text = o.elim [] write) := by
    by_cases hflag : flag ≠ 0
    · rw [if_pos hflag]
      refine (h.map some).congr fun o text => ?_
      constructor
      · rintro ⟨a, ⟨ha, rfl⟩, rfl⟩
        exact ⟨by simpa using ha, iff_of_true hflag rfl, rfl⟩
      · rintro ⟨hall, hsome, rfl⟩
        obtain ⟨a, rfl⟩ := Option.isSome_iff_exists.mp (hsome.mp hflag)
        exact ⟨a, ⟨hall a rfl, rfl⟩, rfl⟩
    · rw [if_neg hflag]
      refine (Exact.pure none).congr fun o text => ?_
      constructor
      · rintro ⟨rfl, rfl⟩
        exact ⟨nofun, iff_of_false hflag nofun, rfl⟩
      · rintro ⟨-, hsome, rfl⟩
        cases o with
        | none => exact ⟨rfl, rfl⟩
        | some a => exact absurd (hsome.mpr rfl) hflag
  refine ((Exact.readScalar _).bind htail).congr fun o text => ?_
  constructor
  · rintro ⟨flag, _, _, rfl, ⟨hall, hflag, rfl⟩, rfl⟩
    exact ⟨hall, flag, hflag, rfl⟩
  · rintro ⟨hall, flag, hflag, rfl⟩
    exact ⟨flag, _, _, rfl, ⟨hall, hflag, rfl⟩, rfl⟩

variable {serves : Nat → Bool}

theorem exact_reserve (count : Nat) :
    Exact (reserve serves count) (fun _ text => serves count = true ∧ text = []) := by
  unfold reserve
  split_ifs with hserves
  · exact (Exact.pure ()).congr fun _ text => by simp [hserves]
  · exact (Exact.refuse _).congr fun _ text => by simp [hserves]

theorem exact_readCounted (h : Exact read (fun a text => Valid a ∧ text = write a)) :
    Exact (readCounted size serves read) (fun as text => (as.length < 2 ^ 32 ∧
      serves as.length = true ∧ ∀ a ∈ as, Valid a) ∧
        text = countBytes as.length ++ as.flatMap write) := by
  refine ((exact_lift (Exact.readScalar (T := UInt32) _)).bind fun count =>
    (exact_reserve count.toNat).bind fun _ => exact_lift (h.repeated count.toNat)).congr
    fun as text => ?_
  constructor
  · rintro ⟨count, _, _, rfl, ⟨-, _, _, ⟨hserves, rfl⟩, ⟨hlen, hall, rfl⟩, rfl⟩, rfl⟩
    refine ⟨⟨hlen ▸ count.toNat_lt, hlen ▸ hserves, hall⟩, ?_⟩
    rw [countBytes, hlen, UInt32.ofNat_toNat]
    rfl
  · rintro ⟨⟨hlen, hserves, hall⟩, rfl⟩
    have hcount := UInt32.toNat_ofNat_of_lt' hlen
    exact ⟨UInt32.ofNat as.length, _, _, rfl,
      ⟨(), [], _, ⟨hcount.symm ▸ hserves, rfl⟩, ⟨hcount.symm, hall, rfl⟩, rfl⟩, rfl⟩

/-- Only the count can be too much: what stands behind it is read with errors that are answered. -/
theorem refuses_readCounted : Refuses (readCounted size serves read) .badAlloc (fun bytes =>
    ∃ (count : UInt32) (rest : Bytes), serves count.toNat = false ∧
      bytes = scalarBytes count ++ rest) := by
  have hreserve (count : Nat) :
      Refuses (reserve serves count) .badAlloc (fun _ => serves count = false) := by
    unfold reserve
    cases hserves : serves count with
    | true => exact fun bytes => (refuses_pure () _ bytes).trans (by simp)
    | false => exact fun bytes => (refuses_refuse _ bytes).trans (by simp)
  have hread := Refuses.after (exact_lift (Exact.readScalar (T := UInt32) (truncated size)))
    (refuses_lift _) fun count => Refuses.bind (exact_reserve count.toNat)
      (hreserve count.toNat) fun _ => refuses_lift (readRepeated read count.toNat)
  refine fun bytes => (hread bytes).trans ?_
  constructor
  · rintro ⟨count, _, rest, rfl, rfl, hover | ⟨_, _, _, _, _, ⟨⟩⟩⟩
    exact ⟨count, rest, hover, rfl⟩
  · rintro ⟨count, rest, hover, rfl⟩
    exact ⟨count, _, rest, rfl, rfl, .inl hover⟩

theorem exact_readColumn : Exact (readInt size UInt16)
    (fun col text => True ∧ text = scalarBytes col) :=
  (Exact.readScalar _).congr fun _ _ => ⟨fun h => ⟨trivial, h⟩, And.right⟩

variable {mem : Memory}

/-- The fields that are not read yet have their defaults. -/
def Step.head (step : Step Cabin Index SubChain Build) : Step Cabin Index SubChain Build :=
  { stepId := step.stepId, relOid := step.relOid, relName := step.relName, kind := step.kind,
    key := step.key, range := step.range }

theorem exact_decodeHead :
    Exact (decodeHead size : Reading Status (Step Cabin Index SubChain Build))
      (fun step text => step = step.head ∧ HeadText step text) := by
  refine ((Exact.readScalar _).bind fun stepId => (Exact.readScalar _).bind fun relOid =>
    (Exact.readString _).bind fun relName => (exact_readCode _ (by decide)).bind fun kind =>
    (exact_readOptional exact_decodeOperand).bind fun key =>
    (exact_readOptional exact_decodeRange).bind fun range => Exact.pure _).congr
      fun step text => ?_
  constructor
  · rintro ⟨stepId, _, _, rfl, ⟨relOid, _, _, rfl, hback, rfl⟩, rfl⟩
    obtain ⟨relName, _, _, ⟨hname, rfl⟩, ⟨kind, _, _, ⟨-, rfl⟩, hback, rfl⟩, rfl⟩ := hback
    obtain ⟨key, _, _, ⟨hkey, keyFlag, hkeyFlag, rfl⟩, hback, rfl⟩ := hback
    obtain ⟨range, _, _, ⟨-, rangeFlag, hrangeFlag, rfl⟩, ⟨rfl, rfl⟩, rfl⟩ := hback
    refine ⟨rfl, hname, hkey, keyFlag, rangeFlag, hkeyFlag, hrangeFlag, ?_⟩
    rw [append_nil]
    rfl
  · rintro ⟨hhead, hname, hkey, keyFlag, rangeFlag, hkeyFlag, hrangeFlag, rfl⟩
    refine ⟨step.stepId, _, _, rfl, ⟨step.relOid, _, _, rfl, ⟨step.relName, _, _, ⟨hname, rfl⟩,
      ⟨step.kind, _, _, ⟨?_, rfl⟩, ⟨step.key, _, _, ⟨hkey, keyFlag, hkeyFlag, rfl⟩,
      ⟨step.range, _, _, ⟨fun _ _ => trivial, rangeFlag, hrangeFlag, rfl⟩, ⟨hhead, rfl⟩, rfl⟩,
      rfl⟩, rfl⟩, rfl⟩, rfl⟩, ?_⟩
    · cases step.kind <;> decide
    · rw [append_nil]
      rfl

theorem exact_decodeFields :
    Exact (decodeFields size mem : Reading Stop (Step Cabin Index SubChain Build))
      (fun step text => StepText step (scalarBytes kStepDescriptorVersion ++ text) ∧
        mem.Serves step) := by
  refine ((exact_lift exact_decodeHead).bind fun head =>
    (exact_readCounted exact_decodePredicate).bind fun residual =>
    (exact_readCounted exact_readColumn).bind fun cols =>
    (exact_lift (Exact.readScalar _)).bind fun filter =>
    (exact_lift (Exact.readScalar _)).bind fun read => Exact.pure _).congr fun step text => ?_
  constructor
  · rintro ⟨head, headText, _, ⟨hhead, htext⟩, hback, rfl⟩
    obtain ⟨residual, _, _, ⟨⟨hcount, hroom, hresidual⟩, rfl⟩, hback, rfl⟩ := hback
    obtain ⟨cols, _, _, ⟨⟨hcols, hcolsRoom, -⟩, rfl⟩, hback, rfl⟩ := hback
    obtain ⟨filter, _, _, rfl, ⟨read, _, _, rfl, ⟨rfl, rfl⟩, rfl⟩, rfl⟩ := hback
    refine ⟨⟨⟨htext.1, htext.2.1, fun pred hp => (hresidual pred hp).1, hcount, hcols⟩, ?_,
      headText, htext, ?_⟩, hroom, hcolsRoom⟩
    · have hsame : residual.map StepPredicate.onWire = residual :=
        (map_congr_left fun pred hp => (hresidual pred hp).2).trans (map_id _)
      rw [Step.onWire, hsame, hhead]
      rfl
    · rw [append_nil]
      rfl
  · rintro ⟨⟨hwire, honWire, headText, htext, hspelt⟩, hroom, hcolsRoom⟩
    have hsame : step.residual.map StepPredicate.onWire = step.residual :=
      congrArg Step.residual honWire
    have hresidual : ∀ pred ∈ step.residual, pred.rhs.Wire ∧ pred.onWire = pred := by
      have heach := map_inj_left.mp (hsame.trans (map_id _).symm)
      exact fun pred hp => ⟨hwire.residual pred hp, heach pred hp⟩
    refine ⟨step.head, headText, _, ⟨rfl, htext⟩, ⟨step.residual, _, _,
      ⟨⟨hwire.residualCount, hroom, hresidual⟩, rfl⟩, ⟨step.accessColumns, _, _,
      ⟨⟨hwire.accessColumns, hcolsRoom, fun _ _ => trivial⟩, rfl⟩, ⟨step.filterColumns, _, _, rfl,
      ⟨step.readColumns, _, _, rfl, ⟨?_, rfl⟩, rfl⟩, rfl⟩, rfl⟩, rfl⟩, ?_⟩
    · rw [Step.onWire, hsame] at honWire
      exact honWire.symm
    · rw [append_nil]
      exact append_cancel_left hspelt

theorem exact_decodeVersioned :
    Exact (decodeVersioned size mem : Reading Stop (Step Cabin Index SubChain Build))
      (fun step text => StepText step text ∧ mem.Serves step) := by
  have htail (version : UInt8) : Exact (if version ≠ kStepDescriptorVersion then
        refuseRead (.status (.invalidArgument ("step descriptor version " ++
          toString version.toNat ++ "; this build reads " ++
          toString kStepDescriptorVersion.toNat)))
      else decodeFields size mem : Reading Stop (Step Cabin Index SubChain Build))
      (fun step text => version = kStepDescriptorVersion ∧
        StepText step (scalarBytes kStepDescriptorVersion ++ text) ∧ mem.Serves step) := by
    split_ifs with hversion
    · exact (Exact.refuse _).congr fun step text => ⟨False.elim, fun h => hversion h.1⟩
    · exact exact_decodeFields.congr fun step text =>
        ⟨fun h => ⟨not_not.mp hversion, h⟩, fun h => h.2⟩
  refine ((exact_lift (Exact.readScalar _)).bind htail).congr fun step text => ?_
  constructor
  · rintro ⟨version, _, _, rfl, ⟨rfl, htext⟩, rfl⟩
    exact htext
  · rintro ⟨⟨hwire, honWire, head, htext, rfl⟩, hserves⟩
    exact ⟨kStepDescriptorVersion, _, _, rfl, ⟨rfl, ⟨hwire, honWire, head, htext, rfl⟩, hserves⟩,
      rfl⟩

theorem refuses_decodeFields :
    Refuses (decodeFields size mem : Reading Stop (Step Cabin Index SubChain Build)) .badAlloc
      (fun bytes => Overrun Cabin Index SubChain Build mem
        (scalarBytes kStepDescriptorVersion ++ bytes)) := by
  refine fun bytes => ((Refuses.after (exact_lift exact_decodeHead) (refuses_lift _)
    fun head => .bind (exact_readCounted exact_decodePredicate) refuses_readCounted
    fun residual => .bind (exact_readCounted exact_readColumn) refuses_readCounted
    fun cols => .after (exact_lift (Exact.readScalar _)) (refuses_lift _)
    fun filter => .after (exact_lift (Exact.readScalar _)) (refuses_lift _)
    fun read => refuses_pure _ _) bytes).trans ?_
  constructor
  · rintro ⟨step, head, _, ⟨-, htext⟩, rfl, ⟨count, rest, hover, rfl⟩ |
      ⟨residual, _, _, ⟨hresidual, rfl⟩, rfl, ⟨count, rest, hover, rfl⟩ |
        ⟨_, _, _, _, _, _, _, _, _, _, _, _, _, _, _, ⟨⟩⟩⟩⟩
    · exact ⟨step, head, _, rest, count, htext, rfl, .inl ⟨hover, rfl⟩⟩
    · exact ⟨step, head, _, rest, count, htext, rfl, .inr ⟨residual, hresidual, hover, rfl⟩⟩
  · rintro ⟨step, head, tail, rest, count, htext, hbytes, hover⟩
    obtain rfl := append_cancel_left hbytes
    refine ⟨step.head, head, tail, ⟨rfl, htext⟩, rfl, ?_⟩
    rcases hover with ⟨hover, rfl⟩ | ⟨residual, hresidual, hover, rfl⟩
    · exact .inl ⟨count, rest, hover, rfl⟩
    · exact .inr ⟨residual, _, _, ⟨hresidual, rfl⟩, rfl, .inl ⟨count, rest, hover, rfl⟩⟩

theorem refuses_decodeVersioned :
    Refuses (decodeVersioned size mem : Reading Stop (Step Cabin Index SubChain Build)) .badAlloc
      (Overrun Cabin Index SubChain Build mem) := by
  have htail (version : UInt8) : Refuses (if version ≠ kStepDescriptorVersion then
        refuseRead (.status (.invalidArgument ("step descriptor version " ++
          toString version.toNat ++ "; this build reads " ++
          toString kStepDescriptorVersion.toNat)))
      else decodeFields size mem : Reading Stop (Step Cabin Index SubChain Build)) .badAlloc
      (fun bytes => version = kStepDescriptorVersion ∧
        Overrun Cabin Index SubChain Build mem
          (scalarBytes kStepDescriptorVersion ++ bytes)) := by
    split_ifs with hversion
    · exact fun bytes => iff_of_false nofun fun h => hversion h.1
    · exact fun bytes => (refuses_decodeFields bytes).trans
        ⟨fun h => ⟨not_not.mp hversion, h⟩, fun h => h.2⟩
  refine fun bytes => ((Refuses.after (exact_lift (Exact.readScalar _)) (refuses_lift _) htail)
    bytes).trans ?_
  constructor
  · rintro ⟨version, _, _, rfl, rfl, rfl, hover⟩
    exact hover
  · rintro ⟨step, head, tail, rest, count, htext, rfl, hover⟩
    exact ⟨kStepDescriptorVersion, _, _, rfl, rfl, rfl, step, head, tail, rest, count, htext, rfl,
      hover⟩

end

variable {step : Step Cabin Index SubChain Build} {mem : Memory} {bytes : Bytes} {op : Operand}

theorem decodeStepDescriptor_ok_iff :
    decodeStepDescriptor mem bytes = .ok step ↔ StepText step bytes ∧ mem.Serves step := by
  have hok := (@exact_decodeVersioned Cabin Index SubChain Build bytes.length mem).ok_iff bytes step
  rw [decodeStepDescriptor]
  constructor
  · intro h
    cases hread : decodeVersioned bytes.length mem bytes with
    | error e =>
      rw [hread] at h
      cases h
    | ok out =>
      rw [hread] at h
      obtain ⟨step', rest⟩ := out
      change (if rest = [] then Except.ok step' else _) = Except.ok step at h
      split_ifs at h with hrest
      · cases h
        obtain ⟨text, htext, hbytes⟩ := (hok rest).mp hread
        rw [hbytes, hrest, append_nil]
        exact htext
  · intro h
    rw [(hok []).mpr ⟨bytes, h, (append_nil _).symm⟩]
    rfl

/-- An early end that is no error answered for trailing bytes is the reader's own. -/
theorem decodeStepDescriptor_stop_iff {fault : Fault Stop}
    (hfault : fault ≠ .refused (.status (.invalidArgument "step descriptor has trailing bytes"))) :
    (decodeStepDescriptor mem bytes : Outcome Stop (Step Cabin Index SubChain Build)) =
        .error fault ↔
      (decodeVersioned bytes.length mem bytes :
        Outcome Stop (Step Cabin Index SubChain Build × Bytes)) = .error fault := by
  rw [decodeStepDescriptor]
  cases (decodeVersioned bytes.length mem bytes :
      Outcome Stop (Step Cabin Index SubChain Build × Bytes)) with
  | error e => exact ⟨fun h => (by cases h; rfl), fun h => (by cases h; rfl)⟩
  | ok out =>
    obtain ⟨step, rest⟩ := out
    refine iff_of_false (fun h => ?_) nofun
    change (if rest = [] then Except.ok step else _) = _ at h
    split_ifs at h
    exact hfault (Except.error.inj h).symm

theorem decodeStepDescriptor_within (bytes : Bytes) :
    (decodeStepDescriptor mem bytes : Outcome Stop (Step Cabin Index SubChain Build)) ≠
      .error .outOfRange :=
  fun h => exact_decodeVersioned.within bytes ((decodeStepDescriptor_stop_iff (by simp)).mp h)

theorem decodeStepDescriptor_badAlloc_iff :
    (decodeStepDescriptor mem bytes : Outcome Stop (Step Cabin Index SubChain Build)) =
      .error (.refused .badAlloc) ↔ Overrun Cabin Index SubChain Build mem bytes :=
  (decodeStepDescriptor_stop_iff (by simp)).trans (refuses_decodeVersioned bytes)

-- The encoder

def Operand.HasParam : Operand → Prop
  | .literal v => v.type = .param
  | .column _ => False

/-- A parameter is in the key or the residual. -/
def Step.HasParam (step : Step Cabin Index SubChain Build) : Prop :=
  (∃ op ∈ step.key, op.HasParam) ∨ ∃ pred ∈ step.residual, pred.rhs.HasParam

variable {text : Bytes}

theorem encodeOperand_ok_iff :
    encodeOperand op = .ok text ↔ ¬ op.HasParam ∧ text = operandBytes op := by
  cases op with
  | literal v =>
    rw [encodeOperand, bind_eq_ok]
    constructor
    · rintro ⟨value, hvalue, h⟩
      cases h
      rw [encodeValue] at hvalue
      split_ifs at hvalue with hparam
      cases hvalue
      exact ⟨hparam, rfl⟩
    · rintro ⟨hparam, rfl⟩
      exact ⟨valueBytes v, if_neg hparam, rfl⟩
  | column c =>
    rw [encodeOperand, Except.ok.injEq, eq_comm]
    exact ⟨fun h => ⟨id, h⟩, And.right⟩

theorem encodeKey_ok_iff {key : Option Operand} :
    encodeKey key = .ok text ↔ (∀ op ∈ key, ¬ op.HasParam) ∧
      text = scalarBytes (if key.isSome then 1 else 0 : UInt8) ++ key.elim [] operandBytes := by
  cases key with
  | none =>
    rw [encodeKey, Except.ok.injEq, eq_comm]
    exact ⟨fun h => ⟨nofun, by rw [h]; rfl⟩, fun h => by rw [h.2]; rfl⟩
  | some op =>
    rw [encodeKey, bind_eq_ok]
    constructor
    · rintro ⟨value, hvalue, h⟩
      cases h
      obtain ⟨hparam, rfl⟩ := encodeOperand_ok_iff.mp hvalue
      exact ⟨by simpa using hparam, rfl⟩
    · rintro ⟨hparam, rfl⟩
      exact ⟨_, encodeOperand_ok_iff.mpr ⟨hparam op rfl, rfl⟩, rfl⟩

theorem encodeResidual_ok_iff {residual : List StepPredicate} :
    encodeResidual residual = .ok text ↔ (∀ pred ∈ residual, ¬ pred.rhs.HasParam) ∧
      text = residual.flatMap predicateBytes := by
  induction residual generalizing text with
  | nil =>
    rw [encodeResidual, Except.ok.injEq, eq_comm]
    exact ⟨fun h => ⟨nofun, h⟩, And.right⟩
  | cons pred residual ih =>
    rw [encodeResidual, bind_eq_ok]
    constructor
    · rintro ⟨rhs, hrhs, h⟩
      obtain ⟨later, hlater, h⟩ := bind_eq_ok.mp h
      cases h
      obtain ⟨hparam, rfl⟩ := encodeOperand_ok_iff.mp hrhs
      obtain ⟨hparams, rfl⟩ := ih.mp hlater
      exact ⟨forall_mem_cons.mpr ⟨hparam, hparams⟩, rfl⟩
    · rintro ⟨hall, rfl⟩
      obtain ⟨hparam, hparams⟩ := forall_mem_cons.mp hall
      exact ⟨_, encodeOperand_ok_iff.mpr ⟨hparam, rfl⟩,
        bind_eq_ok.mpr ⟨_, ih.mpr ⟨hparams, rfl⟩, rfl⟩⟩

theorem encodeStepDescriptor_ok_iff :
    encodeStepDescriptor step = .ok text ↔
      step.subChains = [] ∧ shipsAsWalk step.kind = false ∧ ¬ step.HasParam ∧
        text = stepBytes step := by
  have hparams : ¬ step.HasParam ↔
      (∀ op ∈ step.key, ¬ op.HasParam) ∧ ∀ pred ∈ step.residual, ¬ pred.rhs.HasParam := by
    simp only [Step.HasParam, not_or, not_exists, not_and]
  rw [encodeStepDescriptor]
  by_cases hchains : step.subChains = []
  · rw [if_neg (not_not.mpr hchains)]
    cases hkind : shipsAsWalk step.kind with
    | true => exact ⟨nofun, fun h => nomatch h.2.1⟩
    | false =>
      rw [if_neg nofun, bind_eq_ok, hparams]
      constructor
      · rintro ⟨key, hkey, h⟩
        obtain ⟨residual, hresidual, h⟩ := bind_eq_ok.mp h
        cases h
        obtain ⟨hkeyParam, rfl⟩ := encodeKey_ok_iff.mp hkey
        obtain ⟨hresidualParam, rfl⟩ := encodeResidual_ok_iff.mp hresidual
        exact ⟨hchains, rfl, ⟨hkeyParam, hresidualParam⟩, rfl⟩
      · rintro ⟨-, -, ⟨hkeyParam, hresidualParam⟩, rfl⟩
        exact ⟨_, encodeKey_ok_iff.mpr ⟨hkeyParam, rfl⟩,
          bind_eq_ok.mpr ⟨_, encodeResidual_ok_iff.mpr ⟨hresidualParam, rfl⟩, rfl⟩⟩
  · rw [if_pos hchains]
    exact ⟨nofun, fun h => absurd h.1 hchains⟩

-- What comes back

/-- The shipped form of a step is refused, or its text is taken for what it says. -/
def Survives (mem : Memory) (step : Step Cabin Index SubChain Build) : Prop :=
  ∀ text, encodeStepDescriptor (shippedForm step) = .ok text →
    decodeStepDescriptor mem text = .ok (shippedForm step).onWire

/-- A text is answered with an error, or taken for a step of a kind that ships, which is encoded
    again and taken for itself. -/
def Faithful (Cabin Index SubChain Build : Type) (mem : Memory) (bytes : Bytes) : Prop :=
  (∃ s, (decodeStepDescriptor mem bytes : Outcome Stop (Step Cabin Index SubChain Build)) =
      .error (.refused (.status s))) ∨
    ∃ step : Step Cabin Index SubChain Build, decodeStepDescriptor mem bytes = .ok step ∧
      shipsAsWalk step.kind = false ∧
      ∃ text, encodeStepDescriptor step = .ok text ∧ decodeStepDescriptor mem text = .ok step

theorem Operand.Wire.not_hasParam (h : op.Wire) : ¬ op.HasParam := by
  cases op with
  | literal v => exact h.1
  | column c => exact id

theorem Step.Wire.not_hasParam (h : step.Wire) :
    ¬ step.HasParam := by
  rintro (⟨op, hop, hparam⟩ | ⟨pred, hpred, hparam⟩)
  · exact (h.key op hop).not_hasParam hparam
  · exact (h.residual pred hpred).not_hasParam hparam

theorem Step.wire_onWire :
    step.onWire.Wire ↔ step.Wire := by
  have hlen : (step.residual.map StepPredicate.onWire).length = step.residual.length :=
    length_map _
  constructor
  · rintro ⟨hname, hkey, hresidual, hcount, hcols⟩
    exact ⟨hname, hkey, fun pred hp => hresidual pred.onWire (mem_map_of_mem hp),
      hlen ▸ hcount, hcols⟩
  · rintro ⟨hname, hkey, hresidual, hcount, hcols⟩
    refine ⟨hname, hkey, fun pred hp => ?_, hlen.trans_lt hcount, hcols⟩
    obtain ⟨pred', hp', rfl⟩ := mem_map.mp hp
    exact hresidual pred' hp'

theorem stepText_onWire (hwire : step.Wire) : StepText step.onWire (stepBytes step) := by
  have hflag (b : Bool) : ((if b then 1 else 0 : UInt8) ≠ 0) ↔ b = true := by cases b <;> decide
  refine ⟨Step.wire_onWire.mpr hwire, ?_, _,
    ⟨hwire.relName, hwire.key, _, _, hflag _, hflag _, rfl⟩, ?_⟩
  · simp only [Step.onWire, map_map]
    rfl
  · simp only [residualBytes, Step.onWire, flatMap_map, length_map]
    rfl

theorem survives_iff :
    Survives mem step ↔ step.subChains ≠ [] ∨ step.HasParam ∨
      (shippedForm step).Wire ∧ mem.Serves (shippedForm step) := by
  have hserves (step : Step Cabin Index SubChain Build) :
      mem.Serves step.onWire ↔ mem.Serves step := by
    rw [Memory.Serves, Memory.Serves, Step.onWire, length_map]
  have hsame : (shippedForm step).subChains = step.subChains ∧
      (shippedForm step).HasParam = step.HasParam ∧
      shipsAsWalk (shippedForm step).kind = false := by
    rw [shippedForm]
    split_ifs with hwalk
    · exact ⟨rfl, rfl, rfl⟩
    · exact ⟨rfl, rfl, by simpa using hwalk⟩
  obtain ⟨hchains, hparam, hkind⟩ := hsame
  rw [← hchains, ← hparam, Survives]
  constructor
  · intro h
    by_cases hnested : (shippedForm step).subChains = []
    · by_cases hp : (shippedForm step).HasParam
      · exact .inr (.inl hp)
      · have hback := h _ (encodeStepDescriptor_ok_iff.mpr ⟨hnested, hkind, hp, rfl⟩)
        obtain ⟨htext, hroom⟩ := decodeStepDescriptor_ok_iff.mp hback
        exact .inr (.inr ⟨Step.wire_onWire.mp htext.1, (hserves _).mp hroom⟩)
    · exact .inl hnested
  · intro h text htext
    obtain ⟨hnested, -, hp, rfl⟩ := encodeStepDescriptor_ok_iff.mp htext
    rcases h with hn | hp' | hwire
    · exact absurd hnested hn
    · exact absurd hp' hp
    · exact decodeStepDescriptor_ok_iff.mpr
        ⟨stepText_onWire hwire.1, (hserves _).mpr hwire.2⟩

/-- The text spells a step of a kind that never ships, whose lists memory has room for. -/
def SpellsWalk (Cabin Index SubChain Build : Type) (mem : Memory) (bytes : Bytes) : Prop :=
  ∃ step : Step Cabin Index SubChain Build,
    shipsAsWalk step.kind = true ∧ StepText step bytes ∧ mem.Serves step

theorem faithful_iff : Faithful Cabin Index SubChain Build mem bytes ↔
    ¬ Overrun Cabin Index SubChain Build mem bytes ∧
      ¬ SpellsWalk Cabin Index SubChain Build mem bytes := by
  constructor
  · intro h
    constructor
    · intro hover
      have hstop := decodeStepDescriptor_badAlloc_iff.mpr hover
      rcases h with ⟨s, hs⟩ | ⟨step, hok, -⟩
      · rw [hstop] at hs
        cases hs
      · rw [hstop] at hok
        cases hok
    · rintro ⟨step, hwalk, htext⟩
      have hok := decodeStepDescriptor_ok_iff.mpr htext
      rcases h with ⟨s, hs⟩ | ⟨step', hok', hkind, -⟩
      · rw [hok] at hs
        cases hs
      · rw [hok] at hok'
        cases hok'
        rw [hwalk] at hkind
        cases hkind
  · rintro ⟨hroom, h⟩
    cases hdecode :
        (decodeStepDescriptor mem bytes : Outcome Stop (Step Cabin Index SubChain Build)) with
    | error fault =>
      cases fault with
      | outOfRange => exact absurd hdecode (decodeStepDescriptor_within bytes)
      | refused stop =>
        cases stop with
        | badAlloc => exact absurd (decodeStepDescriptor_badAlloc_iff.mp hdecode) hroom
        | status s => exact .inl ⟨s, hdecode⟩
    | ok step =>
      obtain ⟨htext, hserves⟩ := decodeStepDescriptor_ok_iff.mp hdecode
      have hkind : shipsAsWalk step.kind = false := by
        simpa using fun hwalk => h ⟨step, hwalk, htext, hserves⟩
      have hchains : step.subChains = [] := (congrArg Step.subChains htext.2.1).symm
      refine .inr ⟨step, hdecode, hkind, _, encodeStepDescriptor_ok_iff.mpr
        ⟨hchains, hkind, htext.1.not_hasParam, rfl⟩, ?_⟩
      have hback := stepText_onWire htext.1
      rw [htext.2.1] at hback
      exact decodeStepDescriptor_ok_iff.mpr ⟨hback, hserves⟩

/-- **What ships comes back, unless a length does not fit its field or its lists do not fit memory;
    and every text is answered with an error or taken for a step that ships, unless it asks for
    more room than there is or spells a step of a kind that never ships.** -/
theorem descriptor_exact (mem : Memory) (step : Step Cabin Index SubChain Build) (bytes : Bytes) :
    (Survives mem step ↔ step.subChains ≠ [] ∨ step.HasParam ∨
      (shippedForm step).Wire ∧ mem.Serves (shippedForm step)) ∧
    (decodeStepDescriptor mem bytes : Outcome Stop (Step Cabin Index SubChain Build)) ≠
      .error .outOfRange ∧
    (Faithful Cabin Index SubChain Build mem bytes ↔
      ¬ Overrun Cabin Index SubChain Build mem bytes ∧
        ¬ SpellsWalk Cabin Index SubChain Build mem bytes) :=
  ⟨survives_iff, decodeStepDescriptor_within bytes, faithful_iff⟩

/-- A text of a Cabin probe is taken, for a step that the encoder refuses, however much memory there
    is; and with room for less than 2^32 predicates a text of 24 bytes ends the process. -/
theorem cabinProbe_taken :
    ¬ Faithful Unit Unit Unit Unit ⟨fun _ => true, fun _ => true⟩
      (1 :: List.replicate 16 0 ++ 3 :: List.replicate 10 0 ++ List.replicate 16 255) ∧
    ¬ Faithful Unit Unit Unit Unit ⟨(· < 2 ^ 32 - 1), fun _ => true⟩
      (1 :: List.replicate 16 0 ++ 7 :: 0 :: 0 :: List.replicate 4 255) := by
  have htext : StepText ({ kind := .cabinProbe } : Step Unit Unit Unit Unit)
      (1 :: List.replicate 16 0 ++ 3 :: List.replicate 10 0 ++ List.replicate 16 255) :=
    ⟨⟨by decide, nofun, nofun, by decide, by decide⟩, rfl, _,
      ⟨by decide, nofun, 0, 0, by decide, by decide, rfl⟩, by decide⟩
  have hover : Overrun Unit Unit Unit Unit ⟨(· < 2 ^ 32 - 1), fun _ => true⟩
      (1 :: List.replicate 16 0 ++ 7 :: 0 :: 0 :: List.replicate 4 255) :=
    ⟨{}, _, _, [], 0xFFFFFFFF, ⟨by decide, nofun, 0, 0, by decide, by decide, rfl⟩, by decide,
      .inl ⟨by decide, rfl⟩⟩
  exact ⟨fun h => (faithful_iff.mp h).2 ⟨_, rfl, htext, rfl, rfl⟩,
    fun h => (faithful_iff.mp h).1 hover⟩

end Kds.Server.Descriptor
