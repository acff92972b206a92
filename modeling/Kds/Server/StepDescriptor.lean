/-
  Kds.Server.StepDescriptor

  A step on the wire (`src/server/step_descriptor.cpp`): the form a compiled step ships in, its
  encoder and its decoder.  What never travels (the probes, the nested chains, the build key) is
  opaque here.

  The decoder takes exactly the texts of `StepText` (`decodeStepDescriptor_ok_iff`).  A step that
  ships comes back, and a text of one of the three kinds that never ship is taken as well, which
  `descriptor_exact` says exactly.  The decoder reserves room for the two counts it reads before it
  looks whether the text is that long, so a count can end the process (`Stop.badAlloc`).
-/

import Kds.Exec.Compare
import Kds.Lib.Reading
import Mathlib.Tactic.SplitIfs

namespace Kds.Server.Descriptor

open Lib
open Exec (CompareOp)

-- The step

/-- `enum class AccessKind`. -/
inductive AccessKind where
  | lookup | probe | range | cabinProbe | indexProbe | indexRange | filterScan | scan
  deriving DecidableEq

def AccessKind.all : List AccessKind :=
  [.lookup, .probe, .range, .cabinProbe, .indexProbe, .indexRange, .filterScan, .scan]

def AccessKind.code : AccessKind → UInt8
  | .lookup => 0
  | .probe => 1
  | .range => 2
  | .cabinProbe => 3
  | .indexProbe => 4
  | .indexRange => 5
  | .filterScan => 6
  | .scan => 7

/-- `AccessKindName`. -/
def AccessKind.name : AccessKind → String
  | .lookup => "Lookup"
  | .probe => "Probe"
  | .range => "Range"
  | .cabinProbe => "CabinProbe"
  | .indexProbe => "IndexProbe"
  | .indexRange => "IndexRange"
  | .filterScan => "FilterScan"
  | .scan => "Scan"

def typeCode : ValueType → UInt8
  | .int => 0
  | .str => 1
  | .null => 2
  | .param => 3
  | .decimal => 4
  | .decimalWide => 5

/-- The value types the decoder lets in. -/
def wireTypes : List ValueType := [.int, .str, .null, .decimal, .decimalWide]

def opCode : CompareOp → UInt8
  | .eq => 0
  | .neq => 1
  | .lt => 2
  | .lte => 3
  | .gt => 4
  | .gte => 5
  | .isNull => 6
  | .isNotNull => 7

def allOps : List CompareOp := [.eq, .neq, .lt, .lte, .gt, .gte, .isNull, .isNotNull]

/-- `struct AstValue`, at its widths. -/
structure AstValue where
  type : ValueType := .null
  byteOffset : UInt32 := 0
  intVal : Int64 := 0
  strVal : Bytes := []
  rawIntText : Bytes := []
  scale : UInt8 := 0
  decHi : Int64 := 0
  deriving DecidableEq

structure ColumnRef where
  up : UInt16 := 0
  relSlot : UInt16 := 0
  colPos : UInt16 := 0
  deriving DecidableEq

inductive Operand where
  | literal (v : AstValue)
  | column (c : ColumnRef)
  deriving DecidableEq

structure StepPredicate where
  lhs : ColumnRef
  op : CompareOp
  rhs : Operand
  derived : Bool := false
  deriving DecidableEq

structure RangeBounds where
  low : UInt64 := 0
  high : UInt64 := 0
  deriving DecidableEq

/-- `struct Step`. -/
structure Step (Cabin Index SubChain Build : Type) where
  stepId : UInt32 := 0
  relOid : UInt64 := 0
  relName : Bytes := []
  kind : AccessKind := .scan
  key : Option Operand := none
  range : Option RangeBounds := none
  cabin : Option Cabin := none
  index : Option Index := none
  emitInKeyOrder : Bool := false
  accessColumns : List UInt16 := []
  residual : List StepPredicate := []
  subChains : List SubChain := []
  filterColumns : UInt64 := 0xFFFFFFFFFFFFFFFF
  readColumns : UInt64 := 0xFFFFFFFFFFFFFFFF
  build : Option Build := none

variable {Cabin Index SubChain Build : Type}

/-- `ShipsAsWalk`. -/
def shipsAsWalk (kind : AccessKind) : Bool :=
  kind = .indexProbe || kind = .indexRange || kind = .cabinProbe

/-- `ShippedForm`. -/
def shippedForm (step : Step Cabin Index SubChain Build) : Step Cabin Index SubChain Build :=
  if shipsAsWalk step.kind then
    { step with build := none, kind := .scan, index := none, cabin := none, accessColumns := [] }
  else { step with build := none }

-- The encoder

def countBytes (n : Nat) : Bytes := scalarBytes (UInt32.ofNat n)

def valueBytes (v : AstValue) : Bytes :=
  scalarBytes (typeCode v.type) ++ (scalarBytes v.intVal ++ (scalarBytes v.decHi ++
    (scalarBytes v.scale ++ (scalarBytes v.byteOffset ++ (stringBytes v.strVal ++
      stringBytes v.rawIntText)))))

/-- `EncodeColumnRef`. -/
def columnBytes (c : ColumnRef) : Bytes :=
  scalarBytes c.up ++ (scalarBytes c.relSlot ++ scalarBytes c.colPos)

/-- `EncodeValue`. -/
def encodeValue (v : AstValue) : StatusOr Bytes :=
  if v.type = .param then
    .error (.unsupported ("a $param cannot ship in a step descriptor; a declared pattern's body " ++
      "never executes"))
  else .ok (valueBytes v)

/-- `EncodeOperand`. -/
def encodeOperand : Operand → StatusOr Bytes
  | .literal v => do
    let value ← encodeValue v
    .ok (scalarBytes (0 : UInt8) ++ value)
  | .column c => .ok (scalarBytes (1 : UInt8) ++ columnBytes c)

def encodeKey : Option Operand → StatusOr Bytes
  | none => .ok (scalarBytes (0 : UInt8))
  | some op => do
    let text ← encodeOperand op
    .ok (scalarBytes (1 : UInt8) ++ text)

def rangeBytes (flag : UInt8) (range : Option RangeBounds) : Bytes :=
  scalarBytes flag ++ range.elim [] fun r => scalarBytes r.low ++ scalarBytes r.high

def encodeResidual : List StepPredicate → StatusOr Bytes
  | [] => .ok []
  | pred :: rest => do
    let rhs ← encodeOperand pred.rhs
    let later ← encodeResidual rest
    .ok (columnBytes pred.lhs ++ (scalarBytes (opCode pred.op) ++ rhs) ++ later)

def kStepDescriptorVersion : UInt8 := 1

/-- What stands between the version and the residual. -/
def headBytes (step : Step Cabin Index SubChain Build) (key range : Bytes) : Bytes :=
  scalarBytes step.stepId ++ (scalarBytes step.relOid ++ (stringBytes step.relName ++
    (scalarBytes step.kind.code ++ (key ++ range))))

/-- What is around the key, the range and the residual. -/
def frameBytes (step : Step Cabin Index SubChain Build) (key range residual : Bytes) : Bytes :=
  scalarBytes kStepDescriptorVersion ++ (headBytes step key range ++
    (countBytes step.residual.length ++ residual ++ (countBytes step.accessColumns.length ++
      step.accessColumns.flatMap scalarBytes ++ (scalarBytes step.filterColumns ++
        scalarBytes step.readColumns))))

/-- `EncodeStepDescriptor`. -/
def encodeStepDescriptor (step : Step Cabin Index SubChain Build) : StatusOr Bytes :=
  if step.subChains ≠ [] then
    .error (.unsupported ("a step carrying a predicate-position subquery cannot ship yet; " ++
      "nested chains are P4d's multi-step work (docs/inflight/in-progress/workplan-crosscore.md)"))
  else if shipsAsWalk step.kind then
    .error (.unsupported ("a " ++ step.kind.name ++ " step carries core-local structure state " ++
      "and cannot ship; the session ships its walk (ShippedForm) instead"))
  else do
    let key ← encodeKey step.key
    let residual ← encodeResidual step.residual
    .ok (frameBytes step key (rangeBytes (if step.range.isSome then 1 else 0) step.range) residual)

-- The decoder, over a text of `size` bytes

/-- Which `reserve` calls memory serves, by the number of elements. -/
structure Memory where
  residual : Nat → Bool
  accessColumns : Nat → Bool

/-- What ends a decode early: an error that is answered, or `std::bad_alloc`, which nothing
    catches. -/
inductive Stop where
  | status (s : Status)
  | badAlloc
  deriving DecidableEq

instance : MonadLift (Reading Status) (Reading Stop) := ⟨rephrase .status⟩

/-- `std::vector::reserve`. -/
def reserve (serves : Nat → Bool) (count : Nat) : Reading Stop Unit :=
  if serves count then pure () else refuseRead .badAlloc

section

variable (size : Nat)

/-- `Reader::Truncated`. -/
def truncated (left : Bytes) : Status :=
  .invalidArgument ("step descriptor truncated at byte " ++ toString (size - left.length))

def readInt (T : Type) [Scalar T] : Reading Status T := readScalar T (truncated size)

def readStr : Reading Status Bytes := readString (truncated size)

/-- A byte of an enumeration, checked before the cast. -/
def readCode {α : Type} (all : List α) (code : α → UInt8) (refusal : UInt8 → String) :
    Reading Status α := do
  let c ← readInt size UInt8
  match all.find? fun a => code a = c with
  | some a => pure a
  | none => refuseRead (.invalidArgument (refusal c))

/-- `DecodeValue`. -/
def decodeValue : Reading Status AstValue := do
  let type ← readCode size wireTypes typeCode fun c =>
    "step descriptor holds value type " ++ toString c.toNat ++ ", which no encoder writes"
  let intVal ← readInt size Int64
  let decHi ← readInt size Int64
  let scale ← readInt size UInt8
  let byteOffset ← readInt size UInt32
  let strVal ← readStr size
  let rawIntText ← readStr size
  pure { type := type, byteOffset := byteOffset, intVal := intVal, strVal := strVal,
         rawIntText := rawIntText, scale := scale, decHi := decHi }

/-- `DecodeColumnRef`. -/
def decodeColumnRef : Reading Status ColumnRef := do
  let up ← readInt size UInt16
  let relSlot ← readInt size UInt16
  let colPos ← readInt size UInt16
  pure { up := up, relSlot := relSlot, colPos := colPos }

/-- `DecodeOperand`: `kLiteral` is 0 and `kColumn` is 1. -/
def decodeOperand : Reading Status Operand := do
  let isColumn ← readCode size [false, true] (fun column => if column then 1 else 0) fun c =>
    "step descriptor holds operand kind " ++ toString c.toNat
  if isColumn then Operand.column <$> decodeColumnRef size
  else Operand.literal <$> decodeValue size

def decodePredicate : Reading Status StepPredicate := do
  let lhs ← decodeColumnRef size
  let op ← readCode size allOps opCode fun c =>
    "step descriptor holds comparison op " ++ toString c.toNat
  let rhs ← decodeOperand size
  pure { lhs := lhs, op := op, rhs := rhs }

def decodeRange : Reading Status RangeBounds := do
  let low ← readInt size UInt64
  let high ← readInt size UInt64
  pure { low := low, high := high }

/-- A part behind a flag: any byte but 0 says that it is there. -/
def readOptional {α : Type} (read : Reading Status α) : Reading Status (Option α) := do
  let flag ← readInt size UInt8
  if flag ≠ 0 then some <$> read else pure none

/-- A list behind its length, with room for all of it taken first. -/
def readCounted {α : Type} (serves : Nat → Bool) (read : Reading Status α) :
    Reading Stop (List α) := do
  let count ← readInt size UInt32
  reserve serves count.toNat
  liftM (readRepeated read count.toNat)

/-- The fields between the version and the residual. -/
def decodeHead : Reading Status (Step Cabin Index SubChain Build) := do
  let stepId ← readInt size UInt32
  let relOid ← readInt size UInt64
  let relName ← readStr size
  let kind ← readCode size AccessKind.all AccessKind.code fun c =>
    "step descriptor holds access kind " ++ toString c.toNat
  let key ← readOptional size (decodeOperand size)
  let range ← readOptional size (decodeRange size)
  pure { stepId := stepId, relOid := relOid, relName := relName, kind := kind, key := key,
         range := range }

variable (mem : Memory)

/-- The fields behind the version. -/
def decodeFields : Reading Stop (Step Cabin Index SubChain Build) := do
  let head ← decodeHead size
  let residual ← readCounted size mem.residual (decodePredicate size)
  let accessColumns ← readCounted size mem.accessColumns (readInt size UInt16)
  let filterColumns ← readInt size UInt64
  let readColumns ← readInt size UInt64
  pure { head with residual := residual, accessColumns := accessColumns,
                   filterColumns := filterColumns, readColumns := readColumns }

def decodeVersioned : Reading Stop (Step Cabin Index SubChain Build) := do
  let version ← readInt size UInt8
  if version ≠ kStepDescriptorVersion then
    refuseRead (.status (.invalidArgument ("step descriptor version " ++ toString version.toNat ++
      "; this build reads " ++ toString kStepDescriptorVersion.toNat)))
  else decodeFields size mem

end

/-- `DecodeStepDescriptor`. -/
def decodeStepDescriptor (mem : Memory) (bytes : Bytes) :
    Outcome Stop (Step Cabin Index SubChain Build) := do
  let (step, rest) ← decodeVersioned bytes.length mem bytes
  if rest = [] then .ok step
  else .error (.refused (.status (.invalidArgument "step descriptor has trailing bytes")))

end Kds.Server.Descriptor
