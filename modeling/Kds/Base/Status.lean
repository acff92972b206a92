/-
  Kds.Base.Status

  The engine's explicit error type (`include/kds/base/status.hpp`): every fallible
  function returns a `Status`, or a `StatusOr` that carries either a value or one.
  A `StatusOr` is `Except Status` here, so that `kOk` is not an error code.
-/

import Kds.Lib.Lists
import Mathlib.Algebra.Ring.Int.Defs
import Mathlib.Algebra.Ring.Nat

namespace Kds

abbrev PageId := Nat

/-- `enum class StatusCode`, less `kOk`. -/
inductive StatusCode where
  | invalidArgument | outOfSpace | notFound | alreadyExists | outOfRange | corruption | ioError
  | txnConflict | unsupported | cardinalityViolation | resourceExhausted | fkViolation
  | assertionViolation | unknownOutcome
  deriving DecidableEq

/-- An error: the code and the text the client is shown. -/
structure Status where
  code : StatusCode
  message : String
  deriving DecidableEq

/-- `kds::StatusOr<T>`. -/
abbrev StatusOr (α : Type*) := Except Status α

theorem ok_bind {α β : Type} (a : α) (f : α → StatusOr β) : .ok a >>= f = f a := rfl

theorem bind_eq_ok {α β : Type} {x : StatusOr α} {f : α → StatusOr β} {b : β} :
    x >>= f = .ok b ↔ ∃ a, x = .ok a ∧ f a = .ok b := by
  cases x with
  | error e => exact ⟨fun h => (by cases h), fun ⟨a, ha, _⟩ => (by cases ha)⟩
  | ok a => exact ⟨fun h => ⟨a, rfl, h⟩, fun ⟨a', ha, h⟩ => Except.ok.inj ha ▸ h⟩

theorem toOption_eq_some {ε α : Type*} {x : Except ε α} {a : α} :
    x.toOption = some a ↔ x = .ok a := by
  cases x <;> simp [Except.toOption]

theorem map_eq_ok {α β : Type} {x : StatusOr α} {f : α → β} {b : β} :
    x.map f = .ok b ↔ ∃ a, x = .ok a ∧ f a = b := by
  cases x with
  | error e => exact ⟨fun h => (by cases h), fun ⟨a, ha, _⟩ => (by cases ha)⟩
  | ok a => exact ⟨fun h => ⟨a, rfl, Except.ok.inj h⟩, fun ⟨a', ha, h⟩ =>
    congrArg Except.ok (Except.ok.inj ha ▸ h)⟩

/-- A text as a message shows it. -/
def textOf (bytes : List UInt8) : String := String.ofList (bytes.map fun b => Char.ofNat b.toNat)

namespace Status

/-- `Status::WithContext`: the same code, the context put in front of the text. -/
def withContext (s : Status) (context : String) : Status :=
  { s with message := context ++ ": " ++ s.message }

def invalidArgument (msg : String) : Status := ⟨.invalidArgument, msg⟩
def outOfSpace (msg : String) : Status := ⟨.outOfSpace, msg⟩
def notFound (msg : String) : Status := ⟨.notFound, msg⟩
def outOfRange (msg : String) : Status := ⟨.outOfRange, msg⟩
def corruption (msg : String) : Status := ⟨.corruption, msg⟩
def txnConflict (msg : String) : Status := ⟨.txnConflict, msg⟩
def fkViolation (msg : String) : Status := ⟨.fkViolation, msg⟩
def assertionViolation (msg : String) : Status := ⟨.assertionViolation, msg⟩
def unsupported (msg : String) : Status := ⟨.unsupported, msg⟩
def resourceExhausted (msg : String) : Status := ⟨.resourceExhausted, msg⟩

end Status

end Kds
