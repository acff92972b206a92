/-
  Kds.Parser.Value

  The value a literal, a parameter or a decoded column carries
  (`include/kds/parser/ast.hpp`).  `byte_offset` is left out: nothing compares it.
-/

import Mathlib.Data.List.Basic

namespace Kds

/-- `enum class ValueType`. -/
inductive ValueType where
  | int | str | null | param | decimal | decimalWide
  deriving DecidableEq

/-- `struct AstValue`.  The two `int64` fields are `Int`; every place of the engine where
    their width matters checks or truncates it explicitly. -/
structure AstValue where
  type : ValueType := .null
  /-- kInt and kDecimal: the (unscaled) value; kDecimalWide: its low 64 bits. -/
  intVal : Int := 0
  /-- kStr: the string's bytes; kParam: the parameter's name. -/
  strVal : List UInt8 := []
  /-- kInt: the literal's digits, kept for a `uint64` that `intVal` cannot hold. -/
  rawIntText : List UInt8 := []
  scale : UInt8 := 0
  /-- kDecimalWide: the high 64 bits. -/
  decHi : Int := 0
  deriving DecidableEq

namespace AstValue

def ofInt (v : Int) : AstValue := { type := .int, intVal := v }
def null : AstValue := {}

end AstValue

end Kds
