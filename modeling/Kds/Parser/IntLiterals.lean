/-
  Kds.Parser.IntLiterals

  Who acts on the integer of a literal: a decimal's precision and scale, an assertion's bound, a
  LIMIT or OFFSET count (`src/parser/parser.cpp`) and the primary key that an INSERT names
  (`InsertOneRow`, `src/server/command_dispatcher.cpp`).

  The lexer's sum wraps past 64 bits.  The counts are decoded from the digits; the others go by the
  sum, and `literal_read_iff` says for which literals that reads another number.
-/

import Kds.Catalog.RowIds
import Kds.Exec.BoundCabin
import Kds.Exec.DecimalText
import Kds.Parser.Lexer

namespace Kds.Parser

open Lib Catalog
open Exec (BoundAggregate InInt64)
open Exec.Literals (DecimalWidth checkPrecisionScale checkPrecisionScale_eq_ok digitOf digitsNat
  isDigit)

-- The readers

/-- `Describe`. -/
def describe (tok : Token) : String :=
  if tok.type = .eof then "<end of input>" else textOf tok.text

/-- `Parser::ParseTypeArgument`. -/
def parseTypeArgument (what : String) (tok : Token) : StatusOr Nat :=
  if tok.type ≠ .intLit ∨ tok.negative = true then
    .error (.invalidArgument ("expected a non-negative integer " ++ what ++ ", got '" ++
      describe tok ++ "' at byte " ++ toString tok.byteOffset))
  else if tok.intVal < 0 ∨ 0xFFFF < tok.intVal then
    .error (.invalidArgument (what ++ " " ++ toString tok.intVal ++ " is implausible at byte " ++
      toString tok.byteOffset))
  else .ok tok.intVal.toNat

/-- The arguments a decimal column is declared with (`decimal(p, s)`): the precision selects the
    width. -/
def declaredDecimal (precision scale : Token) : StatusOr (Nat × Nat) := do
  let p ← parseTypeArgument "precision" precision
  let s ← parseTypeArgument "scale" scale
  checkPrecisionScale (if DecimalWidth.minPrecision .wide ≤ p then .wide else .narrow) p s
  return (p, s)

/-- `AssertionStmt::enforced_max`, with `<` or `<=`. -/
def enforcedMax (strict : Bool) (bound : Int) : Int := if strict then bound - 1 else bound

/-- The bound of an assertion, in its declaration. -/
def parseAssertionBound (name : String) (func : BoundAggregate) (strict : Bool) (bound : Token) :
    StatusOr Int :=
  if bound.type ≠ .intLit ∨ bound.negative = true ∨ bound.intVal < 0 then
    .error (.invalidArgument ("an assertion's bound is a non-negative integer literal, got '" ++
      describe bound ++ "' (byte " ++ toString bound.byteOffset ++ ")"))
  else if func = .count ∧ enforcedMax strict bound.intVal < 1 then
    .error (.invalidArgument ("assertion \"" ++ name ++ "\" can never admit a row: COUNT(*) " ++
      (if strict then "<" else "<=") ++ " " ++ toString bound.intVal ++ " enforces count <= " ++
      toString (enforcedMax strict bound.intVal) ++ ", and a group holds at least one row (byte " ++
      toString bound.byteOffset ++ ")"))
  else .ok bound.intVal

/-- `Parser::ParsePaginationCount`: `std::from_chars` over the digits. -/
def parsePaginationCount (clause : String) (tok : Token) : StatusOr Nat :=
  if tok.type ≠ .intLit ∨ tok.negative = true then
    .error (.invalidArgument (clause ++ " takes a non-negative integer literal, got '" ++
      describe tok ++ "' at byte " ++ toString tok.byteOffset))
  else if 2 ^ 64 ≤ digitsNat tok.digits then
    .error (.invalidArgument (clause ++ " count '" ++ textOf tok.digits ++
      "' does not fit in 64 bits (byte " ++ toString tok.byteOffset ++ ")"))
  else .ok (digitsNat tok.digits)

/-- `Parser::ParseValue`; parameters are legal in the body of a pattern. -/
def parseValue (inPattern : Bool) (tok : Token) : StatusOr AstValue :=
  match tok.type with
  | .intLit => .ok { type := .int, intVal := tok.intVal, rawIntText := tok.text }
  | .strLit | .numLit => .ok { type := .str, strVal := tok.text }
  | .nullLit => .ok .null
  | .namedParam =>
    if inPattern then .ok { type := .param, strVal := tok.text }
    else .error (.unsupported ("parameter '$" ++ textOf tok.text ++
      "' is only allowed in a CREATE PATTERN body (byte " ++ toString tok.byteOffset ++ ")"))
  | _ =>
    .error (.invalidArgument ("expected value (integer, number, 'string', or NULL), got '" ++
      describe tok ++ "'"))

/-- The key a row of an INSERT names (`InsertOneRow`), or the reply that refuses it. -/
def suppliedKey (column : String) (at_ : Nat) (key : AstValue) : Except String Nat :=
  if key.type ≠ .int then
    .error ("ERR primary-key column '" ++ column ++ "' needs an integer literal (byte " ++
      toString at_ ++ ")")
  else if key.intVal < 0 then
    .error ("ERR primary key " ++ toString key.intVal ++ " is negative (byte " ++ toString at_ ++
      ")")
  else .ok key.intVal.toNat

/-- The places that act on the integer of a literal. -/
inductive Reader where
  | decimalPrecision (s : Token)
  | decimalScale (p : Token)
  | assertionBound (name : String) (func : BoundAggregate) (strict : Bool)
  | pagination (clause : String)
  | primaryKey (column : String)

/-- The integer a place acts on, if it does not refuse the statement: a key has to be an id that
    can be spelled. -/
def Reader.read (r : Reader) (tok : Token) : Option Int :=
  match r with
  | .decimalPrecision s => (declaredDecimal tok s).toOption.map fun declared => declared.1
  | .decimalScale p => (declaredDecimal p tok).toOption.map fun declared => declared.2
  | .assertionBound name func strict => (parseAssertionBound name func strict tok).toOption
  | .pagination clause => (parsePaginationCount clause tok).toOption.map Int.ofNat
  | .primaryKey column => do
    let key ← (parseValue false tok).toOption
    let id ← (suppliedKey column tok.byteOffset key).toOption
    (checkSpellable id).toOption.map fun _ => Int.ofNat id

/-- The number a literal's digits write. -/
def Token.value (tok : Token) : Int :=
  if tok.negative then -(digitsNat tok.digits : Int) else digitsNat tok.digits

/-- A place goes by the wrapped sum, and takes it. -/
def Reader.Takes (negative : Bool) (sum : Int) : Reader → Prop
  | .decimalPrecision s => negative = false ∧ 1 ≤ sum ∧ sum ≤ 38 ∧
      ∃ scale : Nat, parseTypeArgument "scale" s = .ok scale ∧ scale ≤ sum
  | .decimalScale p => negative = false ∧ 0 ≤ sum ∧
      ∃ precision : Nat, parseTypeArgument "precision" p = .ok precision ∧ 1 ≤ precision ∧
        precision ≤ 38 ∧ sum ≤ precision
  | .assertionBound _ func strict =>
    negative = false ∧ 0 ≤ sum ∧ (func = .count → 1 ≤ enforcedMax strict sum)
  | .pagination _ => False
  | .primaryKey _ => 1 ≤ sum ∧ sum ≤ kMaxKeystoneId

-- What the lexer keeps of a literal

theorem wrap64_eq_self_iff {v : Int} : wrap64 v = v ↔ InInt64 v := by
  constructor
  · intro h
    rw [← h]
    have hlow := Int.le_bmod (x := v) (m := 2 ^ 64) (by decide)
    have hhigh := Int.bmod_lt (x := v) (m := 2 ^ 64) (by decide)
    simp only [wrap64, InInt64]
    omega
  · rintro ⟨hlow, hhigh⟩
    apply Int.bmod_eq_of_le <;> omega

theorem decodeDigits_eq (digits : Bytes) : decodeDigits digits = wrap64 (digitsNat digits) := by
  induction digits using List.reverseRecOn with
  | nil => rfl
  | append_singleton digits d ih =>
    have hstep : decodeDigits (digits ++ [d]) = wrap64 (decodeDigits digits * 10 + digitOf d) := by
      rw [decodeDigits, List.foldl_append]
      rfl
    have hnat : digitsNat (digits ++ [d]) = 10 * digitsNat digits + digitOf d := by
      rw [digitsNat, List.foldl_append]
      rfl
    rw [hstep, ih, hnat, Nat.cast_add, Nat.cast_mul, Int.mul_comm]
    rw [wrap64, wrap64, wrap64, ← Int.bmod_add_bmod, Int.mul_comm, Int.bmod_mul_bmod,
      Int.bmod_add_bmod, Nat.cast_ofNat, Int.mul_comm]

theorem intToken_intVal (text : Bytes) :
    (intToken text).intVal = wrap64 (intToken text).value := by
  cases text with
  | nil => rfl
  | cons c rest =>
    by_cases hsign : c = 45
    · have hvalue : (intToken (c :: rest)).value = -(digitsNat rest : Int) := by
        simp [intToken, Token.value, Token.digits, hsign]
      rw [hvalue]
      simp [intToken, hsign, decodeDigits_eq, wrap64]
    · have hvalue : (intToken (c :: rest)).value = digitsNat (c :: rest) := by
        simp [intToken, Token.value, Token.digits, hsign]
      rw [hvalue]
      simp [intToken, hsign, decodeDigits_eq]

theorem wordToken_type (text : Bytes) : (wordToken text).type ≠ .intLit := by
  rw [wordToken]
  split
  · nofun
  · split <;> nofun

theorem punctuation_ne (c : UInt8) : punctuation c ≠ .intLit := by
  rw [punctuation]
  split_ifs <;> nofun

theorem scanNumber_intLit {sign rest : Bytes} (h : (scanNumber sign rest).1.type = .intLit) :
    ∃ text, (scanNumber sign rest).1 = intToken text := by
  revert h
  rw [scanNumber]
  split
  · split
    · intro h
      cases h
    · exact fun _ => ⟨_, rfl⟩
  · exact fun _ => ⟨_, rfl⟩

theorem scanToken_intLit {src : Bytes} (h : (scanToken src).1.type = .intLit) :
    ∃ text, (scanToken src).1 = intToken text := by
  cases src with
  | nil => cases h
  | cons c rest =>
    revert h
    rw [scanToken]
    split_ifs <;> intro h
    · cases h
    · exact scanNumber_intLit h
    · exact scanNumber_intLit h
    · exact absurd h (wordToken_type _)
    · cases h
    · cases h
    · cases h
    · cases h
    · exact absurd h (punctuation_ne c)

variable {tok : Token}

theorem intVal_of_mem_tokens {sql : Bytes} (hmem : tok ∈ tokens sql) (hint : tok.type = .intLit) :
    tok.intVal = wrap64 tok.value := by
  obtain ⟨src, rfl⟩ : ∃ src, tok = (readToken sql.length src).1 := by
    suffices h : ∀ fuel src, tok ∈ readTokens sql.length fuel src →
        ∃ src, tok = (readToken sql.length src).1 from h _ _ hmem
    intro fuel
    induction fuel with
    | zero => nofun
    | succ fuel ih =>
      intro src hin
      rw [readTokens] at hin
      split_ifs at hin
      · cases hin
      · rcases List.mem_cons.mp hin with hhead | htail
        · exact ⟨src, hhead⟩
        · exact ih _ htail
  have hscan : (scanToken (skipWhitespaceAndComments false src)).1.type = .intLit := hint
  obtain ⟨text, htext⟩ := scanToken_intLit hscan
  have hsame := intToken_intVal text
  rw [← htext] at hsame
  exact hsame

-- What each place reads

theorem parsePaginationCount_ok {clause : String} {n : Nat}
    (h : parsePaginationCount clause tok = .ok n) :
    tok.negative = false ∧ n = digitsNat tok.digits := by
  rw [parsePaginationCount] at h
  split_ifs at h with hbad
  cases h
  exact ⟨by simpa using fun hneg => hbad (.inr hneg), rfl⟩

theorem parseTypeArgument_ok_iff {what : String} (hint : tok.type = .intLit) (n : Nat) :
    parseTypeArgument what tok = .ok n ↔
      tok.negative = false ∧ (n : Int) = tok.intVal ∧ n ≤ 0xFFFF := by
  rw [parseTypeArgument, hint]
  split_ifs with hneg hrange
  · have : tok.negative = true := by simpa using hneg
    simp [this]
  · simp only [false_iff]
    omega
  · have : tok.negative = false := by simpa using hneg
    simp only [this, Except.ok.injEq, true_and]
    omega

theorem declaredDecimal_ok_iff {precision scale : Token} {p s : Nat} :
    declaredDecimal precision scale = .ok (p, s) ↔
      parseTypeArgument "precision" precision = .ok p ∧
        parseTypeArgument "scale" scale = .ok s ∧ 1 ≤ p ∧ p ≤ 38 ∧ s ≤ p := by
  rw [declaredDecimal, bind_eq_ok]
  constructor
  · rintro ⟨p', hp, h⟩
    obtain ⟨s', hs, h⟩ := bind_eq_ok.mp h
    obtain ⟨_, hcheck, h⟩ := bind_eq_ok.mp h
    cases h
    have hadmits := checkPrecisionScale_eq_ok.mp hcheck
    rw [DecimalWidth.Admits] at hadmits
    split_ifs at hadmits with hwide
    · simp only [DecimalWidth.minPrecision, DecimalWidth.digitCap] at hadmits
      exact ⟨hp, hs, by omega, hadmits.2⟩
    · simp only [DecimalWidth.minPrecision, DecimalWidth.digitCap] at hadmits
      exact ⟨hp, hs, hadmits.1, by omega, hadmits.2.2⟩
  · rintro ⟨hp, hs, hlow, hhigh, hle⟩
    refine ⟨p, hp, bind_eq_ok.mpr ⟨s, hs, bind_eq_ok.mpr ⟨(), ?_, rfl⟩⟩⟩
    rw [checkPrecisionScale_eq_ok, DecimalWidth.Admits]
    split_ifs with hwide
    · exact ⟨hwide, hhigh, hle⟩
    · simp only [DecimalWidth.minPrecision, DecimalWidth.digitCap] at hwide ⊢
      omega

theorem parseAssertionBound_ok_iff {name : String} {func : BoundAggregate} {strict : Bool}
    (hint : tok.type = .intLit) (k : Int) :
    parseAssertionBound name func strict tok = .ok k ↔
      (Reader.assertionBound name func strict).Takes tok.negative tok.intVal ∧ k = tok.intVal := by
  rw [parseAssertionBound, Reader.Takes, hint]
  split_ifs with hneg hcount
  · simp only [ne_eq, not_true_eq_false, false_or] at hneg
    simp only [false_iff]
    rintro ⟨⟨hsign, hlow, -⟩, -⟩
    rcases hneg with hneg | hneg
    · cases hsign.symm.trans hneg
    · omega
  · simp only [false_iff]
    rintro ⟨⟨-, -, henough⟩, -⟩
    have := henough hcount.1
    omega
  · simp only [ne_eq, not_true_eq_false, false_or, not_or, Bool.not_eq_true, not_lt] at hneg
    simp only [hneg, true_and, Except.ok.injEq, eq_comm]
    refine ⟨fun h => ⟨fun hfunc => ?_, h⟩, fun h => h.2⟩
    exact Int.not_lt.mp fun hlow => hcount ⟨hfunc, hlow⟩

theorem suppliedKey_ok_iff {column : String} {at_ : Nat} {key : AstValue} (hint : key.type = .int)
    (n : Nat) : suppliedKey column at_ key = .ok n ↔ (n : Int) = key.intVal := by
  rw [suppliedKey, hint]
  split_ifs with hkind hneg
  · cases hkind rfl
  · simp only [false_iff]
    omega
  · simp only [Except.ok.injEq]
    omega

theorem checkSpellable_ok_iff (id : Nat) (u : Unit) :
    checkSpellable id = .ok u ↔ 1 ≤ id ∧ id ≤ kMaxKeystoneId := by
  constructor
  · exact checkSpellable_ok
  · rintro ⟨hlow, hhigh⟩
    rw [checkSpellable, if_neg (by rw [kFirstRowId]; omega), if_neg (by omega)]

theorem Reader.read_eq_some_iff {r : Reader} (hint : tok.type = .intLit)
    (hcount : ∀ clause, r ≠ .pagination clause) (k : Int) :
    r.read tok = some k ↔ r.Takes tok.negative tok.intVal ∧ k = tok.intVal := by
  cases r with
  | decimalPrecision s =>
    simp only [Reader.read, Option.map_eq_some_iff, toOption_eq_some, Prod.exists,
      declaredDecimal_ok_iff, parseTypeArgument_ok_iff hint, Reader.Takes]
    constructor
    · rintro ⟨n, scale, ⟨⟨hneg, hn, -⟩, hs, hlow, hhigh, hle⟩, rfl⟩
      rw [← hn]
      exact ⟨⟨hneg, by omega, by omega, scale, hs, by omega⟩, rfl⟩
    · rintro ⟨⟨hneg, hlow, hhigh, scale, hs, hle⟩, rfl⟩
      have hp : ((tok.intVal.toNat : Nat) : Int) = tok.intVal := by omega
      exact ⟨tok.intVal.toNat, scale, ⟨⟨hneg, hp, by omega⟩, hs, by omega, by omega, by omega⟩, hp⟩
  | decimalScale p =>
    simp only [Reader.read, Option.map_eq_some_iff, toOption_eq_some, Prod.exists,
      declaredDecimal_ok_iff, parseTypeArgument_ok_iff hint, Reader.Takes]
    constructor
    · rintro ⟨precision, n, ⟨hp, ⟨hneg, hn, -⟩, hlow, hhigh, hle⟩, rfl⟩
      rw [← hn]
      exact ⟨⟨hneg, by omega, precision, hp, hlow, hhigh, by omega⟩, rfl⟩
    · rintro ⟨⟨hneg, hpos, precision, hp, hlow, hhigh, hle⟩, rfl⟩
      have hs : ((tok.intVal.toNat : Nat) : Int) = tok.intVal := by omega
      exact ⟨precision, tok.intVal.toNat, ⟨hp, ⟨hneg, hs, by omega⟩, hlow, hhigh, by omega⟩, hs⟩
  | assertionBound name func strict =>
    rw [Reader.read, toOption_eq_some, parseAssertionBound_ok_iff hint]
  | pagination clause => exact absurd rfl (hcount clause)
  | primaryKey column =>
    have hparse : parseValue false tok =
        .ok { type := .int, intVal := tok.intVal, rawIntText := tok.text } := by
      rw [parseValue, hint]
    simp only [Reader.read, hparse, Reader.Takes, Option.bind_eq_bind, Option.bind_eq_some_iff,
      Option.map_eq_some_iff, toOption_eq_some, Except.ok.injEq, exists_eq_left',
      suppliedKey_ok_iff, checkSpellable_ok_iff]
    constructor
    · rintro ⟨id, hid, -, ⟨hlow, hhigh⟩, rfl⟩
      rw [← hid]
      exact ⟨⟨Int.ofNat_le.mpr hlow, Int.ofNat_le.mpr hhigh⟩, rfl⟩
    · rintro ⟨⟨hlow, hhigh⟩, rfl⟩
      have hid := Int.toNat_of_nonneg (Int.le_trans (by decide) hlow)
      exact ⟨tok.intVal.toNat, hid, (), ⟨by omega, by omega⟩, hid⟩

/-- A place acts on the number that the digits write exactly if the number fits in 64 bits, or the
    place refuses the wrapped sum (a count goes by the digits, so it never takes the sum). -/
theorem literal_read_iff {sql : Bytes} {tok : Token} (hmem : tok ∈ tokens sql)
    (hint : tok.type = .intLit) (r : Reader) :
    (∀ k, r.read tok = some k → k = tok.value) ↔
      InInt64 tok.value ∨ ¬ r.Takes tok.negative (wrap64 tok.value) := by
  have hsum := intVal_of_mem_tokens hmem hint
  by_cases hcount : ∃ clause, r = .pagination clause
  · obtain ⟨clause, rfl⟩ := hcount
    refine iff_of_true (fun k hread => ?_) (.inr id)
    simp only [Reader.read, Option.map_eq_some_iff, toOption_eq_some] at hread
    obtain ⟨n, hn, rfl⟩ := hread
    obtain ⟨hneg, rfl⟩ := parsePaginationCount_ok hn
    rw [Token.value, if_neg (by rw [hneg]; nofun)]
    rfl
  · simp only [Reader.read_eq_some_iff hint fun clause h => hcount ⟨clause, h⟩, hsum,
      ← wrap64_eq_self_iff]
    constructor
    · intro h
      by_cases htakes : r.Takes tok.negative (wrap64 tok.value)
      · exact .inl (h _ ⟨htakes, rfl⟩)
      · exact .inr htakes
    · rintro (hfits | hrefused) k ⟨htakes, rfl⟩
      · exact hfits
      · exact absurd htakes hrefused

/-- A precision of two digits is read as it stands. -/
theorem literal_read_precision :
    ∃ tok ∈ tokens (ascii "v DECIMAL(18, 2)"), ∃ scale ∈ tokens (ascii "v DECIMAL(18, 2)"),
      tok.type = .intLit ∧ (Reader.decimalPrecision scale).read tok = some 18 ∧
        ∀ k, (Reader.decimalPrecision scale).read tok = some k → k = tok.value :=
  ⟨{ intToken (ascii "18") with byteOffset := 10, length := 2 }, by decide +kernel,
    { intToken (ascii "2") with byteOffset := 14, length := 1 }, by decide +kernel, rfl,
    by decide +kernel,
    (@literal_read_iff (ascii "v DECIMAL(18, 2)") _ (by decide +kernel) rfl _).mpr
      (.inl (by decide))⟩

/-- Twenty digits of a key are read as row 1, or as row 5 with a sign; as many of a precision or
    of a bound are read as 2. -/
theorem literal_read_wrapped :
    (∃ tok ∈ tokens (ascii "INSERT INTO t VALUES (18446744073709551617)"),
      tok.type = .intLit ∧ tok.value = 18446744073709551617 ∧
        (Reader.primaryKey "id").read tok = some 1) ∧
    (∃ tok ∈ tokens (ascii "INSERT INTO t VALUES (-18446744073709551611)"),
      tok.type = .intLit ∧ tok.value = -18446744073709551611 ∧
        (Reader.primaryKey "id").read tok = some 5) ∧
    (∃ tok ∈ tokens (ascii "CREATE TABLE t (v DECIMAL(18446744073709551618, 2))"),
      tok.type = .intLit ∧ tok.value = 18446744073709551618 ∧
        (Reader.decimalPrecision (intToken (ascii "2"))).read tok = some 2) ∧
    (∃ tok ∈ tokens (ascii "CREATE ASSERTION a ON t CHECK (COUNT(*) <= 18446744073709551618)"),
      tok.type = .intLit ∧ tok.value = 18446744073709551618 ∧
        (Reader.assertionBound "a" .count false).read tok = some 2) := by
  refine ⟨?_, ?_, ?_, ?_⟩ <;> decide +kernel

end Kds.Parser
