/-
  Kds.Parser.Lexer

  The lexer (`src/parser/lexer.cpp`, `include/kds/parser/token.hpp`).  A token is cut off the front
  of the text that is left; its text is the bytes as written, less the quotes of a string and the
  sigil of a parameter.  An integer literal is also decoded, by a sum that wraps past 64 bits, and
  keeps its digits.
-/

import Kds.Exec.DecimalLiteral

namespace Kds.Parser

open Lib
open Exec.Literals (isDigit digitOf digitsNat)

/-- `enum class Keyword`: the reserved words. -/
inductive Keyword where
  | join | on | as | in_ | exists_ | not | between | left | right | full | outer
  deriving DecidableEq

/-- `enum class TokenType`. -/
inductive TokenType where
  | eof | ident | intLit | strLit | numLit | nullLit | keyword | param | namedParam
  | lParen | rParen | comma | semicolon | star | dot | eq | neq | lt | lte | gt | gte | error
  deriving DecidableEq

/-- `struct Token`. -/
structure Token where
  type : TokenType := .eof
  text : Bytes := []
  intVal : Int := 0
  kw : Keyword := .join
  byteOffset : Nat := 0
  length : Nat := 0
  negative : Bool := false
  deriving DecidableEq

/-- `Token::digits`. -/
def Token.digits (tok : Token) : Bytes :=
  if tok.negative ∧ tok.text ≠ [] then tok.text.tail else tok.text

-- Characters, in the C locale

/-- The bytes of an ASCII word. -/
def ascii (s : String) : Bytes := s.toList.map fun c => UInt8.ofNat c.toNat

def isSpace (c : UInt8) : Bool := c = 32 || (9 ≤ c && c ≤ 13)

def isAlpha (c : UInt8) : Bool := (65 ≤ c && c ≤ 90) || (97 ≤ c && c ≤ 122)

def isIdentStart (c : UInt8) : Bool := isAlpha c || c = 95

def isIdentCont (c : UInt8) : Bool := isAlpha c || isDigit c || c = 95

def foldAscii (c : UInt8) : UInt8 := if 65 ≤ c ∧ c ≤ 90 then c + 32 else c

/-- `IEquals`. -/
def iequals (a b : Bytes) : Bool := a.map foldAscii = b.map foldAscii

def keywords : List (Bytes × Keyword) :=
  [(ascii "JOIN", .join), (ascii "ON", .on), (ascii "AS", .as), (ascii "IN", .in_),
    (ascii "EXISTS", .exists_), (ascii "NOT", .not), (ascii "BETWEEN", .between),
    (ascii "LEFT", .left), (ascii "RIGHT", .right), (ascii "FULL", .full), (ascii "OUTER", .outer)]

/-- `LookupKeyword`. -/
def lookupKeyword (text : Bytes) : Option Keyword :=
  (keywords.find? fun row => iequals text row.1).map (·.2)

-- Scanning

/-- `SkipWhitespaceAndComments`; `inComment` is the loop that looks for the end of a `--` line. -/
def skipWhitespaceAndComments (inComment : Bool) : Bytes → Bytes
  | [] => []
  | c :: rest =>
    if inComment then skipWhitespaceAndComments (c ≠ 10) rest
    else if isSpace c then skipWhitespaceAndComments false rest
    else if c = 45 ∧ rest.head? = some 45 then skipWhitespaceAndComments true rest
    else c :: rest

/-- Two's complement. -/
def wrap64 (v : Int) : Int := v.bmod (2 ^ 64)

/-- The decode loop of an integer literal. -/
def decodeDigits (digits : Bytes) : Int :=
  digits.foldl (fun v d => wrap64 (v * 10 + digitOf d)) 0

/-- An integer literal's token. -/
def intToken (text : Bytes) : Token :=
  let negative : Bool := text.head? = some 45
  let v := decodeDigits (if negative then text.tail else text)
  { type := .intLit, text := text, negative := negative,
    intVal := if negative then wrap64 (-v) else v }

/-- The literal that starts with a sign, if any, and a run of digits: a point with a digit behind
    it makes the two runs one numeric literal. -/
def scanNumber (sign rest : Bytes) : Token × Bytes :=
  let whole := sign ++ rest.takeWhile isDigit
  match rest.dropWhile isDigit with
  | 46 :: d :: after =>
    if isDigit d then
      ({ type := .numLit, text := whole ++ 46 :: (d :: after).takeWhile isDigit },
        (d :: after).dropWhile isDigit)
    else (intToken whole, 46 :: d :: after)
  | after => (intToken whole, after)

/-- A word: NULL, a reserved word or an identifier. -/
def wordToken (text : Bytes) : Token :=
  if iequals text (ascii "NULL") then { type := .nullLit, text := text }
  else
    match lookupKeyword text with
    | some kw => { type := .keyword, text := text, kw := kw }
    | none => { type := .ident, text := text }

/-- The type of a one-character token. -/
def punctuation (c : UInt8) : TokenType :=
  if c = 40 then .lParen
  else if c = 41 then .rParen
  else if c = 44 then .comma
  else if c = 59 then .semicolon
  else if c = 42 then .star
  else if c = 46 then .dot
  else if c = 61 then .eq
  else if c = 60 then .lt
  else if c = 62 then .gt
  else if c = 63 then .param
  else .error

/-- `Lexer::ScanToken`, and the text it leaves. -/
def scanToken : Bytes → Token × Bytes
  | [] => ({}, [])
  | c :: rest =>
    if c = 39 then
      -- no escape: the string runs to the next quote, or to the end
      ({ type := .strLit, text := rest.takeWhile (· ≠ 39) }, (rest.dropWhile (· ≠ 39)).tail)
    else if isDigit c then scanNumber [] (c :: rest)
    else if c = 45 ∧ rest.head?.any isDigit then scanNumber [c] rest
    else if isIdentStart c then
      (wordToken ((c :: rest).takeWhile isIdentCont), (c :: rest).dropWhile isIdentCont)
    else if c = 36 ∧ rest.head?.any isIdentStart then
      ({ type := .namedParam, text := rest.takeWhile isIdentCont }, rest.dropWhile isIdentCont)
    else if c = 33 ∧ rest.head? = some 61 then ({ type := .neq, text := [33, 61] }, rest.tail)
    else if c = 60 ∧ rest.head? = some 61 then ({ type := .lte, text := [60, 61] }, rest.tail)
    else if c = 62 ∧ rest.head? = some 61 then ({ type := .gte, text := [62, 61] }, rest.tail)
    else ({ type := punctuation c, text := [c] }, rest)

/-- `Lexer::ReadToken`, in a text of `size` bytes: the token with its place and extent. -/
def readToken (size : Nat) (src : Bytes) : Token × Bytes :=
  let start := skipWhitespaceAndComments false src
  let scanned := scanToken start
  ({ scanned.1 with
      byteOffset := (size - start.length) % 2 ^ 32
      length := (start.length - scanned.2.length) % 2 ^ 32 }, scanned.2)

/-- The tokens of a text up to its end, so many of them at most. -/
def readTokens (size : Nat) : Nat → Bytes → List Token
  | 0, _ => []
  | fuel + 1, src =>
    let tok := readToken size src
    if tok.1.type = .eof then [] else tok.1 :: readTokens size fuel tok.2

/-- The tokens of a text. -/
def tokens (sql : Bytes) : List Token := readTokens sql.length (sql.length + 1) sql

-- Every token takes a byte, so the bound on their number is enough

theorem length_skip_le (src : Bytes) (inComment : Bool) :
    (skipWhitespaceAndComments inComment src).length ≤ src.length := by
  induction src generalizing inComment with
  | nil => exact Nat.le_refl 0
  | cons c rest ih =>
    rw [skipWhitespaceAndComments]
    split_ifs
    · exact Nat.le_succ_of_le (ih _)
    · exact Nat.le_succ_of_le (ih _)
    · exact Nat.le_succ_of_le (ih _)
    · exact Nat.le_refl _

theorem length_dropWhile_le (p : UInt8 → Bool) (l : Bytes) :
    (l.dropWhile p).length ≤ l.length :=
  (List.dropWhile_sublist p).length_le

theorem length_scanNumber_le (sign rest : Bytes) :
    (scanNumber sign rest).2.length ≤ (rest.dropWhile isDigit).length := by
  rw [scanNumber]
  split
  case h_1 d after hpoint =>
    rw [hpoint]
    split
    · exact Nat.le_succ_of_le (length_dropWhile_le _ _)
    · exact Nat.le_refl _
  case h_2 => exact Nat.le_refl _

theorem length_scanToken_le (c : UInt8) (rest : Bytes) :
    (scanToken (c :: rest)).2.length ≤ rest.length := by
  have htail (l : Bytes) : l.tail.length ≤ l.length := by rw [List.length_tail]; omega
  rw [scanToken]
  split_ifs with hquote hdigit hsign hident
  · exact Nat.le_trans (htail _) (length_dropWhile_le _ _)
  · apply Nat.le_trans (length_scanNumber_le _ _)
    rw [List.dropWhile_cons_of_pos hdigit]
    exact length_dropWhile_le _ _
  · exact Nat.le_trans (length_scanNumber_le _ _) (length_dropWhile_le _ _)
  · have hcont : isIdentCont c = true := by
      simp only [isIdentStart, Bool.or_eq_true] at hident
      simp only [isIdentCont, Bool.or_eq_true]
      tauto
    rw [List.dropWhile_cons_of_pos hcont]
    exact length_dropWhile_le _ _
  · exact length_dropWhile_le _ _
  · exact htail _
  · exact htail _
  · exact htail _
  · exact Nat.le_refl _

variable {size : Nat} {src : Bytes}

theorem length_readToken_lt (h : (readToken size src).1.type ≠ .eof) :
    (readToken size src).2.length < src.length := by
  have hskip := length_skip_le src false
  rw [readToken] at h ⊢
  cases hstart : skipWhitespaceAndComments false src with
  | nil =>
    rw [hstart] at h
    exact absurd rfl h
  | cons c rest =>
    rw [hstart, List.length_cons] at hskip
    exact Nat.lt_of_le_of_lt (length_scanToken_le c rest) hskip

theorem readTokens_of_length_lt {fuel : Nat} (h : src.length < fuel) :
    readTokens size fuel src = readTokens size (src.length + 1) src := by
  induction fuel using Nat.strong_induction_on generalizing src with
  | h fuel ih =>
    cases fuel with
    | zero => cases h
    | succ fuel =>
      rw [readTokens, readTokens]
      by_cases heof : (readToken size src).1.type = .eof
      · rw [if_pos heof, if_pos heof]
      · have hless := length_readToken_lt heof
        rw [if_neg heof, if_neg heof, ih fuel (Nat.lt_succ_self fuel) (by omega)]
        by_cases hsame : src.length = fuel
        · rw [hsame, ih fuel (Nat.lt_succ_self fuel) (by omega)]
        · rw [← ih src.length (by omega) hless]

end Kds.Parser
