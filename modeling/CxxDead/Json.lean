import CxxDead.Bytes
import CxxDead.Lib.Throwing
import Mathlib.Data.Rat.Defs
/-!
# JSON values, the parser and the string escape

The parser's state is the input that is left; the offset of an error is the
length of what was read before it. A number is the rational that a finite double
stands for, and `fromChars` is the conversion of a number token. The fuel that
`parse` gives is more than the recursion can use.
-/

namespace CxxDead

open Lib

namespace Json

inductive Value where
  | null
  | bool (value : Bool)
  | number (value : ℚ)
  | string (value : Bytes)
  | array (value : List Value)
  | object (value : List (Bytes × Value))
deriving Inhabited

structure ParseError where
  offset : Nat
  message : Bytes
deriving DecidableEq

/-- An object's member, or nothing for other values. -/
def Value.find (value : Value) (key : Bytes) : Option Value :=
  match value with
  | .object members => members.lookup key
  | _ => none

def Value.stringOr (value : Value) (key fallback : Bytes) : Bytes :=
  match value.find key with
  | some (.string s) => s
  | _ => fallback

def Value.boolOr (value : Value) (key : Bytes) (fallback : Bool) : Bool :=
  match value.find key with
  | some (.bool b) => b
  | _ => fallback

/-- `emplace` into a map ordered by key, or nothing if the key is there. -/
def emplaceMember (members : List (Bytes × Value)) (key : Bytes) (value : Value) : Option (List (Bytes × Value)) :=
  match members with
  | [] => some [(key, value)]
  | (k, v) :: rest =>
    if key < k then some ((key, value) :: (k, v) :: rest)
    else if key = k then none
    else (emplaceMember rest key value).map ((k, v) :: ·)

/-- The message and the input left at the point of failure. -/
abbrev Parser := EStateM Bytes Bytes

def fail {α : Type} (message : String) : Parser α := throw (lit message)

def isSpace (c : UInt8) : Bool := c == ch ' ' || c == 9 || c == 10 || c == 13

def isDigit (c : UInt8) : Bool := decide (ch '0' ≤ c) && decide (c ≤ ch '9')

def skipSpace : Parser Unit := modify (·.dropWhile isSpace)

def consume (expected : Char) : Parser Bool := fun input =>
  match input with
  | c :: rest => if c = ch expected then .ok true rest else .ok false input
  | [] => .ok false input

def expect (expected : Char) : Parser Unit := do
  if !(← consume expected) then
    throw (lit "expected '" ++ [ch expected] ++ lit "'")

def parseLiteral (literal : String) (value : Value) : Parser Value := fun input =>
  if (lit literal).isPrefixOf input then .ok value (input.drop (lit literal).length)
  else .error (lit "invalid literal") input

/-! ## Strings -/

def appendUtf8 (output : Bytes) (codePoint : Nat) : Bytes :=
  if codePoint ≤ 0x7f then output ++ [codePoint.toUInt8]
  else if codePoint ≤ 0x7ff then
    output ++ [(0xc0 + codePoint / 2 ^ 6).toUInt8, (0x80 + codePoint % 2 ^ 6).toUInt8]
  else if codePoint ≤ 0xffff then
    output ++ [(0xe0 + codePoint / 2 ^ 12).toUInt8, (0x80 + codePoint / 2 ^ 6 % 2 ^ 6).toUInt8,
      (0x80 + codePoint % 2 ^ 6).toUInt8]
  else
    output ++ [(0xf0 + codePoint / 2 ^ 18).toUInt8, (0x80 + codePoint / 2 ^ 12 % 2 ^ 6).toUInt8,
      (0x80 + codePoint / 2 ^ 6 % 2 ^ 6).toUInt8, (0x80 + codePoint % 2 ^ 6).toUInt8]

def hexDigit (c : UInt8) : Option Nat :=
  if isDigit c then some (c.toNat - 48)
  else if ch 'a' ≤ c ∧ c ≤ ch 'f' then some (c.toNat - 97 + 10)
  else if ch 'A' ≤ c ∧ c ≤ ch 'F' then some (c.toNat - 65 + 10)
  else none

/-- The digits of a quad, most significant first; a bad digit is read before it fails. -/
def parseHexDigits : Nat → Nat → Parser Nat
  | 0, result => pure result
  | n + 1, result => fun input =>
    match input with
    | [] => .error (lit "incomplete unicode escape") input
    | c :: rest =>
      match hexDigit c with
      | some d => parseHexDigits n (16 * result + d) rest
      | none => .error (lit "invalid unicode escape") rest

def parseHexQuad : Parser Nat := do
  if (← get).length < 4 then fail "incomplete unicode escape"
  parseHexDigits 4 0

/-- The character of an escape letter other than `u`. -/
def simpleEscape (c : UInt8) : Option UInt8 :=
  if c = ch '"' then some (ch '"')
  else if c = ch '\\' then some (ch '\\')
  else if c = ch '/' then some (ch '/')
  else if c = ch 'b' then some 8
  else if c = ch 'f' then some 12
  else if c = ch 'n' then some 10
  else if c = ch 'r' then some 13
  else if c = ch 't' then some 9
  else none

/-- What follows `\u`. -/
def parseUnicode : Parser Nat := do
  let codePoint ← parseHexQuad
  if 0xd800 ≤ codePoint ∧ codePoint ≤ 0xdbff then
    let input ← get
    if !([ch '\\', ch 'u'].isPrefixOf input) then fail "missing low unicode surrogate"
    set (input.drop 2)
    let low ← parseHexQuad
    if low < 0xdc00 ∨ low > 0xdfff then fail "invalid low unicode surrogate"
    pure (0x10000 + (codePoint - 0xd800) * 2 ^ 10 + (low - 0xdc00))
  else pure codePoint

/-- The loop of `parse_string`, one turn for each unit of fuel. -/
def parseCharacters : Nat → Bytes → Parser Bytes
  | 0, _ => fail "unterminated string"
  | n + 1, result => fun input =>
    match input with
    | [] => .error (lit "unterminated string") []
    | c :: rest =>
      if c = ch '"' then .ok result rest
      else if c < 0x20 then .error (lit "unescaped control character in string") rest
      else if c ≠ ch '\\' then parseCharacters n (result ++ [c]) rest
      else
        match rest with
        | [] => .error (lit "incomplete escape sequence") []
        | escaped :: rest =>
          if escaped = ch 'u' then
            (do
              let codePoint ← parseUnicode
              parseCharacters n (appendUtf8 result codePoint)) rest
          else
            match simpleEscape escaped with
            | some character => parseCharacters n (result ++ [character]) rest
            | none => .error (lit "invalid escape sequence") rest

def parseString : Parser Bytes := do
  expect '"'
  let input ← get
  parseCharacters (input.length + 1) []

/-! ## Numbers -/

/-- Read digits, at least one of which is there. -/
def parseDigits (message : String) : Parser Bytes := fun input =>
  let digits := input.takeWhile isDigit
  if digits = [] then .error (lit message) input else .ok digits (input.drop digits.length)

/-- An optional sign of the exponent. -/
def parseSign : Parser Bytes := fun input =>
  match input with
  | c :: rest => if c = ch '+' ∨ c = ch '-' then .ok [c] rest else .ok [] input
  | [] => .ok [] input

def parseInteger : Parser Bytes := do
  if ← consume '0' then pure [ch '0'] else parseDigits "invalid number"

def parseFraction : Parser Bytes := do
  if ← consume '.' then
    let digits ← parseDigits "invalid fractional part"
    pure (ch '.' :: digits)
  else pure []

def parseExponent : Parser Bytes := fun input =>
  match input with
  | c :: rest =>
    if c = ch 'e' ∨ c = ch 'E' then
      (do
        let sign ← parseSign
        let digits ← parseDigits "invalid exponent"
        pure (c :: sign ++ digits)) rest
    else .ok [] input
  | [] => .ok [] input

/-- An optional minus sign, after which something must follow. -/
def parseMinus : Parser Bytes := do
  if ← consume '-' then
    if (← get) = [] then fail "incomplete number" else pure [ch '-']
  else pure []

section Convert
variable (fromChars : Bytes → Option ℚ)

def parseNumber : Parser Value := do
  let sign ← parseMinus
  let integer ← parseInteger
  let fraction ← parseFraction
  let exponent ← parseExponent
  match fromChars (sign ++ integer ++ fraction ++ exponent) with
  | some number => pure (.number number)
  | none => fail "number is not representable"

/-! ## Values -/

mutual

def parseValue : Nat → Parser Value
  | 0 => fail "invalid value"
  | n + 1 => do
    skipSpace
    match (← get) with
    | [] => fail "expected a value"
    | c :: _ =>
      if c = ch 'n' then parseLiteral "null" .null
      else if c = ch 't' then parseLiteral "true" (.bool true)
      else if c = ch 'f' then parseLiteral "false" (.bool false)
      else if c = ch '"' then
        let s ← parseString
        pure (.string s)
      else if c = ch '[' then
        expect '['
        skipSpace
        if ← consume ']' then pure (.array []) else parseElements n []
      else if c = 123 then
        expect (Char.ofNat 123)
        skipSpace
        if ← consume (Char.ofNat 125) then pure (.object []) else parseMembers n []
      else if c = ch '-' ∨ isDigit c = true then parseNumber fromChars
      else fail "invalid value"

/-- The loop of `parse_array`. -/
def parseElements : Nat → List Value → Parser Value
  | 0, _ => fail "invalid value"
  | n + 1, result => do
    let value ← parseValue n
    skipSpace
    if ← consume ']' then pure (.array (result ++ [value]))
    else
      expect ','
      skipSpace
      parseElements n (result ++ [value])

/-- The loop of `parse_object`. -/
def parseMembers : Nat → List (Bytes × Value) → Parser Value
  | 0, _ => fail "invalid value"
  | n + 1, result => do
    if (← get).head? ≠ some (ch '"') then fail "expected an object key"
    let key ← parseString
    skipSpace
    expect ':'
    skipSpace
    let value ← parseValue n
    match emplaceMember result key value with
    | none => fail "duplicate object key"
    | some result =>
      skipSpace
      if ← consume (Char.ofNat 125) then pure (.object result)
      else
        expect ','
        skipSpace
        parseMembers n result

end

def parseDocument (fuel : Nat) : Parser Value := do
  skipSpace
  let result ← parseValue fromChars fuel
  skipSpace
  if (← get) ≠ [] then fail "unexpected trailing content"
  pure result

def parse (input : Bytes) : Except ParseError Value :=
  match parseDocument fromChars (2 * input.length + 2) input with
  | .ok value _ => .ok value
  | .error message rest => .error ⟨input.length - rest.length, message⟩

end Convert

/-! ## The escape -/

def hexCharacter (d : Nat) : UInt8 := if d < 10 then ch '0' + d.toUInt8 else ch 'a' + (d - 10).toUInt8

def escapeByte (c : UInt8) : Bytes :=
  if c = ch '"' then lit "\\\""
  else if c = ch '\\' then lit "\\\\"
  else if c = 8 then lit "\\b"
  else if c = 12 then lit "\\f"
  else if c = 10 then lit "\\n"
  else if c = 13 then lit "\\r"
  else if c = 9 then lit "\\t"
  else if c < 0x20 then lit "\\u00" ++ [hexCharacter (c.toNat / 16), hexCharacter (c.toNat % 16)]
  else [c]

def escape (input : Bytes) : Bytes := input.flatMap escapeByte

/-- A string literal. -/
def quoted (s : Bytes) : Bytes := ch '"' :: escape s ++ [ch '"']

example : escape (lit "a\"b\n" ++ [1]) = lit "a\\\"b\\n\\u0001" := by decide

end Json

end CxxDead
