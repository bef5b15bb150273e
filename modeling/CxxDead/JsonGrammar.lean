import CxxDead.Json
import CxxDead.Lib.Sorting
/-!
# The JSON grammar

The standard's grammar as concrete syntax trees, each production with its text. Its
terminals are bytes, so an unescaped character is any byte from 0x20 on but the
quotation mark and the reverse solidus. White space stands between the tokens.

- `Document.text`: the text that a derivation spells.
- `Document.Admitted`: distinct keys, paired surrogates, convertible numbers.
- `Document.value`: what it denotes.
-/

namespace CxxDead

open Lib

namespace Json

/-! ## Tokens -/

/-- A character of `ws`. -/
inductive White where
  | space
  | tab
  | lineFeed
  | carriageReturn

def White.byte : White → UInt8
  | .space => 0x20
  | .tab => 0x09
  | .lineFeed => 0x0A
  | .carriageReturn => 0x0D

def whiteText (w : List White) : Bytes := w.map White.byte

def digitByte (d : Fin 10) : UInt8 := 0x30 + d.val.toUInt8

/-- `1*DIGIT` -/
structure Digits where
  first : Fin 10
  rest : List (Fin 10)

def Digits.text (d : Digits) : Bytes := (d.first :: d.rest).map digitByte

/-- `int = zero / ( digit1-9 *DIGIT )`, the first digit counted from one. -/
inductive IntPart where
  | zero
  | digits (first : Fin 9) (rest : List (Fin 10))

def IntPart.text : IntPart → Bytes
  | .zero => [0x30]
  | .digits first rest => (first.succ :: rest).map digitByte

inductive Sign where
  | plus
  | minus

def Sign.byte : Sign → UInt8
  | .plus => 0x2B
  | .minus => 0x2D

/-- `exp = e [ minus / plus ] 1*DIGIT` -/
structure Exponent where
  upper : Bool
  sign : Option Sign
  digits : Digits

def Exponent.text (e : Exponent) : Bytes :=
  (if e.upper then 0x45 else 0x65) :: (e.sign.toList.map Sign.byte ++ e.digits.text)

/-- `number = [ minus ] int [ frac ] [ exp ]` -/
structure NumberToken where
  negative : Bool
  integer : IntPart
  fraction : Option Digits
  exponent : Option Exponent

def fractionText : Option Digits → Bytes
  | none => []
  | some digits => 0x2E :: digits.text

def exponentText : Option Exponent → Bytes
  | none => []
  | some e => e.text

def NumberToken.text (n : NumberToken) : Bytes :=
  (if n.negative then [0x2D] else []) ++ n.integer.text ++ fractionText n.fraction ++ exponentText n.exponent

/-! ## Strings -/

/-- A letter of a hexadecimal digit may be of either case. -/
structure HexDigit where
  digit : Fin 16
  upper : Bool

def HexDigit.byte (d : HexDigit) : UInt8 :=
  if d.digit.val < 10 then 0x30 + d.digit.val.toUInt8
  else if d.upper then 0x41 + (d.digit.val - 10).toUInt8
  else 0x61 + (d.digit.val - 10).toUInt8

/-- `4HEXDIG` -/
structure HexQuad where
  first : HexDigit
  second : HexDigit
  third : HexDigit
  fourth : HexDigit

def HexQuad.text (q : HexQuad) : Bytes := [q.first.byte, q.second.byte, q.third.byte, q.fourth.byte]

def HexQuad.codePoint (q : HexQuad) : Nat :=
  16 * (16 * (16 * q.first.digit.val + q.second.digit.val) + q.third.digit.val) + q.fourth.digit.val

def HexQuad.IsHigh (q : HexQuad) : Prop := 0xD800 ≤ q.codePoint ∧ q.codePoint ≤ 0xDBFF

def HexQuad.IsLow (q : HexQuad) : Prop := 0xDC00 ≤ q.codePoint ∧ q.codePoint ≤ 0xDFFF

instance instDecidableIsHigh (q : HexQuad) : Decidable q.IsHigh := inferInstanceAs (Decidable (_ ∧ _))

instance instDecidableIsLow (q : HexQuad) : Decidable q.IsLow := inferInstanceAs (Decidable (_ ∧ _))

inductive SimpleEscape where
  | quotationMark
  | reverseSolidus
  | solidus
  | backspace
  | formFeed
  | lineFeed
  | carriageReturn
  | tab

/-- The letter behind the reverse solidus. -/
def SimpleEscape.letter : SimpleEscape → UInt8
  | .quotationMark => 0x22
  | .reverseSolidus => 0x5C
  | .solidus => 0x2F
  | .backspace => 0x62
  | .formFeed => 0x66
  | .lineFeed => 0x6E
  | .carriageReturn => 0x72
  | .tab => 0x74

def SimpleEscape.character : SimpleEscape → UInt8
  | .quotationMark => 0x22
  | .reverseSolidus => 0x5C
  | .solidus => 0x2F
  | .backspace => 0x08
  | .formFeed => 0x0C
  | .lineFeed => 0x0A
  | .carriageReturn => 0x0D
  | .tab => 0x09

/-- `char`: what stands between the quotation marks of a string. -/
inductive StringChar where
  | unescaped (c : UInt8) (h : 0x20 ≤ c ∧ c ≠ 0x22 ∧ c ≠ 0x5C)
  | escape (e : SimpleEscape)
  | unicode (q : HexQuad)

def StringChar.text : StringChar → Bytes
  | .unescaped c _ => [c]
  | .escape e => [0x5C, e.letter]
  | .unicode q => 0x5C :: 0x75 :: q.text

def stringText (s : List StringChar) : Bytes := 0x22 :: (s.flatMap StringChar.text ++ [0x22])

/-- Every escape of a high surrogate has one of a low surrogate behind it. -/
def SurrogatesPaired (s : List StringChar) : Prop :=
  ∀ before high after, s = before ++ .unicode high :: after → high.IsHigh →
    ∃ low after', after = .unicode low :: after' ∧ low.IsLow

/-- The UTF-8 of a code point. For a surrogate, which no character has, these are the three bytes of its number. -/
def utf8 (codePoint : Nat) : Bytes :=
  if 0xD800 ≤ codePoint ∧ codePoint ≤ 0xDFFF then
    [0xED, (0x80 + codePoint / 2 ^ 6 % 2 ^ 6).toUInt8, (0x80 + codePoint % 2 ^ 6).toUInt8]
  else String.utf8EncodeChar (Char.ofNat codePoint)

/-- The code point of two surrogates. -/
def combined (high low : HexQuad) : Nat :=
  0x10000 + (high.codePoint - 0xD800) * 2 ^ 10 + (low.codePoint - 0xDC00)

/-- The bytes that a string denotes. A low surrogate alone is encoded as the number it is. -/
def decode : List StringChar → Bytes
  | [] => []
  | .unescaped c _ :: s => c :: decode s
  | .escape e :: s => e.character :: decode s
  | .unicode high :: .unicode low :: s =>
    if high.IsHigh ∧ low.IsLow then utf8 (combined high low) ++ decode s
    else utf8 high.codePoint ++ decode (.unicode low :: s)
  | .unicode q :: s => utf8 q.codePoint ++ decode s

/-! ## Values -/

inductive Literal where
  | null
  | bool (value : Bool)

def Literal.text : Literal → Bytes
  | .null => lit "null"
  | .bool true => lit "true"
  | .bool false => lit "false"

def Literal.value : Literal → Value
  | .null => .null
  | .bool b => .bool b

mutual

inductive Tree where
  | literal (l : Literal)
  | number (n : NumberToken)
  | string (s : List StringChar)
  | emptyArray (w : List White)
  | array (w : List White) (elements : Elements)
  | emptyObject (w : List White)
  | object (w : List White) (members : Members)

/-- The values of an array, up to the closing bracket. -/
inductive Elements where
  | last (t : Tree) (w : List White)
  | more (t : Tree) (before after : List White) (rest : Elements)

/-- The members of an object; `colon` and `value` stand around the colon. -/
inductive Members where
  | last (key : List StringChar) (colon value : List White) (t : Tree) (w : List White)
  | more (key : List StringChar) (colon value : List White) (t : Tree) (before after : List White) (rest : Members)

end

mutual

def Tree.text : Tree → Bytes
  | .literal l => l.text
  | .number n => n.text
  | .string s => stringText s
  | .emptyArray w => 0x5B :: (whiteText w ++ [0x5D])
  | .array w elements => 0x5B :: (whiteText w ++ (elements.text ++ [0x5D]))
  | .emptyObject w => 0x7B :: (whiteText w ++ [0x7D])
  | .object w members => 0x7B :: (whiteText w ++ (members.text ++ [0x7D]))

def Elements.text : Elements → Bytes
  | .last t w => t.text ++ whiteText w
  | .more t before after rest => t.text ++ (whiteText before ++ 0x2C :: (whiteText after ++ rest.text))

def Members.text : Members → Bytes
  | .last key colon value t w =>
    stringText key ++ (whiteText colon ++ 0x3A :: (whiteText value ++ (t.text ++ whiteText w)))
  | .more key colon value t before after rest =>
    stringText key ++ (whiteText colon ++ 0x3A :: (whiteText value ++
      (t.text ++ (whiteText before ++ 0x2C :: (whiteText after ++ rest.text)))))

end

/-- The keys of an object, decoded. -/
def Members.keys : Members → List Bytes
  | .last key _ _ _ _ => [decode key]
  | .more key _ _ _ _ _ rest => decode key :: rest.keys

section Convert
variable (fromChars : Bytes → Option ℚ)

mutual

def Tree.Admitted : Tree → Prop
  | .literal _ => True
  | .number n => ∃ number, fromChars n.text = some number
  | .string s => SurrogatesPaired s
  | .emptyArray _ => True
  | .array _ elements => elements.Admitted
  | .emptyObject _ => True
  | .object _ members => members.keys.Nodup ∧ members.Admitted

def Elements.Admitted : Elements → Prop
  | .last t _ => t.Admitted
  | .more t _ _ rest => t.Admitted ∧ rest.Admitted

def Members.Admitted : Members → Prop
  | .last key _ _ t _ => SurrogatesPaired key ∧ t.Admitted
  | .more key _ _ t _ _ rest => SurrogatesPaired key ∧ t.Admitted ∧ rest.Admitted

end

mutual

/-- What a tree denotes; a map lists its members by key. -/
def Tree.value : Tree → Value
  | .literal l => l.value
  | .number n => .number ((fromChars n.text).getD 0)
  | .string s => .string (decode s)
  | .emptyArray _ => .array []
  | .array _ elements => .array elements.values
  | .emptyObject _ => .object []
  | .object _ members => .object (sortOn (·.1) members.pairs)

def Elements.values : Elements → List Value
  | .last t _ => [t.value]
  | .more t _ _ rest => t.value :: rest.values

def Members.pairs : Members → List (Bytes × Value)
  | .last key _ _ t _ => [(decode key, t.value)]
  | .more key _ _ t _ _ rest => (decode key, t.value) :: rest.pairs

end

end Convert

/-- `JSON-text = ws value ws` -/
structure Document where
  before : List White
  tree : Tree
  after : List White

def Document.text (d : Document) : Bytes := whiteText d.before ++ (d.tree.text ++ whiteText d.after)

def Document.Admitted (fromChars : Bytes → Option ℚ) (d : Document) : Prop := d.tree.Admitted fromChars

def Document.value (fromChars : Bytes → Option ℚ) (d : Document) : Value := d.tree.value fromChars

end Json

end CxxDead
