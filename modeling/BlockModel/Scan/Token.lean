import BlockModel.Scan.Basic
import BlockModel.Text.Utf8

/-! The smallest pieces of JSON: blanks, the words `null`, `true` and `false`, and strings. -/

namespace BlockModel

namespace Octet

@[match_pattern] def quote : UInt8 := 0x22
@[match_pattern] def plus : UInt8 := 0x2B
@[match_pattern] def comma : UInt8 := 0x2C
@[match_pattern] def minus : UInt8 := 0x2D
@[match_pattern] def point : UInt8 := 0x2E
@[match_pattern] def zero : UInt8 := 0x30
@[match_pattern] def colon : UInt8 := 0x3A
@[match_pattern] def openList : UInt8 := 0x5B
@[match_pattern] def backslash : UInt8 := 0x5C
@[match_pattern] def closeList : UInt8 := 0x5D
@[match_pattern] def openObject : UInt8 := 0x7B
@[match_pattern] def closeObject : UInt8 := 0x7D

/-- The octet of an ASCII character. -/
def ofChar (c : Char) : UInt8 := .ofNat c.toNat

/-- Space, line feed, carriage return and tab. -/
def isBlank (b : UInt8) : Bool := b == 0x20 || b == 0x0A || b == 0x0D || b == 0x09

def isDigit (b : UInt8) : Bool := 0x30 ≤ b && b ≤ 0x39

/-- The value of a digit. -/
def digit (b : UInt8) : Nat := b.toNat - 0x30

def isControl (b : UInt8) : Bool := b < 0x20

/-- What stands for itself inside a string. -/
def isPlain (b : UInt8) : Bool := b != quote && b != backslash && !isControl b

/-- The value of a hexadecimal digit in either case. -/
def hex? (b : UInt8) : Option Nat :=
  if isDigit b then some (digit b)
  else if 0x41 ≤ b && b ≤ 0x46 then some (b.toNat - 0x41 + 10)
  else if 0x61 ≤ b && b ≤ 0x66 then some (b.toNat - 0x61 + 10)
  else none

end Octet

namespace Scan

def blanks : Scan Unit := do
  let _ ← takeWhile Octet.isBlank

/-- The next octet that is no blank, not yet taken. -/
def peekPastBlanks : Scan (Option UInt8) := do
  blanks
  peek

/-- Takes an octet that was looked at. -/
def skip : Scan Unit := do
  let _ ← next

/-- Letters that have to follow here. -/
def word : List UInt8 → Scan Unit
  | [] => pure ()
  | letter :: rest => do
    match ← next with
    | none => refuse .here (.ended .value)
    | some b => if b = letter then word rest else refuse .here .expectedIdent

/-- The word `null`, whose first letter was looked at. -/
def nullWord : Scan Unit := do
  skip
  word ("ull".toList.map Octet.ofChar)

/-- The word of a truth value, whose first letter was looked at. -/
def boolWord (b : Bool) : Scan Unit := do
  skip
  word ((if b then "rue" else "alse").toList.map Octet.ofChar)

/-- The kinds of values; the words for the two truth values are told apart. -/
inductive Kind where
  | null
  | bool (b : Bool)
  | number
  | string
  | list
  | object
  deriving DecidableEq, Repr

/-- The kind of the value that begins with an octet. -/
def kind? (b : UInt8) : Option Kind :=
  if b = Octet.ofChar 'n' then some .null
  else if b = Octet.ofChar 't' then some (.bool true)
  else if b = Octet.ofChar 'f' then some (.bool false)
  else if b = Octet.minus || Octet.isDigit b then some .number
  else if b = Octet.quote then some .string
  else if b = Octet.openList then some .list
  else if b = Octet.openObject then some .object
  else none

/-- The first octet of a value, which is looked at. -/
def valueStart : Scan UInt8 := do
  match ← peekPastBlanks with
  | some b => pure b
  | none => refuse .ahead (.ended .value)

/-- An octet inside a string. -/
def inString : Scan UInt8 := do
  match ← next with
  | some b => pure b
  | none => refuse .here (.ended .string)

/-- The number that four hexadecimal digits give. -/
def fourHex : Scan Nat := do
  let a ← inString
  let b ← inString
  let c ← inString
  let d ← inString
  match Octet.hex? a, Octet.hex? b, Octet.hex? c, Octet.hex? d with
  | some a, some b, some c, some d => pure (((a * 16 + b) * 16 + c) * 16 + d)
  | _, _, _, _ => refuse .here .invalidEscape

def isLeading (n : Nat) : Bool := 0xD800 ≤ n && n ≤ 0xDBFF

def isTrailing (n : Nat) : Bool := 0xDC00 ≤ n && n ≤ 0xDFFF

/-- Takes one octet that has to be the given one. -/
def surrogateMark (expected : UInt8) : Scan Unit := do
  let b ← inString
  if b = expected then pure () else refuse .here .unfinishedSurrogate

/-- The code point after a backslash and `u`: a pair of surrogates is written as two escapes. -/
def codePoint : Scan Nat := do
  let n ← fourHex
  if isTrailing n then refuse .here .loneSurrogate
  else if isLeading n then do
    surrogateMark Octet.backslash
    surrogateMark (Octet.ofChar 'u')
    let m ← fourHex
    if isTrailing m then pure (0x10000 + (n - 0xD800) * 0x400 + (m - 0xDC00))
    else refuse .here .loneSurrogate
  else pure n

/-- What a letter after a backslash stands for. -/
def escaped? (b : UInt8) : Option UInt8 :=
  if b = Octet.quote || b = Octet.backslash || b = Octet.ofChar '/' then some b
  else if b = Octet.ofChar 'b' then some 0x08
  else if b = Octet.ofChar 'f' then some 0x0C
  else if b = Octet.ofChar 'n' then some 0x0A
  else if b = Octet.ofChar 'r' then some 0x0D
  else if b = Octet.ofChar 't' then some 0x09
  else none

/-- The octets of the character that an escape stands for, after its backslash. -/
def escape : Scan (List UInt8) := do
  let b ← inString
  if b = Octet.ofChar 'u' then do
    let n ← codePoint
    pure (Text.Utf8.encodeScalar n)
  else match escaped? b with
    | some c => pure [c]
    | none => refuse .here .invalidEscape

/-- One stretch of a string: plain octets, and then an escape or the closing quote. The state holds the
octets of the string so far, the latest first. -/
def stringRound (sofar : List UInt8) : Scan (List UInt8 ⊕ List UInt8) := do
  let run ← takeWhile Octet.isPlain
  let sofar := run.reverse ++ sofar
  let b ← inString
  if b = Octet.quote then pure (.inr sofar.reverse)
  else if b = Octet.backslash then do
    let octets ← escape
    pure (.inl (octets.reverse ++ sofar))
  else refuse .here .controlCharacter

/-- The text of octets that were read up to a closing quote. Octets that are no UTF-8 are found only
there; the failure is placed as many columns back as octets are left from the first bad one. -/
def textOf (octets : List UInt8) : Scan String :=
  match Text.Utf8.decode octets with
  | (chars, []) => pure (String.ofList chars)
  | (_, left) => refuse (.before left.length) .invalidCodePoint

/-- A string, whose opening quote was looked at. -/
def quoted : Scan String := do
  skip
  let octets ← loop [] stringRound
  textOf octets

end Scan

end BlockModel
