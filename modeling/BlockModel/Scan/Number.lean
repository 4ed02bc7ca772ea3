import BlockModel.Json.Basic
import BlockModel.Scan.Token

/-! Numbers. The digits of a number are gathered into a significand as long as it fits 64 bits; a digit of
the whole part that does not fit any more counts as a factor of ten, and one after the point is left out.
A number without point and exponent that fits is whole. Any other one is its significand in double
precision, scaled by its power of ten; `-0` and whole numbers out of range are of this kind too. -/

namespace BlockModel

namespace Scan

/-- The bound of a significand. -/
def significandBound : Nat := 0x10000000000000000

/-- Adds digits to a significand as long as it stays below the bound. The second part is the digits that
were not added. -/
def gather (significand : Nat) : List UInt8 → Nat × List UInt8
  | [] => (significand, [])
  | d :: rest =>
    let next := significand * 10 + Octet.digit d
    if next < significandBound then gather next rest else (significand, d :: rest)

/-- A number in double precision, with its sign. -/
def signedFloat (negative : Bool) (x : Binary64) : JsonNumber := .float (if negative then x.neg else x)

/-- The number `significand * 10 ^ exponent`, refused when it is beyond double precision. -/
def scaled (negative : Bool) (significand : Nat) (exponent : Int) : Scan JsonNumber :=
  match (Binary64.nearest? significand 1).bind (·.scaleTen? exponent) with
  | some x => pure (signedFloat negative x)
  | none => refuse .here .numberOutOfRange

/-- A number without point and exponent whose digits all fit. -/
def whole (negative : Bool) (n : Nat) : Scan JsonNumber :=
  if negative then
    if n = 0 ∨ 0x8000000000000000 < n then scaled true n 0 else pure (.int (-(n : Int)))
  else pure (.int n)

def digits : Scan (List UInt8) := takeWhile Octet.isDigit

/-- The bound of the digits of an exponent. -/
def exponentBound : Nat := 0x80000000

/-- One more digit of an exponent, if there is one. The second result is nothing when the digits have come
to the bound. -/
def exponentRound (sofar : Nat) : Scan (Nat ⊕ Option Nat) := do
  match ← peek with
  | some b =>
    if Octet.isDigit b then do
      skip
      let n := sofar * 10 + Octet.digit b
      if n < exponentBound then pure (.inl n) else pure (.inr none)
    else pure (.inr (some sofar))
  | none => pure (.inr (some sofar))

/-- The sign of an exponent, if it has one. -/
def exponentSign : Scan Bool := do
  match ← peek with
  | some b =>
    if b = Octet.plus then do
      skip
      pure false
    else if b = Octet.minus then do
      skip
      pure true
    else pure false
  | none => pure false

/-- A number after the letter of its exponent. An exponent at the bound makes the number zero or too large
whatever digits follow. -/
def exponentRest (negative : Bool) (significand : Nat) (exponent : Int) : Scan JsonNumber := do
  let down ← exponentSign
  match ← next with
  | none => refuse .here (.ended .value)
  | some b =>
    if Octet.isDigit b then do
      match ← loop (Octet.digit b) exponentRound with
      | some n => scaled negative significand (if down then exponent - n else exponent + n)
      | none =>
        if significand ≠ 0 && !down then refuse .here .numberOutOfRange
        else do
          let _ ← digits
          pure (signedFloat negative .zero)
    else refuse .here .invalidNumber

def isExponentMark (b : UInt8) : Bool := b = Octet.ofChar 'e' || b = Octet.ofChar 'E'

/-- What may stand at the end of a number: an exponent or nothing more. -/
def exponentOrEnd (negative : Bool) (significand : Nat) (exponent : Int) : Scan JsonNumber := do
  match ← peek with
  | some b =>
    if isExponentMark b then do
      skip
      exponentRest negative significand exponent
    else scaled negative significand exponent
  | none => scaled negative significand exponent

/-- A number after its point. -/
def fractionRest (negative : Bool) (significand : Nat) (exponent : Int) : Scan JsonNumber := do
  match ← digits with
  | [] =>
    match ← peek with
    | some _ => refuse .ahead .invalidNumber
    | none => refuse .ahead (.ended .value)
  | fraction =>
    let (significand, left) := gather significand fraction
    let added := fraction.length - left.length
    exponentOrEnd negative significand (exponent - added)

/-- A number after its whole part, given by its digits. -/
def afterWhole (negative : Bool) (ds : List UInt8) : Scan JsonNumber := do
  let (significand, left) := gather 0 ds
  match ← peek with
  | some b =>
    if b = Octet.point then do
      skip
      fractionRest negative significand left.length
    else if isExponentMark b then do
      skip
      exponentRest negative significand left.length
    else if left.isEmpty then whole negative significand
    else scaled negative significand left.length
  | none => if left.isEmpty then whole negative significand else scaled negative significand left.length

/-- A number after its sign. A zero at the front of the whole part is the only digit there. -/
def unsigned (negative : Bool) : Scan JsonNumber := do
  match ← next with
  | none => refuse .here (.ended .value)
  | some first =>
    if first = Octet.zero then do
      match ← peek with
      | some b => if Octet.isDigit b then refuse .ahead .invalidNumber else afterWhole negative [first]
      | none => afterWhole negative [first]
    else if Octet.isDigit first then do
      let more ← digits
      afterWhole negative (first :: more)
    else refuse .here .invalidNumber

/-- A number, given its first octet, which was looked at. -/
def number (first : UInt8) : Scan JsonNumber :=
  if first = Octet.minus then do
    skip
    unsigned true
  else unsigned false

end Scan

end BlockModel
