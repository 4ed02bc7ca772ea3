import BlockModel.Scan.Container
import BlockModel.Scan.Number

/-! Values that nobody asked for. They have to be JSON, but are not kept, so numbers may have any size,
escapes may be lone surrogates, and lists and objects may nest to any depth: the ones still open are a
list in the state of a loop, and every round takes one piece of the text. -/

namespace BlockModel.Scan

/-- One stretch of a skipped string. -/
def skipStringRound (_ : Unit) : Scan (Unit ⊕ Unit) := do
  let _ ← takeWhile Octet.isPlain
  match ← peek with
  | none => refuse .here (.ended .string)
  | some b =>
    if b = Octet.quote then do
      skip
      pure (.inr ())
    else if b = Octet.backslash then do
      skip
      let b ← inString
      if b = Octet.ofChar 'u' then do
        let _ ← fourHex
        pure (.inl ())
      else if (escaped? b).isSome then pure (.inl ())
      else refuse .here .invalidEscape
    else refuse .here .controlCharacter

/-- A skipped string, whose opening quote was looked at. -/
def skipQuoted : Scan Unit := do
  skip
  loop () skipStringRound

/-- A skipped number after the letter of its exponent. -/
def skipExponentRest : Scan Unit := do
  let _ ← exponentSign
  match ← next with
  | some b => if Octet.isDigit b then discard digits else refuse .here .invalidNumber
  | none => refuse .here .invalidNumber

def skipExponentOrEnd : Scan Unit := do
  match ← peek with
  | some b =>
    if isExponentMark b then do
      skip
      skipExponentRest
    else pure ()
  | none => pure ()

/-- A skipped number after its whole part. -/
def skipAfterWhole : Scan Unit := do
  match ← peek with
  | some b =>
    if b = Octet.point then do
      skip
      if (← digits).isEmpty then refuse .ahead .invalidNumber else skipExponentOrEnd
    else if isExponentMark b then do
      skip
      skipExponentRest
    else pure ()
  | none => pure ()

/-- A skipped number after its sign. -/
def skipUnsigned : Scan Unit := do
  match ← next with
  | some first =>
    if first = Octet.zero then do
      match ← peek with
      | some b => if Octet.isDigit b then refuse .ahead .invalidNumber else skipAfterWhole
      | none => skipAfterWhole
    else if Octet.isDigit first then do
      let _ ← digits
      skipAfterWhole
    else refuse .here .invalidNumber
  | none => refuse .here .invalidNumber

/-- A skipped number, given its first octet, which was looked at. -/
def skipNumber (first : UInt8) : Scan Unit :=
  if first = Octet.minus then do
    skip
    skipUnsigned
  else skipUnsigned

/-- What a skipped value lies in. -/
inductive Enclosure where
  | list
  | object
  deriving DecidableEq, Repr

namespace Enclosure

def close : Enclosure → UInt8
  | list => Octet.closeList
  | object => Octet.closeObject

def ended : Enclosure → GrammarFault
  | list => .ended .list
  | object => .ended .object

def expectedCommaOrEnd : Enclosure → GrammarFault
  | list => .expectedListCommaOrEnd
  | object => .expectedObjectCommaOrEnd

end Enclosure

/-- Where skipping stands: before a value, after the opening of the innermost list or object, or after a
value. The lists and objects still open are given from the innermost outwards. -/
inductive SkipState where
  | before (opened : List Enclosure)
  | within (innermost : Enclosure) (others : List Enclosure)
  | after (opened : List Enclosure)
  deriving DecidableEq, Repr

/-- What begins here: a whole value without parts, or a list or object. -/
def skipHead (opened : List Enclosure) : Scan SkipState := do
  let b ← valueStart
  match kind? b with
  | some .null => do
    nullWord
    pure (.after opened)
  | some (.bool v) => do
    boolWord v
    pure (.after opened)
  | some .number => do
    skipNumber b
    pure (.after opened)
  | some .string => do
    skipQuoted
    pure (.after opened)
  | some .list => do
    skip
    pure (.within .list opened)
  | some .object => do
    skip
    pure (.within .object opened)
  | none => refuse .ahead .expectedValue

/-- The key and the colon of a member in a skipped object. -/
def skipKey : Scan Unit := do
  match ← peekPastBlanks with
  | none => refuse .ahead (.ended .object)
  | some b =>
    if b = Octet.quote then do
      skipQuoted
      colon
    else refuse .ahead .keyNotString

/-- One piece of a skipped value. It ends when a value is complete and nothing is open. -/
def skipRound : SkipState → Scan (SkipState ⊕ Unit)
  | .before opened => do
    let state ← skipHead opened
    pure (.inl state)
  | .within innermost others => do
    match ← peekPastBlanks with
    | none => refuse .ahead innermost.ended
    | some b =>
      if b = innermost.close then do
        skip
        pure (.inl (.after others))
      else do
        match innermost with
        | .list => do
          let state ← skipHead (innermost :: others)
          pure (.inl state)
        | .object => do
          skipKey
          pure (.inl (.before (innermost :: others)))
  | .after [] => pure (.inr ())
  | .after (innermost :: others) => do
    match ← peekPastBlanks with
    | none => refuse .ahead innermost.ended
    | some b =>
      if b = innermost.close then do
        skip
        pure (.inl (.after others))
      else if b = Octet.comma then do
        skip
        match innermost with
        | .list => pure (.inl (.before (innermost :: others)))
        | .object => do
          skipKey
          pure (.inl (.before (innermost :: others)))
      else refuse .ahead innermost.expectedCommaOrEnd

/-- Any value, which is not kept. -/
def skipValue : Scan Unit := loop (.before []) skipRound

end BlockModel.Scan
