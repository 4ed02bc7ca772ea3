import BlockModel.Binary64.Shortest
import BlockModel.Text.Quoted

/-! Why a document could not be read, and where. A failure has a cause, a place if one is known, and a mark
that says whether it came from what a multipart case applies. Causes fall into classes: the text is no JSON,
the JSON has not the right shape, or the source of the octets broke off. -/

namespace BlockModel

/-- A place in a document. Lines are counted from one; a column is the number of octets after the last line
feed, so that the place after reading a text names its last octet. -/
structure Position where
  line : Nat
  column : Nat
  deriving DecidableEq, Repr

namespace Position

/-- The place before the first octet. -/
def start : Position := ⟨1, 0⟩

/-- The place one octet on. -/
def step (p : Position) (octet : UInt8) : Position :=
  if octet = 0x0A then ⟨p.line + 1, 0⟩ else ⟨p.line, p.column + 1⟩

def advance (p : Position) (octets : List UInt8) : Position := octets.foldl step p

/-- The place so many columns back, at most to the start of the line. -/
def back (p : Position) (columns : Nat) : Position := ⟨p.line, p.column - columns⟩

def text (p : Position) : String := "line " ++ toString p.line ++ " column " ++ toString p.column

end Position

/-- What was being read when the text ended. -/
inductive Unfinished where
  | list
  | object
  | string
  | value
  deriving DecidableEq, Repr

/-- The ways in which a text is no JSON, or is beyond what is accepted of it. -/
inductive GrammarFault where
  | ended (what : Unfinished)
  | expectedColon
  | expectedListCommaOrEnd
  | expectedObjectCommaOrEnd
  | expectedIdent
  | expectedValue
  | invalidEscape
  | invalidNumber
  | numberOutOfRange
  | invalidCodePoint
  | controlCharacter
  | keyNotString
  | loneSurrogate
  | unfinishedSurrogate
  | trailingComma
  | trailingCharacters
  | nestedTooDeep
  deriving DecidableEq, Repr

/-- A value as a message names it. -/
inductive Found where
  | null
  | bool (b : Bool)
  | int (n : Int)
  | float (x : Binary64)
  | str (s : String)
  | list
  | object
  deriving DecidableEq, Repr

/-- The ways in which JSON has not the shape that is asked for. -/
inductive DataFault where
  | wrongType (found : Found) (expected : String)
  | wrongValue (found : Found) (expected : String)
  | wrongLength (length : Nat) (expected : String)
  | missingField (name : String)
  | duplicateField (name : String)
  | noAlternative
  | conditionTooDeep (limit : Nat)
  deriving DecidableEq, Repr

inductive Cause where
  | grammar (fault : GrammarFault)
  | data (fault : DataFault)
  /-- A shape fault in words of its own. -/
  | custom (text : String)
  /-- The source gave no more octets, and not because the document had ended. -/
  | source (reason : String)
  /-- A repetition went round without reading anything. -/
  | stalled
  deriving DecidableEq, Repr

def Unfinished.text : Unfinished → String
  | list => "a list"
  | object => "an object"
  | string => "a string"
  | value => "a value"

def GrammarFault.message : GrammarFault → String
  | ended what => "EOF while parsing " ++ what.text
  | expectedColon => "expected `:`"
  | expectedListCommaOrEnd => "expected `,` or `]`"
  | expectedObjectCommaOrEnd => "expected `,` or `\x7d`"
  | expectedIdent => "expected ident"
  | expectedValue => "expected value"
  | invalidEscape => "invalid escape"
  | invalidNumber => "invalid number"
  | numberOutOfRange => "number out of range"
  | invalidCodePoint => "invalid unicode code point"
  | controlCharacter => "control character (\\u0000-\\u001F) found while parsing a string"
  | keyNotString => "key must be a string"
  | loneSurrogate => "lone leading surrogate in hex escape"
  | unfinishedSurrogate => "unexpected end of hex escape"
  | trailingComma => "trailing comma"
  | trailingCharacters => "trailing characters"
  | nestedTooDeep => "recursion limit exceeded"

def Found.text : Found → String
  | null => "null"
  | bool b => "boolean `" ++ toString b ++ "`"
  | int n => "integer `" ++ toString n ++ "`"
  | float x => "floating point `" ++ x.text ++ "`"
  | str s => "string " ++ Text.quoted s
  | list => "sequence"
  | object => "map"

def DataFault.message : DataFault → String
  | wrongType found expected => "invalid type: " ++ found.text ++ ", expected " ++ expected
  | wrongValue found expected => "invalid value: " ++ found.text ++ ", expected " ++ expected
  | wrongLength length expected => "invalid length " ++ toString length ++ ", expected " ++ expected
  | missingField name => "missing field `" ++ name ++ "`"
  | duplicateField name => "duplicate field `" ++ name ++ "`"
  | noAlternative => "data did not match any variant of untagged enum VariantValue"
  | conditionTooDeep limit => "conditions nested deeper than " ++ toString limit ++ " levels"

def Cause.message : Cause → String
  | grammar fault => fault.message
  | data fault => fault.message
  | custom text => text
  | source reason => reason
  | stalled => "no progress"

structure Failure where
  cause : Cause
  position : Option Position
  inPayload : Bool
  deriving DecidableEq, Repr

namespace Failure

/-- Whether the document is JSON as far as it was read, and only its shape is wrong. -/
def isData (f : Failure) : Bool :=
  match f.cause with
  | .data _ | .custom _ => true
  | _ => false

/-- What stands before the line number in a text that ends with a place. -/
def placeMark : List Char := " at line ".toList

/-- A message with its place, if it has one. -/
def placed (message : String) : Option Position → String
  | some p => message ++ " at " ++ p.text
  | none => message

def render (f : Failure) : String := placed f.cause.message f.position

/-- A number of decimal digits that fits 64 bits. -/
def word? (digits : List Char) : Option Nat :=
  if digits.isEmpty then none
  else
    let n := Nat.ofDigitChars 10 digits 0
    if n < 0x10000000000000000 then some n else none

/-- The place at the end of a text, and the text without it. -/
def splitPlace? (text : String) : Option (String × Nat × Nat) := do
  let (before, after) ← Text.cutLast placeMark text.toList
  let line ← word? (after.takeWhile Char.isDigit)
  let rest ← Text.afterStart " column ".toList (after.dropWhile Char.isDigit)
  if rest.all Char.isDigit then
    let column ← word? rest
    pure (String.ofList before, line, column)
  else none

/-- A shape failure in words of its own. A place at the end of the words becomes the place of the failure;
line zero stands for no place. -/
def ofText (text : String) : Failure :=
  match splitPlace? text with
  | some (words, line, column) =>
    ⟨.custom words, if line = 0 then none else some ⟨line, column⟩, false⟩
  | none => ⟨.custom text, none, false⟩

end Failure

end BlockModel
