import BlockModel.Condition.Basic
import BlockModel.Text.Split

/-! Conditions as texts. A test lists its values with `|` between them. The key of a variant, such as
`facing=north,half=top|bottom`, is a list of segments between commas; each one with an equals sign tests a
property, and the others say nothing. -/

namespace BlockModel.Condition

/-- The values that a property test lists, from their text with `|` between them. -/
def alternatives (text : String) : List String := (Text.pieces '|' text.toList).map String.ofList

/-- The test of one property against the values between the `|` of a text. -/
def test (name values : String) : Condition := .property name (alternatives values)

/-- The test that one segment of a key asks for: name and values are what stands around its first equals
sign, both without the blanks at their ends. -/
def ofSegment? (segment : List Char) : Option Condition :=
  (Text.cut '=' segment).map fun p =>
    test (String.ofList (Text.trim p.1)) (String.ofList (Text.trim p.2))

/-- The conjunction of the tests in a variant key. -/
def ofKey (key : String) : Condition :=
  and ((Text.pieces ',' key.toList).filterMap ofSegment?)

mutual
/-- A condition as messages and log lines show it: `AND(facing=north|south, OR(a=1, false))`. The empty
connectives are written `true` and `false`. -/
def displayChars : Condition → List Char
  | .all [] => "true".toList
  | .any [] => "false".toList
  | .all (c :: rest) => "AND(".toList ++ displayChars c ++ displayMore rest
  | .any (c :: rest) => "OR(".toList ++ displayChars c ++ displayMore rest
  | .property name values => name.toList ++ '=' :: Text.joined ['|'] (values.map String.toList)

/-- The children after the first, and the closing parenthesis. -/
def displayMore : List Condition → List Char
  | [] => [')']
  | c :: rest => ',' :: ' ' :: (displayChars c ++ displayMore rest)
end

def display (c : Condition) : String := String.ofList c.displayChars

end BlockModel.Condition
