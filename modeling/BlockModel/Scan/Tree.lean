import BlockModel.Scan.Container
import BlockModel.Scan.Number

/-! Whole JSON values. `tree room` reads any value in which at most `room` lists and objects are open at
once; it recurses on that number. -/

namespace BlockModel.Scan

/-- How many lists and objects may be open at once in a document. -/
def greatestNesting : Nat := 127

/-- A value whose lists and objects are read as given. -/
def treeWith (onList onObject : Scan Json) : Scan Json := do
  let b ← valueStart
  match kind? b with
  | some .null => do
    nullWord
    pure .null
  | some (.bool v) => do
    boolWord v
    pure (.bool v)
  | some .number => .number <$> number b
  | some .string => .str <$> quoted
  | some .list => onList
  | some .object => onObject
  | none => refuse .ahead .expectedValue

/-- All members of an object, in the order of the text. -/
def treeMembers (value : Scan Json) : Scan (List (String × Json)) := do
  let reversed ← members ([] : List (String × Json)) fun sofar k => do
    colon
    let v ← value
    pure ((k, v) :: sofar)
  pure reversed.reverse

def tree : Nat → Scan Json
  | 0 => treeWith tooDeep tooDeep
  | room + 1 =>
    treeWith (.list <$> inList (items (tree room))) (.object <$> inObject (treeMembers (tree room)))

/-- The end of a document: nothing but blanks may follow. -/
def endOfDocument : Scan Unit := do
  match ← peekPastBlanks with
  | none => pure ()
  | some _ => refuse .ahead .trailingCharacters

/-- A whole document. -/
def document {α : Type} (value : Scan α) : Scan α := do
  let a ← value
  endOfDocument
  pure a

end BlockModel.Scan
