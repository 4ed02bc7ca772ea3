import BlockModel.Scan.Tree

/-! Values of a kind that is asked for. A value of another kind is read, unless it is a list or an object,
and then refused by name. -/

namespace BlockModel

/-- A range of whole numbers, and its name in messages. -/
structure IntRange where
  least : Int
  greatest : Int
  name : String

namespace IntRange

def signed32 : IntRange := ⟨-0x80000000, 0x7FFFFFFF, "i32"⟩

def unsigned32 : IntRange := ⟨0, 0xFFFFFFFF, "u32"⟩

def holds (r : IntRange) (n : Int) : Bool := r.least ≤ n && n ≤ r.greatest

end IntRange

namespace Scan

/-- A value of a kind that was not asked for. A list or object is named, but not entered. -/
def otherKind (b : UInt8) : Scan Found := do
  match kind? b with
  | some .null => do
    nullWord
    pure .null
  | some (.bool v) => do
    boolWord v
    pure (.bool v)
  | some .number => JsonNumber.found <$> number b
  | some .string => Found.str <$> quoted
  | some .list => pure .list
  | some .object => pure .object
  | none => refuse .ahead .expectedValue

/-- Refuses a value, given its first octet, for its kind. -/
def mismatch {α : Type} (expected : String) (b : UInt8) : Scan α := do
  let found ← otherKind b
  refuseData .here (.wrongType found expected)

def expectList {α : Type} (expected : String) (value : Scan α) : Scan α := do
  let b ← valueStart
  if kind? b = some .list then value else mismatch expected b

def expectObject {α : Type} (expected : String) (value : Scan α) : Scan α := do
  let b ← valueStart
  if kind? b = some .object then value else mismatch expected b

/-- A record, written as an object or as the list of its fields. -/
def expectRecord {α : Type} (expected : String) (onList onObject : Scan α) : Scan α := do
  let b ← valueStart
  match kind? b with
  | some .list => onList
  | some .object => onObject
  | _ => mismatch expected b

def string : Scan String := do
  let b ← valueStart
  if kind? b = some .string then quoted else mismatch "a string" b

def bool : Scan Bool := do
  let b ← valueStart
  match kind? b with
  | some (.bool v) => do
    boolWord v
    pure v
  | _ => mismatch "a boolean" b

/-- A whole number in a range. -/
def int (range : IntRange) : Scan Int := do
  let b ← valueStart
  if kind? b = some .number then do
    match ← number b with
    | .int n => if range.holds n then pure n else refuseData .here (.wrongValue (.int n) range.name)
    | .float x => refuseData .here (.wrongType (.float x) range.name)
  else mismatch range.name b

def int32 : Scan Int32 := Int32.ofInt <$> int .signed32

def uint32 : Scan UInt32 := (fun n => UInt32.ofNat n.toNat) <$> int .unsigned32

/-- A value or `null`. -/
def optional {α : Type} (value : Scan α) : Scan (Option α) := do
  if (← peekPastBlanks).bind kind? = some .null then do
    nullWord
    pure none
  else some <$> value

end Scan

end BlockModel
