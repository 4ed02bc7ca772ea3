import BlockModel.Condition.Display
import BlockModel.Json.Decode
import BlockModel.Scan.Skip

/-! Conditions in JSON. An object is the conjunction of its members: under `OR` and `AND` stands a list of
condition objects, under `__comment` anything at all, and under every other key, the name of a property,
its values as one text or as a truth value. -/

namespace BlockModel.Condition

/-- What the key of a condition object stands for. -/
inductive Key where
  | disjunction
  | conjunction
  | comment
  | property (name : String)
  deriving DecidableEq, Repr

def Key.ofName (name : String) : Key :=
  if name = "OR" then .disjunction
  else if name = "AND" then .conjunction
  else if name = "__comment" then .comment
  else .property name

def expectedObject : String := "a condition object"

def expectedList : String := "an array of condition objects"

def expectedValue : String := "a string or boolean property value"

/-- A truth value as the value of a property. -/
def boolValue (b : Bool) : String := if b then "true" else "false"

/-- The value of a property. A list or object is entered before it is refused. -/
def scanValueWith (onList onObject : Scan String) : Scan String := do
  let b ← Scan.valueStart
  match Scan.kind? b with
  | some (.bool v) => do
    Scan.boolWord v
    pure (boolValue v)
  | some .string => Scan.quoted
  | some .list => onList
  | some .object => onObject
  | _ => Scan.mismatch expectedValue b

def scanValue : Nat → Scan String
  | 0 => scanValueWith Scan.tooDeep Scan.tooDeep
  | _ + 1 =>
    scanValueWith (Scan.inList (Scan.refuseData .enclosing (.wrongType .list expectedValue)))
      (Scan.inObject (Scan.refuseData .enclosing (.wrongType .object expectedValue)))

/-- A member of a condition object, added to the conditions so far, the latest first. -/
def scanMember (value : Scan String) (list : Scan (List Condition)) (sofar : List Condition) (key : String) :
    Scan (List Condition) :=
  match Key.ofName key with
  | .comment => do
    Scan.colon
    Scan.skipValue
    pure sofar
  | .disjunction => do
    Scan.colon
    let cs ← list
    pure (.any cs :: sofar)
  | .conjunction => do
    Scan.colon
    let cs ← list
    pure (.all cs :: sofar)
  | .property name => do
    Scan.colon
    let values ← value
    pure (test name values :: sofar)

/-- The members of a condition object. -/
def scanMembers (value : Scan String) (list : Scan (List Condition)) : Scan Condition := do
  let reversed ← Scan.members ([] : List Condition) (scanMember value list)
  pure (and reversed.reverse)

mutual
/-- A condition object at a level, while so many more lists and objects may be opened. -/
def scan (limit : Nat) : (room level : Nat) → Scan Condition
  | 0, _ => Scan.expectObject expectedObject Scan.tooDeep
  | room + 1, level =>
    Scan.expectObject expectedObject <| Scan.inObject <|
      if limit < level then Scan.refuseData .enclosing (.conditionTooDeep limit)
      else scanMembers (scanValue room) (scanList limit room (level + 1))

def scanList (limit : Nat) : (room level : Nat) → Scan (List Condition)
  | 0, _ => Scan.expectList expectedList Scan.tooDeep
  | room + 1, level =>
    Scan.expectList expectedList (Scan.inList (Scan.items (scan limit room level)))
end

def valueOfJson : Json → Except DataFault String
  | .str s => .ok s
  | .bool b => .ok (boolValue b)
  | j => j.refused expectedValue

mutual
/-- A condition object at a level. -/
def ofJson (limit level : Nat) : Json → Except DataFault Condition
  | .object members =>
    if limit < level then .error (.conditionTooDeep limit)
    else and <$> membersOfJson limit level members
  | j => j.refused expectedObject

def membersOfJson (limit level : Nat) : List (String × Json) → Except DataFault (List Condition)
  | [] => .ok []
  | (key, j) :: rest =>
    match Key.ofName key with
    | .comment => membersOfJson limit level rest
    | .disjunction => do
      let cs ← listOfJson limit (level + 1) j
      let more ← membersOfJson limit level rest
      pure (.any cs :: more)
    | .conjunction => do
      let cs ← listOfJson limit (level + 1) j
      let more ← membersOfJson limit level rest
      pure (.all cs :: more)
    | .property name => do
      let values ← valueOfJson j
      let more ← membersOfJson limit level rest
      pure (test name values :: more)

def listOfJson (limit level : Nat) : Json → Except DataFault (List Condition)
  | .list items => itemsOfJson limit level items
  | j => j.refused expectedList

def itemsOfJson (limit level : Nat) : List Json → Except DataFault (List Condition)
  | [] => .ok []
  | j :: rest => do
    let c ← ofJson limit level j
    let more ← itemsOfJson limit level rest
    pure (c :: more)
end

end BlockModel.Condition
