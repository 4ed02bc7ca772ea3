import BlockModel.Scan.Typed

/-! Values of a kind that is asked for, taken from JSON that was read whole. The refusals are those that
reading from a text gives, without their places. What a multipart case may apply is any kind of value that
can be had in both ways. -/

namespace BlockModel

namespace Json

def refused {α : Type} (expected : String) (j : Json) : Except DataFault α :=
  .error (.wrongType j.found expected)

def asString : Json → Except DataFault String
  | str s => .ok s
  | j => j.refused "a string"

def asBool : Json → Except DataFault Bool
  | bool b => .ok b
  | j => j.refused "a boolean"

def asInt (range : IntRange) : Json → Except DataFault Int
  | number (.int n) => if range.holds n then .ok n else .error (.wrongValue (.int n) range.name)
  | j => j.refused range.name

def asInt32 (j : Json) : Except DataFault Int32 := Int32.ofInt <$> j.asInt .signed32

def asUInt32 (j : Json) : Except DataFault UInt32 :=
  (fun n => UInt32.ofNat n.toNat) <$> j.asInt .unsigned32

def asOptional {α : Type} (value : Json → Except DataFault α) : Json → Except DataFault (Option α)
  | null => .ok none
  | j => some <$> value j

/-- Every item of a list, up to the first that is refused. -/
def each {α : Type} (item : Json → Except DataFault α) : List Json → Except DataFault (List α)
  | [] => .ok []
  | j :: rest => do
    let a ← item j
    let as ← each item rest
    pure (a :: as)

def asList {α : Type} (expected : String) (item : Json → Except DataFault α) :
    Json → Except DataFault (List α)
  | list js => each item js
  | j => j.refused expected

/-- A place of a list with a fixed number of them, or its default where the list ends before. -/
def placeOr {α : Type} (value : Json → Except DataFault α) (default : α) : Option Json → Except DataFault α
  | some j => value j
  | none => .ok default

/-- Refuses a list that goes on after its last place. -/
def noMorePlaces (places : Nat) (js : List Json) : Except DataFault Unit :=
  if js.length ≤ places then .ok () else .error (.wrongLength js.length "fewer elements in array")

end Json

/-- The kinds of values that a case may apply. -/
class Payload (α : Type) where
  /-- Reads a value, while so many more lists and objects may be opened. -/
  scan : Nat → Scan α
  ofJson : Json → Except DataFault α

namespace Payload

/-- A list whose items are read by a plan that depends on how many lists and objects may be opened. -/
def scanList {α : Type} (expected : String) (item : Nat → Scan α) : Nat → Scan (List α)
  | 0 => Scan.expectList expected Scan.tooDeep
  | room + 1 => Scan.expectList expected (Scan.inList (Scan.items (item room)))

/-- Any JSON, with the members of its objects in the order of their keys. -/
instance : Payload Json := ⟨fun room => Json.canonical <$> Scan.tree room, .ok⟩

instance : Payload String := ⟨fun _ => Scan.string, Json.asString⟩

instance : Payload Bool := ⟨fun _ => Scan.bool, Json.asBool⟩

instance : Payload Int32 := ⟨fun _ => Scan.int32, Json.asInt32⟩

instance : Payload (Option Int32) := ⟨fun _ => Scan.optional Scan.int32, Json.asOptional Json.asInt32⟩

instance : Payload (List String) :=
  ⟨scanList "a sequence" fun _ => Scan.string, Json.asList "a sequence" Json.asString⟩

end Payload

end BlockModel
