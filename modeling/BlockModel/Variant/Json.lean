import BlockModel.Json.Decode
import BlockModel.Scan.Skip
import BlockModel.Variant.Selection

/-! Variants in JSON. A variant is an object, of which unknown members are left aside, or the list of its
fields; the model is required and every other field has a default. A pool is one variant or a list of
them, and its JSON is read whole before that is decided. -/

namespace BlockModel

namespace Variant

inductive Field where
  | model
  | x
  | y
  | uvlock
  | weight
  deriving DecidableEq, Repr

namespace Field

def name : Field → String
  | model => "model"
  | x => "x"
  | y => "y"
  | uvlock => "uvlock"
  | weight => "weight"

def all : List Field := [model, x, y, uvlock, weight]

def ofName? (name : String) : Option Field := all.find? (·.name == name)

end Field

/-- The fields of a variant that were met so far. -/
structure Draft where
  model : Option String
  x : Option Int32
  y : Option Int32
  uvlock : Option Bool
  weight : Option UInt32
  deriving DecidableEq, Repr

namespace Draft

def empty : Draft := ⟨none, none, none, none, none⟩

def has (d : Draft) : Field → Bool
  | .model => d.model.isSome
  | .x => d.x.isSome
  | .y => d.y.isSome
  | .uvlock => d.uvlock.isSome
  | .weight => d.weight.isSome

/-- The variant of the fields met, with defaults for the others. -/
def complete (d : Draft) : Except DataFault Variant :=
  match d.model with
  | none => .error (.missingField Field.model.name)
  | some model =>
    .ok ⟨model, d.x.getD 0, d.y.getD 0, d.uvlock.getD false, d.weight.getD 1⟩

end Draft

/-- How messages name a variant. -/
def expected : String := "struct ModelVariant"

/-- The refusal of a list without a model. -/
def noPlaces : DataFault := .wrongLength 0 "struct ModelVariant with 5 elements"

/-- The value of a known field. -/
def scanField (d : Draft) : Field → Scan Draft
  | .model => do let v ← Scan.string; pure { d with model := some v }
  | .x => do let v ← Scan.int32; pure { d with x := some v }
  | .y => do let v ← Scan.int32; pure { d with y := some v }
  | .uvlock => do let v ← Scan.bool; pure { d with uvlock := some v }
  | .weight => do let v ← Scan.uint32; pure { d with weight := some v }

def scanMember (d : Draft) (key : String) : Scan Draft :=
  match Field.ofName? key with
  | none => do
    Scan.colon
    Scan.skipValue
    pure d
  | some field =>
    if d.has field then Scan.refuseData .enclosing (.duplicateField field.name)
    else do
      Scan.colon
      scanField d field

def scanMembers : Scan Variant := do
  let d ← Scan.members Draft.empty scanMember
  match d.complete with
  | .ok v => pure v
  | .error fault => Scan.refuseData .enclosing fault

def scanPlaces : Scan Variant := do
  match ← Scan.place? true Scan.string with
  | none => Scan.refuseData .enclosing noPlaces
  | some model =>
    let x ← Scan.place? false Scan.int32
    let y ← Scan.place? false Scan.int32
    let uvlock ← Scan.place? false Scan.bool
    let weight ← Scan.place? false Scan.uint32
    pure ⟨model, x.getD 0, y.getD 0, uvlock.getD false, weight.getD 1⟩

def scan : Nat → Scan Variant
  | 0 => Scan.expectRecord expected Scan.tooDeep Scan.tooDeep
  | _ + 1 => Scan.expectRecord expected (Scan.inPlaces scanPlaces) (Scan.inObject scanMembers)

def fieldOfJson (d : Draft) (j : Json) : Field → Except DataFault Draft
  | .model => do let v ← j.asString; pure { d with model := some v }
  | .x => do let v ← j.asInt32; pure { d with x := some v }
  | .y => do let v ← j.asInt32; pure { d with y := some v }
  | .uvlock => do let v ← j.asBool; pure { d with uvlock := some v }
  | .weight => do let v ← j.asUInt32; pure { d with weight := some v }

def membersOfJson (d : Draft) : List (String × Json) → Except DataFault Draft
  | [] => .ok d
  | (key, j) :: rest =>
    match Field.ofName? key with
    | none => membersOfJson d rest
    | some field =>
      if d.has field then .error (.duplicateField field.name)
      else do
        let d ← fieldOfJson d j field
        membersOfJson d rest

def placesOfJson (js : List Json) : Except DataFault Variant := do
  match js[0]? with
  | none => .error noPlaces
  | some first =>
    let model ← first.asString
    let x ← Json.placeOr Json.asInt32 0 js[1]?
    let y ← Json.placeOr Json.asInt32 0 js[2]?
    let uvlock ← Json.placeOr Json.asBool false js[3]?
    let weight ← Json.placeOr Json.asUInt32 1 js[4]?
    Json.noMorePlaces 5 js
    pure ⟨model, x, y, uvlock, weight⟩

def ofJson : Json → Except DataFault Variant
  | .object members => do
    let d ← membersOfJson .empty members
    d.complete
  | .list js => placesOfJson js
  | j => j.refused expected

instance : Payload Variant := ⟨scan, ofJson⟩

def written (v : Variant) : List Char :=
  Json.Written.object [("model", Json.Written.string v.model), ("x", Json.Written.int v.x.toInt),
    ("y", Json.Written.int v.y.toInt), ("uvlock", Json.Written.bool v.uvlock),
    ("weight", Json.Written.int v.weight.toNat)]

end Variant

namespace VariantPool

/-- One variant, or a list of variants. -/
def ofJson? (j : Json) : Option VariantPool :=
  match Variant.ofJson j with
  | .ok v => some ⟨[v]⟩
  | .error _ =>
    match Json.asList "a sequence" Variant.ofJson j with
    | .ok vs => some ⟨vs⟩
    | .error _ => none

def ofJson (j : Json) : Except DataFault VariantPool :=
  match ofJson? j with
  | some pool => .ok pool
  | none => .error .noAlternative

def scan (room : Nat) : Scan VariantPool := do
  let j ← Scan.tree room
  match ofJson? j with
  | some pool => pure pool
  | none => Scan.refuseData .enclosing .noAlternative

instance : Payload VariantPool := ⟨scan, ofJson⟩

def written (pool : VariantPool) : List Char := Json.Written.list (pool.variants.map Variant.written)

end VariantPool

end BlockModel
