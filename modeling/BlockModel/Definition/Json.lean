import BlockModel.Definition.Basic
import BlockModel.Multipart.Json

/-! Definitions in JSON: an object with the sections `variants` and `multipart`, or the list of the two.
A section that is `null` or not there is absent, and members of other keys are left aside. -/

namespace BlockModel.Definition

inductive Section where
  | variants
  | multipart
  deriving DecidableEq, Repr

namespace Section

def name : Section → String
  | variants => "variants"
  | multipart => "multipart"

def ofName? (name : String) : Option Section := [variants, multipart].find? (·.name == name)

end Section

/-- The sections that were met so far. -/
structure Draft where
  variants : Option (Option VariantTable)
  multipart : Option (Option (Multipart VariantPool))

namespace Draft

def empty : Draft := ⟨none, none⟩

def has (d : Draft) : Section → Bool
  | .variants => d.variants.isSome
  | .multipart => d.multipart.isSome

def complete (d : Draft) : Definition := ⟨d.variants.join, d.multipart.join⟩

end Draft

def expected : String := "struct BlockstateDefinition"

def scanVariants (room : Nat) : Scan (Option VariantTable) := Scan.optional (VariantTable.scan room)

def scanMultipart (room : Nat) : Scan (Option (Multipart VariantPool)) :=
  Scan.optional (Multipart.scan .standard room)

def scanSection (room : Nat) (d : Draft) : Section → Scan Draft
  | .variants => do let v ← scanVariants room; pure { d with variants := some v }
  | .multipart => do let v ← scanMultipart room; pure { d with multipart := some v }

def scanMember (room : Nat) (d : Draft) (key : String) : Scan Draft :=
  match Section.ofName? key with
  | none => do
    Scan.colon
    Scan.skipValue
    pure d
  | some s =>
    if d.has s then Scan.refuseData .enclosing (.duplicateField s.name)
    else do
      Scan.colon
      scanSection room d s

def scanMembers (room : Nat) : Scan Definition := do
  let d ← Scan.members Draft.empty (scanMember room)
  pure d.complete

def scanPlaces (room : Nat) : Scan Definition := do
  let variants ← Scan.place? true (scanVariants room)
  let multipart ← Scan.place? false (scanMultipart room)
  pure ⟨variants.join, multipart.join⟩

def scan : Nat → Scan Definition
  | 0 => Scan.expectRecord expected Scan.tooDeep Scan.tooDeep
  | room + 1 =>
    Scan.expectRecord expected (Scan.inPlaces (scanPlaces room)) (Scan.inObject (scanMembers room))

def variantsOfJson : Json → Except DataFault (Option VariantTable) := Json.asOptional VariantTable.ofJson

def multipartOfJson : Json → Except DataFault (Option (Multipart VariantPool)) :=
  Json.asOptional fun j => (Multipart.ofJson .standard j).1

def sectionOfJson (d : Draft) (j : Json) : Section → Except DataFault Draft
  | .variants => do let v ← variantsOfJson j; pure { d with variants := some v }
  | .multipart => do let v ← multipartOfJson j; pure { d with multipart := some v }

def membersOfJson (d : Draft) : List (String × Json) → Except DataFault Draft
  | [] => .ok d
  | (key, j) :: rest =>
    match Section.ofName? key with
    | none => membersOfJson d rest
    | some s =>
      if d.has s then .error (.duplicateField s.name)
      else do
        let d ← sectionOfJson d j s
        membersOfJson d rest

def placesOfJson (js : List Json) : Except DataFault Definition := do
  let variants ← Json.placeOr variantsOfJson none js[0]?
  let multipart ← Json.placeOr multipartOfJson none js[1]?
  Json.noMorePlaces 2 js
  pure ⟨variants, multipart⟩

def ofJson : Json → Except DataFault Definition
  | .object members => Draft.complete <$> membersOfJson .empty members
  | .list js => placesOfJson js
  | j => j.refused expected

end BlockModel.Definition
