import BlockModel.Proofs.Scan.Reads
import BlockModel.Variant.Json

/-! What multipart cases apply. The cases of one multipart apply values of one kind, and what holds of every kind
holds of multiparts of every kind. How the readers of all kinds are put together is said here. -/

namespace BlockModel

/-- The kinds of values that a case may apply. -/
inductive PayloadKind where
  | pool
  | variant
  | json
  | text
  | int32
  | truth
  | texts
  | optionalInt32
  deriving DecidableEq, Repr

namespace PayloadKind

/-- The values of a kind. -/
def Value : PayloadKind → Type
  | pool => VariantPool
  | variant => Variant
  | json => Json
  | text => String
  | int32 => Int32
  | truth => Bool
  | texts => List String
  | optionalInt32 => Option Int32

instance : (kind : PayloadKind) → Payload kind.Value
  | pool => inferInstanceAs (Payload VariantPool)
  | variant => inferInstanceAs (Payload Variant)
  | json => inferInstanceAs (Payload Json)
  | text => inferInstanceAs (Payload String)
  | int32 => inferInstanceAs (Payload Int32)
  | truth => inferInstanceAs (Payload Bool)
  | texts => inferInstanceAs (Payload (List String))
  | optionalInt32 => inferInstanceAs (Payload (Option Int32))

end PayloadKind

open Scan

variable {m : Means} {limit : Nat} {unplaced : Bool}

namespace Variant

theorem reads_scanField (d : Draft) (field : Field) :
    Reads m limit (.value unplaced) (fun _ => True) (scanField d field) (scanField d field) := by
  cases field with
  | model => exact .before (.string unplaced) fun _ => .pure false fun _ => trivial
  | x | y => exact .before .int32 fun _ => .pure false fun _ => trivial
  | uvlock => exact .before (.bool unplaced) fun _ => .pure false fun _ => trivial
  | weight => exact .before .uint32 fun _ => .pure false fun _ => trivial

theorem reads_scanMember (d : Draft) (key : String) :
    Reads m limit (.member key) (fun _ => True) (scanMember d key) (scanMember d key) := by
  unfold scanMember
  cases Field.ofName? key with
  | none => exact .colon (.before (.skipValue true) fun _ => .pure false fun _ => trivial)
  | some field => exact .ite (.refuse rfl nofun rfl rfl) (.colon (reads_scanField d field))

theorem reads_scanMembers : Reads m limit .members (fun _ => True) scanMembers scanMembers := by
  refine .members (I := fun _ => True) trivial (fun d key => (reads_scanMember d key).mono fun _ h _ => h) fun d => ?_
  unfold Draft.complete
  cases d.model with
  | some model => exact .pure true fun _ => trivial
  | none => exact .refuse rfl nofun rfl rfl

theorem reads_scanPlaces (hplaces : m.places) :
    Reads m limit (.items true) (fun _ => True) scanPlaces scanPlaces := by
  refine .firstPlace hplaces rfl (by decide +kernel) rfl fun model => ?_
  refine .place hplaces .int32 fun x => .place hplaces .int32 fun y => .place hplaces (.bool true) fun uvlock => ?_
  exact .place hplaces .uint32 fun weight => .lastPlace hplaces fun _ _ _ _ => trivial

theorem reads_scan (hplaces : m.places) (room : Nat) :
    Reads m limit (.value unplaced) (fun _ => True) (scan room) (scan room) := by
  have hplain : Failure.endsPlain expected.toList = true := by decide +kernel
  cases room with
  | zero => exact .expectRecord hplain (fun b _ => .tooDeep b) fun b _ => .tooDeep b
  | succ room =>
      exact .expectRecord hplain (fun b hkind => .inPlaces hplaces hkind (reads_scanPlaces hplaces)) fun b hkind =>
        .inObject hkind reads_scanMembers

end Variant

theorem VariantPool.ofJson?_number (n : JsonNumber) : ofJson? (.number n) = none := by cases n <;> rfl

theorem VariantPool.reads_scan (room : Nat) :
    Reads m limit (.value true) (fun _ => True) (VariantPool.scan room) (VariantPool.scan room) :=
  .judged room (fun j => by cases ofJson? j <;> rfl) ofJson?_number rfl rfl

theorem PayloadKind.reads_scan (hplaces : m.places) (kind : PayloadKind) (room : Nat) :
    Reads m limit (.value true) (fun _ => True) (Payload.scan room : Scan kind.Value) (Payload.scan room) := by
  have htexts : Failure.endsPlain "a sequence".toList = true := by decide +kernel
  cases kind with
  | pool => exact VariantPool.reads_scan room
  | variant => exact Variant.reads_scan hplaces room
  | json => exact .map (.tree true room) fun _ _ => trivial
  | text => exact .string true
  | int32 => exact .int32
  | truth => exact .bool true
  | texts =>
      cases room with
      | zero => exact .expectList htexts fun b _ => .tooDeep b
      | succ room =>
          refine .expectList htexts fun b hkind => .inList hkind ?_
          exact (Reads.items (.string true)).mono fun _ _ => trivial
  | optionalInt32 => exact (Reads.optional .int32).mono fun _ _ => trivial

theorem PayloadKind.reads (kind : PayloadKind) (room : Nat) :
    Reads .ofPayload 0 (.value true) (fun _ => True) (Payload.scan room : Scan kind.Value) (Payload.scan room) :=
  kind.reads_scan trivial room

end BlockModel
