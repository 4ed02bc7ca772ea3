import BlockModel.Documents
import BlockModel.Proofs.Multipart.Readers
import BlockModel.Proofs.Payload
import BlockModel.Proofs.Scan.Failing

/-! The readers of multiparts are regular. A condition never blames a payload, and only the payload itself may
leave it to the case around it to place a failure. -/

namespace BlockModel

open Scan

variable {f : Freedom}

theorem Condition.regular_scan (hshapes : f.shapes = true) (limit room level : Nat) :
    Regular f (scan limit room level) := by
  have hreads : Reads (.ofCases fun _ => False) limit (.value false) _ (scan limit room level) _ :=
    (reads_scan_and_scanList trivial (Nat.le_refl limit) room level).1
  exact hreads.regular id hshapes (fun _ => False.elim) nofun

theorem VariantPool.regular_scan (hshapes : f.shapes = true) (hunplaced : f.unplaced = true) (room : Nat) :
    Regular f (scan room) := by
  have hreads : Reads (.ofCases fun _ => False) 0 (.value true) _ (scan room) _ := reads_scan room
  exact hreads.regular id hshapes (fun _ => False.elim) fun _ => hunplaced

namespace Multipart

/-- A reader that comes to payloads through cases alone is as regular as those are. -/
theorem regular_of_reads (part : Part) (hshapes : f.shapes = true) (hpayloads : f.payloads = true) {limit : Nat}
    {α : Type} {P : α → Prop} {p q : Scan α}
    (h : ∀ m : Means, m.early → (∀ room, m.applied (VariantPool.scan room)) → Reads m limit part P p q)
    (hpart : part.unplaced = true → f.unplaced = true) : Regular f p := by
  have hpool : ∀ room, Regular f.inside (Scan.payload (VariantPool.scan room)) := fun room =>
    .payload hpayloads (VariantPool.regular_scan (f := f.inside) hshapes rfl room)
  have hreads := h (.ofCases fun p => Regular f.inside (Scan.payload p)) trivial hpool
  exact hreads.regular id hshapes (fun _ => id) hpart

theorem regular_scanMember (hshapes : f.shapes = true) (hunplaced : f.unplaced = true)
    (hpayloads : f.payloads = true) (limit room : Nat) (d : CaseDraft VariantPool) (key : String) :
    Regular f (scanMember limit room d key) :=
  regular_of_reads (.member key) hshapes hpayloads
    (fun _ hearly happly => reads_scanMember hearly happly (Nat.le_refl limit) room d key) fun _ => hunplaced

theorem regular_scanCase (hshapes : f.shapes = true) (hpayloads : f.payloads = true) (limit room : Nat) :
    Regular f (scanCase limit room : Scan (Option (Case VariantPool))) :=
  regular_of_reads (.value false) hshapes hpayloads
    (fun _ hearly happly => reads_scanCase hearly happly (Nat.le_refl limit) room) nofun

theorem regular_scan (hshapes : f.shapes = true) (hpayloads : f.payloads = true) (limits : Limits) (room : Nat) :
    Regular f (scan limits room : Scan (Multipart VariantPool)) :=
  regular_of_reads (.value false) hshapes hpayloads
    (fun _ hearly happly => reads_scan hearly happly (Nat.le_refl limits.conditionDepth) room) nofun

theorem regular_scanComplete {α : Type} (hshapes : f.shapes = true) (d : CaseDraft α) :
    Regular f (scanComplete d) := by
  have hreads : Reads (.ofCases fun _ => False) 0 (.done false) _ (scanComplete d) _ := reads_scanComplete
  exact hreads.regular id hshapes (fun _ => False.elim) nofun

theorem advances_scanCase {α : Type} [Payload α] (limit room : Nat) :
    Advances always none (scanCase limit room : Scan (Option (Case α))) := by
  have hreads : Reads (.ofCases fun _ => True) limit (.value false) _ (scanCase limit room : Scan (Option (Case α)))
      _ := reads_scanCase trivial (fun _ => trivial) (Nat.le_refl limit) room
  exact hreads.advances trivial

variable {limits : Limits} {supply : Supply} {octets : List UInt8} {c : Cursor}

/-- What the reader of a multipart is free to do. -/
def freedom (backward : Bool) : Freedom := ⟨backward, false, true, true⟩

theorem regular_document (backward : Bool) (limits : Limits) :
    Regular (freedom backward) (document (scan limits greatestNesting) : Scan (Multipart VariantPool)) :=
  .document (regular_scan rfl rfl limits greatestNesting)

theorem parse_of_read {α : Type} [Payload α] {r : Except Failure (Multipart α)}
    (h : read limits supply octets = (r, c)) :
    parse limits supply octets = r.mapError .ofFailure := by
  rw [parse, h]

/-- No failure is left without a place, and none has another cause than the text, unless the source broke off. -/
theorem permits_of_read {e : Failure}
    (h : read limits supply octets = ((.error e : Except Failure (Multipart VariantPool)), c)) :
    (freedom true).Permits supply e :=
  (regular_document true limits).permits rfl h

end Multipart

end BlockModel
