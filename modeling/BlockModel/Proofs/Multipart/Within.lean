import BlockModel.Proofs.Multipart.Sources
import BlockModel.Proofs.Payload
import BlockModel.Proofs.Scan.Within

/-! Where multiparts fail on a document. Only what a case applies may be left unplaced, and the case around it
places it, so every failure of a document has a place, and that is one in its text. -/

namespace BlockModel

open Scan

theorem PayloadKind.within_scan (kind : PayloadKind) (room : Nat) :
    Within true (Payload.scan room : Scan kind.Value) :=
  (kind.reads room).within (fun _ => False.elim) fun _ => rfl

theorem Multipart.within_scan {α : Type} [Payload α] (hpayload : ∀ room, Within true (Payload.scan room : Scan α))
    (limits : Limits) (room : Nat) : Within false (scan limits room : Scan (Multipart α)) :=
  (reads (Within true) hpayload limits room).within (fun _ => id) nofun

/-- A failure of reading a document as a whole: its cause lies in the text, and so does its place. -/
structure Failure.InDocument (octets : List UInt8) (e : Failure) : Prop where
  cause : InText e.cause
  placed : ∃ p i, e.position = some p ∧ p.Denotes octets i

theorem Scan.Within.inDocument {α : Type} {p : Scan α} (hp : Within false p) {octets : List UInt8} {e : Failure}
    {c : Cursor} (h : p.runOn .document octets = (.error e, c)) : e.InDocument octets := by
  obtain ⟨hcause, hallowed, hreached⟩ := hp _ _ _ h
  refine ⟨hcause, ?_⟩
  cases hposition : e.position with
  | none => exact absurd (hallowed hposition) Bool.false_ne_true
  | some p =>
      obtain ⟨d, hd, rfl⟩ := hreached p hposition
      exact ⟨_, d.offset, rfl, denotes_position hd⟩

theorem Failure.InDocument.exists_data {octets : List UInt8} {e : Failure} (h : e.InDocument octets)
    (hdata : e.isData = true) : ∃ fault, e.cause = .data fault := by
  obtain ⟨cause, position, inPayload⟩ := e
  cases h.cause with
  | @data fault hplain => exact ⟨fault, rfl⟩
  | grammar fault => cases hdata
  | stalled => cases hdata

/-- When the words of such a failure are taken for those of a failure in words of its own, no place is found in
them. -/
theorem Failure.InDocument.ofText_message {octets : List UInt8} {e : Failure} (h : e.InDocument octets)
    (hdata : e.isData = true) : ofText e.cause.message = ⟨.custom e.cause.message, none, false⟩ := by
  obtain ⟨cause, position, inPayload⟩ := e
  cases h.cause with
  | data hplain => exact ofText_of_endsPlain (DataFault.endsPlain_message hplain)
  | grammar fault => cases hdata
  | stalled => cases hdata

theorem Multipart.inDocument_of_read (kind : PayloadKind) {limits : Limits} {octets : List UInt8} {e : Failure}
    {c : Cursor} (h : read limits .document octets = ((.error e : Except Failure (Multipart kind.Value)), c)) :
    e.InDocument octets :=
  (Within.document (within_scan kind.within_scan limits greatestNesting)).inDocument h

end BlockModel
