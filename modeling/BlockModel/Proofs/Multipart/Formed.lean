import BlockModel.Documents
import BlockModel.Proofs.Multipart.Readers
import BlockModel.Proofs.Payload
import BlockModel.Proofs.Scan.Formed

/-! Documents that are read are JSON by their form. Every reader takes a value by its form: those of conditions and
cases enter it part by part, those of payloads in their own ways, and what stands under a comment or an unknown key is
skipped. So a document that gives a multipart is one array between blanks. -/

namespace BlockModel

open Scan

theorem PayloadKind.consumes_scan (kind : PayloadKind) (room : Nat) :
    Consumes ByValue (Payload.scan room : Scan kind.Value) :=
  (kind.reads room).consumes fun _ => False.elim

namespace Multipart

theorem consumes_scan {α : Type} [Payload α] (hpayload : ∀ room, Consumes ByValue (Payload.scan room : Scan α))
    (limits : Limits) (room : Nat) : Consumes ByList (scan limits room : Scan (Multipart α)) := by
  cases room with
  | zero => exact .expectList (fun _ _ => .tooDeep) _
  | succ room =>
      have hcases := reads_cases (m := .ofCases (Consumes ByValue)) trivial hpayload
        (Nat.le_refl limits.conditionDepth) room
      exact .expectList (fun _ hkind => .inList (hcases.consumes fun _ => id) hkind) _

/-- Behind the value of a document that gives a multipart there are only blanks. -/
theorem exists_scan_of_parse {α : Type} [Payload α] {limits : Limits} {supply : Supply} {octets : List UInt8}
    {m : Multipart α} (h : parse limits supply octets = .ok m) :
    ∃ c, (scan limits greatestNesting).run supply (.ofOctets octets) = (.ok m, c) ∧ Blanks c.rest := by
  rcases hread : read (α := α) limits supply octets with ⟨r, c⟩
  have hok := (mapError_eq_ok_iff _).1 h
  rw [hread] at hok
  obtain rfl : r = .ok m := hok
  exact ok_document hread

/-- A document that gives a multipart is an array by the grammar between blanks, down to the parts that are only
skipped. -/
theorem parse_wellFormed (kind : PayloadKind) (limits : Limits) (supply : Supply) (octets : List UInt8)
    {m : Multipart kind.Value} (h : parse limits supply octets = .ok m) :
    ∃ w s w' js, Blanks w ∧ Spells .form (.value (.list js)) s ∧ Blanks w' ∧ octets = w ++ (s ++ w') := by
  obtain ⟨c, hscan, hblanks⟩ := exists_scan_of_parse h
  obtain ⟨w, s, js, hw, hjs, hrest⟩ := consumes_scan kind.consumes_scan limits greatestNesting _ _ _ _ hscan
  exact ⟨w, s, c.rest, js, hw, hjs, hblanks, hrest⟩

/-- A case with a number out of range and half of a surrogate pair under a key that is not known. -/
def skippedText : List UInt8 :=
  Text.Utf8.encode " [\x7b\"x\":\x7b\"\":[1e999,\"\\ud800\"]\x7d,\"apply\":[\"stone\"]\x7d]\n".toList

theorem parse_wellFormed_skippedText :
    ∃ m : Multipart PayloadKind.texts.Value, parse .standard .stream skippedText = .ok m ∧
      ∃ w s w' js, Blanks w ∧ Spells .form (.value (.list js)) s ∧ Blanks w' ∧ skippedText = w ++ (s ++ w') := by
  obtain ⟨m, hm⟩ : ∃ m : Multipart PayloadKind.texts.Value, parse .standard .stream skippedText = .ok m :=
    exists_ok_of_isSome (by decide +kernel)
  exact ⟨m, hm, parse_wellFormed .texts .standard .stream skippedText hm⟩

end Multipart

end BlockModel
