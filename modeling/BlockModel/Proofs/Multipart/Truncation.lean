import BlockModel.Proofs.Multipart.Formed
import BlockModel.Proofs.Multipart.Regular
import BlockModel.Proofs.Scan.CutValue

/-! Documents of multiparts that are cut off. Where a document is read, each front of it that misses the closing bracket
is malformed: it neither gives fewer cases nor blames a payload, wherever the cut lies. Behind the bracket there is
nothing to miss. -/

namespace BlockModel

open Scan

/-- A front of what a case applies blames the text where it fails, and so does nothing at all. -/
theorem PayloadKind.withstands_scan (kind : PayloadKind) (room : Nat) :
    Withstands true (Payload.scan room : Scan kind.Value) ∧ SparesAtEnd true (Payload.scan room : Scan kind.Value) :=
  ⟨(kind.reads room).withstands False.elim fun _ => False.elim, (kind.reads room).sparesAtEnd False.elim rfl⟩

namespace Multipart

variable {kind : PayloadKind}

/-- What stands in the brackets of a multipart. -/
theorem withstands_cases (limit room : Nat) :
    Withstands false (do
      let cs ← items (scanCase limit room)
      pure ⟨cs.filterMap id⟩ : Scan (Multipart kind.Value)) := by
  have hcases := reads_cases (m := .ofCases fun p => Withstands true p ∧ SparesAtEnd true p) trivial
    kind.withstands_scan (Nat.le_refl limit) room
  exact hcases.withstands (fun _ => rfl) fun _ => id

theorem withstands_scan (kind : PayloadKind) (limits : Limits) (room : Nat) :
    Withstands false (scan limits room : Scan (Multipart kind.Value)) :=
  (reads (fun p => Withstands true p ∧ SparesAtEnd true p) kind.withstands_scan limits room).withstands (fun _ => rfl)
    fun _ => id

section Documents

variable {limits : Limits} {m : Multipart kind.Value} {front u t : List UInt8}

/-- A multipart that was read is taken with its brackets wherever it stands. -/
theorem takes_scan {c c' : Cursor} (h : (scan limits greatestNesting).run .document c = (.ok m, c')) :
    ∃ s, c.rest = s ++ c'.rest ∧ ∀ t, Takes (scan limits greatestNesting) (s ++ t) m t := by
  refine (withstands_cases _ 126).takes_list ?_ h
  intro c m c' hcases
  obtain ⟨cs, d, hitems, hpure⟩ := ok_bind hcases
  obtain ⟨-, rfl⟩ := ok_pure hpure
  exact exists_close_of_items hitems

theorem parse_of_takes (h : Takes (scan limits greatestNesting) u m t) (ht : Blanks t) :
    parse limits .document u = .ok m := by
  have hend : Takes endOfDocument t () [] := .of_gives fun _ => (gives_peekPastBlanks_nil ht).bind_ok (.pure _ _)
  have hdocument : Takes (document (scan limits greatestNesting)) u m [] := h.bind (hend.bind (.pure m []))
  obtain ⟨c, hrun, -⟩ := hdocument (.ofOctets u) rfl
  exact parse_of_read hrun

/-- Where the text alone is to blame, the front of a document is malformed. -/
theorem malformed_of_scan {e : Failure} {c : Cursor}
    (h : (scan limits greatestNesting : Scan (Multipart kind.Value)).run .document (.ofOctets front) = (.error e, c))
    (he : BlamesText false e) :
    ∃ fault : Fault, (parse limits .document front : Except Fault (Multipart kind.Value)) = .error fault ∧
      fault.kind = .malformed :=
  ⟨_, parse_of_read (run_bind_error h), he.kind⟩

/-- A front of a document that was read gives a multipart only where the rest is blank. -/
theorem rest_eq_of_scan {octets q : List UInt8} {c d : Cursor} {m' : Multipart kind.Value}
    (h : (scan limits greatestNesting).run .document (.ofOctets octets) = (.ok m, d)) (hq : octets = front ++ q)
    (hfront : (scan limits greatestNesting).run .document (.ofOctets front) = (.ok m', c)) :
    d.rest = c.rest ++ q := by
  obtain ⟨s, hs, htakes⟩ := takes_scan hfront
  have hoctets : octets = s ++ (c.rest ++ q) := by
    rw [hq, ← List.append_assoc]
    exact congrArg (· ++ q) hs
  obtain ⟨d', hrun, hd'⟩ := htakes (c.rest ++ q) (.ofOctets octets) hoctets
  rw [h] at hrun
  cases hrun
  exact hd'

end Documents

/-- A document that gives a multipart is an array between blanks. A front of it that misses the closing bracket of the
array is malformed, and one that has the bracket gives the same multipart. -/
theorem parse_truncated (kind : PayloadKind) (limits : Limits) (octets : List UInt8) {m : Multipart kind.Value}
    (h : parse limits .document octets = .ok m) :
    ∃ w s w' js, Blanks w ∧ Spells .form (.value (.list js)) s ∧ Blanks w' ∧ octets = w ++ (s ++ w') ∧
      ∀ front, front <+: octets →
        (front.length < w.length + s.length → ∃ fault : Fault,
          (parse limits .document front : Except Fault (Multipart kind.Value)) = .error fault ∧
            fault.kind = .malformed) ∧
        (w.length + s.length ≤ front.length → parse limits .document front = .ok m) := by
  obtain ⟨d, hscan, hblanks⟩ := exists_scan_of_parse h
  obtain ⟨w, s, js, hw, hjs, hrest⟩ := consumes_scan kind.consumes_scan limits greatestNesting _ _ _ _ hscan
  refine ⟨w, s, d.rest, js, hw, hjs, hblanks, hrest, ?_⟩
  rintro front ⟨q, rfl⟩
  have hrest : front ++ q = w ++ (s ++ d.rest) := hrest
  constructor
  · intro hmissing
    have hcut := withstands_scan kind limits greatestNesting (.ofOctets front)
      (.ofOctets (front ++ q)) q rfl
    rw [hscan] at hcut
    rcases hfront : (scan limits greatestNesting : Scan (Multipart kind.Value)).run .document (.ofOctets front)
      with ⟨e | m', c⟩
    · rw [hfront] at hcut
      cases hcut with
      | spent _ _ hblame => exact malformed_of_scan hfront (hblame e c m d rfl rfl)
    · -- More would be left of the whole than there is behind its bracket.
      have hlength := congrArg List.length hrest
      rw [rest_eq_of_scan hscan rfl hfront] at hlength
      simp only [List.length_append] at hlength
      omega
  · intro hwhole
    obtain ⟨s', hs', htakes⟩ := takes_scan hscan
    have hs' : front ++ q = s' ++ d.rest := hs'
    obtain rfl : s' = w ++ s :=
      List.append_cancel_right (hs'.symm.trans (hrest.trans (List.append_assoc w s d.rest).symm))
    have hprefix : w ++ s <+: front ++ q := ⟨d.rest, hs'.symm⟩
    obtain ⟨t, rfl⟩ := List.prefix_of_prefix_length_le hprefix (List.prefix_append front q)
      (by rwa [List.length_append])
    have ht : d.rest = t ++ q := by
      rw [List.append_assoc, List.append_assoc] at hrest
      exact (List.append_cancel_left (List.append_cancel_left hrest)).symm
    rw [ht] at hblanks
    exact parse_of_takes (htakes t) (List.forall_mem_append.1 hblanks).1

/-- Two cases, of which the one applies a number that is a number still where it is cut off. -/
def countsText : List UInt8 :=
  Text.Utf8.encode " [\x7b\"apply\":-12\x7d,\x7b\"when\":\x7b\"a\":true\x7d,\"apply\":null\x7d]\n".toList

theorem parse_truncated_countsText :
    ∃ m : Multipart PayloadKind.optionalInt32.Value, parse .standard .document countsText = .ok m ∧
      ∃ w s w' js, Blanks w ∧ Spells .form (.value (.list js)) s ∧ Blanks w' ∧ countsText = w ++ (s ++ w') ∧
        ∀ front, front <+: countsText →
          (front.length < w.length + s.length → ∃ fault : Fault,
            (parse .standard .document front : Except Fault (Multipart PayloadKind.optionalInt32.Value)) =
              .error fault ∧ fault.kind = .malformed) ∧
          (w.length + s.length ≤ front.length → parse .standard .document front = .ok m) := by
  obtain ⟨m, hm⟩ : ∃ m : Multipart PayloadKind.optionalInt32.Value, parse .standard .document countsText = .ok m :=
    exists_ok_of_isSome (by decide +kernel)
  exact ⟨m, hm, parse_truncated .optionalInt32 .standard countsText hm⟩

end Multipart

end BlockModel
