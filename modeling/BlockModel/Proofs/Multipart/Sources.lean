import BlockModel.Proofs.Multipart.Regular
import BlockModel.Proofs.Scan.Prefix
import BlockModel.Proofs.Scan.Supplies

/-! Where a multipart comes from. A document and a stream of the same octets give the same multipart or the same
fault, placed at the same octet or one octet later in a stream. A stream that breaks off gives no multipart, and
a fault other than the break is one that every source with these octets in front has. -/

namespace BlockModel

open Scan

section Places

variable {octets : List UInt8} {c : Cursor}

theorem denotes_position (h : (Cursor.ofOctets octets).Reaches c) : c.position.Denotes octets c.offset := by
  obtain ⟨taken, hrest, hoffset, hposition⟩ := h
  change octets = taken ++ c.rest at hrest
  change c.offset = 0 + taken.length at hoffset
  rw [Nat.zero_add] at hoffset
  refine ⟨?_, ?_⟩
  · rw [hoffset, hrest, List.length_append]
    exact Nat.le_add_right _ _
  · rw [hoffset, hrest, List.take_left]
    exact hposition

/-- The place of the octet ahead, where there is one. -/
theorem denotes_ahead (h : (Cursor.ofOctets octets).Reaches c) :
    ∃ k, (k = c.offset ∨ k = c.offset + 1) ∧ c.ahead.Denotes octets k := by
  have hposition := denotes_position h
  cases hrest : c.rest with
  | nil =>
      refine ⟨c.offset, .inl rfl, ?_⟩
      rw [Cursor.ahead, hrest]
      exact hposition
  | cons b r =>
      refine ⟨c.offset + 1, .inr rfl, ?_⟩
      have hnext : (Cursor.ofOctets octets).Reaches (c.take [b] r false) :=
        h.trans (Cursor.reaches_take false hrest)
      rw [Cursor.ahead, hrest]
      exact denotes_position hnext

theorem denotes_here (supply : Supply) (h : (Cursor.ofOctets octets).Reaches c) :
    ∃ k, (k = c.offset ∨ k = c.offset + 1) ∧ (c.here supply).Denotes octets k := by
  cases supply with
  | document => exact ⟨c.offset, .inl rfl, denotes_position h⟩
  | _ =>
      rw [Cursor.here]
      split
      · exact denotes_ahead h
      · exact ⟨c.offset, .inl rfl, denotes_position h⟩

end Places

namespace Multipart

variable {limits : Limits} {supply : Supply} {octets : List UInt8} {c : Cursor}

/-- What is left of the difference between a document and a stream when they fail: the faults are of one kind
and say the same, and each has a place in the text, in the stream at the same offset or at the next one. -/
structure AgreeingFaults (octets : List UInt8) (document stream : Fault) : Prop where
  kind : document.kind = stream.kind
  message : document.message = stream.message
  places : ∃ p q i k, document.position? = some p ∧ stream.position? = some q ∧
    p.Denotes octets i ∧ q.Denotes octets k ∧ (k = i ∨ k = i + 1)

/-- Both failures were met with the same octets ahead. -/
theorem exists_places {place : Place} {c d : Cursor} (hplace : ∀ columns, place ≠ .before columns)
    (hplaced : place ≠ .enclosing) (hc : (Cursor.ofOctets octets).Reaches c)
    (hd : (Cursor.ofOctets octets).Reaches d) (hrest : c.rest = d.rest) :
    ∃ p q i k, place.position? .document c = some p ∧ place.position? .stream d = some q ∧
      p.Denotes octets i ∧ q.Denotes octets k ∧ (k = i ∨ k = i + 1) := by
  have hclength := hc.offset_add_length
  have hdlength := hd.offset_add_length
  have hoffset : c.offset = d.offset := by
    rw [hrest] at hclength
    omega
  have hposition : c.position = d.position := by
    rw [(denotes_position hc).2, (denotes_position hd).2, hoffset]
  cases place with
  | here =>
      obtain ⟨k, hk, hdenotes⟩ := denotes_here .stream hd
      exact ⟨_, _, _, k, rfl, rfl, denotes_position hc, hdenotes, hoffset ▸ hk⟩
  | ahead =>
      obtain ⟨k, -, hdenotes⟩ := denotes_ahead hd
      have hahead : c.ahead = d.ahead := by rw [Cursor.ahead, Cursor.ahead, hposition, hrest]
      exact ⟨_, _, k, k, rfl, rfl, hahead ▸ hdenotes, hdenotes, .inl rfl⟩
  | before columns => exact absurd rfl (hplace columns)
  | enclosing => exact absurd rfl hplaced

/-- A document and a stream of the same octets give the same multipart, or they fail and agree on why. -/
theorem parse_stream (limits : Limits) (octets : List UInt8) :
    (∃ m : Multipart VariantPool,
        parse limits .document octets = .ok m ∧ parse limits .stream octets = .ok m) ∨
      ∃ fault fault' : Fault,
        (parse limits .document octets : Except Fault (Multipart VariantPool)) = .error fault ∧
        (parse limits .stream octets : Except Fault (Multipart VariantPool)) = .error fault' ∧
        AgreeingFaults octets fault fault' := by
  have halike : Alike .document .stream (.ofOctets octets) (.ofOctets octets)
      (read (α := VariantPool) limits .document octets) (read limits .stream octets) :=
    (regular_document false limits).alike rfl trivial trivial rfl
  rcases hdocument : read (α := VariantPool) limits .document octets with ⟨e | m, c⟩ <;>
    rcases hstream : read (α := VariantPool) limits .stream octets with ⟨e' | m', d⟩ <;>
    rw [hdocument, hstream] at halike
  · refine .inr ⟨_, _, parse_of_read hdocument, parse_of_read hstream, ?_⟩
    have hpermits := permits_of_read hdocument
    have hsource := hpermits.cause_ne_source trivial
    cases halike with
    | @error cause place inPayload _ _ c0 d0 hplace hc hd hrest _ =>
        have hplaced : place ≠ .enclosing := by
          rintro rfl
          rcases hpermits.unplaced rfl with hfalse | ⟨reason, hcause⟩
          · cases hfalse
          · exact hsource reason hcause
        have hsource' : ∀ reason, (Failure.mk cause (place.position? .stream d0) inPayload).cause ≠ .source reason :=
          hsource
        obtain ⟨p, q, i, k, hp, hq, hplaces⟩ := exists_places hplace hplaced hc hd hrest
        refine ⟨Fault.kind_ofFailure_congr rfl rfl, ?_, p, q, i, k, (Fault.position?_ofFailure hsource).trans hp,
          (Fault.position?_ofFailure hsource').trans hq, hplaces⟩
        rw [Fault.message_ofFailure, Fault.message_ofFailure]
  · cases halike
  · cases halike
  · cases halike with
    | ok _ => exact .inl ⟨m, parse_of_read hdocument, parse_of_read hstream⟩

/-- A stream that breaks off never comes to the end of a document. -/
theorem not_ok_document_broken {α : Type} {value : Scan α} {reason : String} {c c' : Cursor} {a : α} :
    (document value).run (.broken reason) c ≠ (.ok a, c') := by
  intro h
  obtain ⟨b, d, -, h⟩ := ok_bind h
  obtain ⟨u, d', hend, -⟩ := ok_bind h
  obtain ⟨b?, d'', hpeek, hend⟩ := ok_bind hend
  cases b? with
  | some b => exact not_ok_refuse hend
  | none =>
      obtain ⟨u', d0, -, hpeek⟩ := ok_bind hpeek
      rw [run] at hpeek
      cases hrest : d0.rest with
      | nil =>
          rw [hrest] at hpeek
          cases hpeek
      | cons b r =>
          rw [hrest] at hpeek
          cases hpeek

section Broken

variable {reason : String} {e : Failure}

theorem exists_error_of_broken (limits : Limits) (reason : String) (octets : List UInt8) :
    ∃ e c, read limits (.broken reason) octets = ((.error e : Except Failure (Multipart VariantPool)), c) := by
  rcases hbroken : read (α := VariantPool) limits (.broken reason) octets with ⟨e | m, c⟩
  · exact ⟨e, c, rfl⟩
  · exact absurd hbroken not_ok_document_broken

/-- A failure that is not the break is met wherever more octets follow. -/
theorem exists_error_of_foretold
    (hbroken : read limits (.broken reason) octets = ((.error e : Except Failure (Multipart VariantPool)), c))
    (hsource : ∀ reason, e.cause ≠ .source reason) (supply : Supply) (more : List UInt8) :
    ∃ e' d, read limits supply (octets ++ more) = ((.error e' : Except Failure (Multipart VariantPool)), d) ∧
      e'.cause = e.cause ∧ e'.inPayload = e.inPayload := by
  have hforetells : Foretells more (read (α := VariantPool) limits (.broken reason) octets)
      (read limits supply (octets ++ more)) := (regular_document true limits).foretells rfl rfl
  rw [hbroken] at hforetells
  rcases hread : read (α := VariantPool) limits supply (octets ++ more) with ⟨e' | m, d⟩ <;>
    rw [hread] at hforetells
  · cases hforetells with
    | error hcause hpayload => exact ⟨e', d, rfl, hcause, hpayload⟩
    | source hcause => exact absurd hcause (hsource _)
  · cases hforetells with
    | source hcause => exact absurd hcause (hsource _)

/-- The break that is met is the break of this stream. -/
theorem reason_eq (h : (freedom true).Permits (.broken reason) e) {reason' : String}
    (hcause : e.cause = .source reason') : reason' = reason := by
  rcases h.cause with ⟨fault, hfault⟩ | ⟨-, fault, hfault⟩ | ⟨reason'', hsame, hsource⟩
  · cases hfault.symm.trans hcause
  · cases hfault.symm.trans hcause
  · rw [Supply.broken.inj hsame]
    exact Cause.source.inj (hcause.symm.trans hsource)

end Broken

/-- A stream that breaks off gives no multipart. When its fault is another one than the break, every source that
has more octets behind those of the stream has a fault of the same kind in the same words. And where the
octets make up a multipart, the fault is the break. -/
theorem parse_broken (limits : Limits) (reason : String) (octets : List UInt8) :
    (∀ m : Multipart VariantPool, parse limits (.broken reason) octets ≠ .ok m) ∧
      (∀ fault : Fault,
        (parse limits (.broken reason) octets : Except Fault (Multipart VariantPool)) = .error fault →
          fault.kind ≠ .source → ∀ (supply : Supply) (more : List UInt8), ∃ fault' : Fault,
            (parse limits supply (octets ++ more) : Except Fault (Multipart VariantPool)) = .error fault' ∧
              fault'.kind = fault.kind ∧ fault'.message = fault.message) ∧
      ((∃ m : Multipart VariantPool, parse limits .stream octets = .ok m) →
        (parse limits (.broken reason) octets : Except Fault (Multipart VariantPool)) =
          .error (.source reason)) := by
  obtain ⟨e, c, hbroken⟩ := exists_error_of_broken limits reason octets
  have hparse := parse_of_read hbroken
  rw [hparse]
  refine ⟨fun m hm => ?_, fun fault hfault hkind supply more => ?_, ?_⟩
  · cases hm
  · obtain rfl := Except.error.inj hfault
    have hsource : ∀ reason, e.cause ≠ .source reason := by
      intro reason hcause
      rw [Fault.ofFailure_source hcause] at hkind
      exact hkind rfl
    obtain ⟨e', d, hread, hcause, hpayload⟩ := exists_error_of_foretold hbroken hsource supply more
    refine ⟨_, parse_of_read hread, Fault.kind_ofFailure_congr hcause hpayload, ?_⟩
    rw [Fault.message_ofFailure, Fault.message_ofFailure, hcause]
  · rintro ⟨m, hm⟩
    by_cases hsource : ∃ reason', e.cause = .source reason'
    · obtain ⟨reason', hcause⟩ := hsource
      obtain rfl := reason_eq (permits_of_read hbroken) hcause
      exact congrArg Except.error (Fault.ofFailure_source hcause)
    · obtain ⟨e', d, hread, -⟩ := exists_error_of_foretold hbroken (not_exists.1 hsource) .stream []
      rw [List.append_nil] at hread
      rw [parse_of_read hread] at hm
      cases hm

/-- A number in place of a case, and a comma behind it. -/
def misplacedNumber : List UInt8 := Text.Utf8.encode "[1,".toList

/-- The fault of a multipart that begins so. -/
def misplacedNumberFault : Fault :=
  .malformed "invalid type: integer `1`, expected a multipart case object" (some ⟨1, 3⟩)

theorem parse_broken_misplacedNumber :
    (parse .standard (.broken "gone") misplacedNumber : Except Fault (Multipart VariantPool)) =
        .error misplacedNumberFault ∧
      misplacedNumberFault.kind ≠ .source ∧
      (∀ (supply : Supply) (more : List UInt8), ∃ fault : Fault,
        (parse .standard supply (misplacedNumber ++ more) : Except Fault (Multipart VariantPool)) = .error fault ∧
          fault.kind = misplacedNumberFault.kind ∧ fault.message = misplacedNumberFault.message) ∧
      (∃ m : Multipart VariantPool, parse .standard .stream [Octet.openList, Octet.closeList] = .ok m) ∧
      (parse .standard (.broken "gone") [Octet.openList, Octet.closeList] :
        Except Fault (Multipart VariantPool)) = .error (.source "gone") := by
  have hfault : (parse .standard (.broken "gone") misplacedNumber : Except Fault (Multipart VariantPool)) =
      .error misplacedNumberFault := rfl
  have hkind : misplacedNumberFault.kind ≠ .source := by decide
  have hempty : (parse .standard .stream [Octet.openList, Octet.closeList] :
      Except Fault (Multipart VariantPool)) = .ok ⟨[]⟩ := rfl
  exact ⟨hfault, hkind, (parse_broken .standard "gone" misplacedNumber).2.1 _ hfault hkind, ⟨_, hempty⟩,
    (parse_broken .standard "gone" _).2.2 ⟨_, hempty⟩⟩

end Multipart

end BlockModel
