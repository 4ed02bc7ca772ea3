import BlockModel.Proofs.Definition.Readers
import BlockModel.Proofs.Multipart.Payload
import BlockModel.Proofs.Multipart.Within

/-! Where faults lie. Every fault of a document has a place, and that is the line and the column of an offset in its
text, whatever the text says; that of a payload is where the case around it is left, behind the blanks after the value
and behind the brace, if that is what follows. -/

namespace BlockModel

open Scan

namespace Multipart

variable {limits : Limits} {limit room : Nat} {octets ahead behind : List UInt8}

/-- Reading comes to the value of an `apply`, and a value that is no pool stands there, with these octets behind it. -/
def FailingApply (limits : Limits) (octets behind : List UInt8) : Prop :=
  ∃ front ahead j, octets = front ++ ahead ∧ LeadsTo limits "apply" front ∧ Stands valueRoom j ahead behind ∧
    ¬VariantPool.IsPool j

/-- The offset of the first octet behind a value that is no blank, or of the end, and of the next one where that
octet is a brace. -/
def leftOffset (octets behind : List UInt8) : Nat :=
  octets.length - (behind.dropWhile Octet.isBlank).length +
    if (behind.dropWhile Octet.isBlank).head? = some Octet.closeObject then 1 else 0

/-- A pool is left unplaced when its tree was read, and the case places it behind its brace. -/
theorem caseFails_of_not_isPool {j : Json} (h : Stands room j ahead behind) (hj : ¬VariantPool.IsPool j) :
    CaseFails (.placed (behindBrace behind)) limit room "apply" ahead := by
  intro u hmember
  have hlasts := Account.lasts_unplaced behind
  have hpool : FailsWith (.unplaced behind) (VariantPool.scan room) ahead := by
    refine (takes_tree_iff.2 h).bind_failsWith hlasts fun c hc => ?_
    rw [VariantPool.ofJson?_eq_none_iff.2 hj]
    exact ⟨_, c, rfl, rfl, hc⟩
  have hpayload : FailsWith (.unplaced behind) (Scan.payload (VariantPool.scan room)) ahead :=
    hpool.payload fun _ _ _ he => he
  have hmembers := hmember.failsWith hlasts fun d w hw => (takes_colon hw ahead).bind_failsWith hlasts (hpayload.bind _)
  have hsteady := Account.steady_placed (behindBrace behind)
  have hinside := (hmembers.bind scanComplete).enclosed_unplaced fun c hc =>
    (rest_closeObject c).trans (congrArg behindBrace hc)
  exact ((Takes.skip _ u).bind_failsWith hsteady.lasts hinside).expectObject hsteady.lasts blanks_nil expectedCase

theorem FailingApply.denotes {e : Failure} {c : Cursor} (h : FailingApply limits octets behind)
    (hread : read limits .document octets = ((.error e : Except Failure (Multipart VariantPool)), c)) :
    ∃ p, e.position = some p ∧ p.Denotes octets (leftOffset octets behind) := by
  obtain ⟨front, ahead, j, rfl, hleads, hstands, hj⟩ := h
  obtain ⟨e', c', hread', d, hd, hrest, hposition⟩ :=
    hleads.failsWith (Account.steady_placed (behindBrace behind)) (caseFails_of_not_isPool hstands hj)
  rw [hread] at hread'
  cases hread'
  have hoffset : d.offset = leftOffset (front ++ ahead) behind := by
    have hlength := hd.offset_add_length
    obtain ⟨-, w, s, -, -, -, rfl⟩ := hstands
    have hbehind := (List.dropWhile_sublist Octet.isBlank (l := behind)).length_le
    rw [hrest, behindBrace] at hlength
    rw [leftOffset]
    simp only [Cursor.ofOctets, List.length_append] at hlength ⊢
    split at hlength
    · rename_i hhead
      obtain ⟨r, hr⟩ := List.head?_eq_some_iff.1 hhead
      rw [if_pos hhead]
      rw [hr, List.tail_cons] at hlength
      rw [hr, List.length_cons] at hbehind ⊢
      omega
    · rename_i hhead
      rw [if_neg hhead]
      omega
  exact ⟨d.position, hposition, hoffset ▸ denotes_position hd⟩

theorem exists_failingApply {fault : Fault}
    (h : parse (α := VariantPool) limits .document octets = .error fault) (hkind : fault.kind = .payload) :
    ∃ behind, FailingApply limits octets behind := by
  obtain ⟨e, c, hread, rfl⟩ := exists_read_of_parse h
  rcases kind_of_read hread with ⟨data, hblames, -⟩ | hmalformed
  · obtain ⟨ahead, hreaches, ⟨j, behind, hstands, hj⟩, -⟩ := reachesValue_of_blames hread hblames
    obtain ⟨front, rfl, hleads⟩ := hreaches.exists_leadsTo
    exact ⟨behind, front, ahead, j, rfl, hleads, hstands, hj⟩
  · rw [hmalformed] at hkind
    cases hkind

end Multipart

namespace Definition

theorem within_scan (room : Nat) : Within false (scan room) := by
  have hpool : ∀ room, Within true (VariantPool.scan room) := PayloadKind.within_scan .pool
  exact (reads (Within true) hpool room).within (fun _ => id) nofun

theorem inDocument_of_read {octets : List UInt8} {e : Failure} (h : read octets = .error e) : e.InDocument octets := by
  rcases hread : (document (scan greatestNesting)).runOn .document octets with ⟨r, c⟩
  rw [read, hread] at h
  obtain rfl : r = .error e := h
  exact (Within.document (within_scan greatestNesting)).inDocument hread

theorem exists_read_of_load {octets : List UInt8} {fault : Fault} (h : load octets = .error fault) :
    ∃ e, read octets = .error e ∧ fault = .ofStructure e := by
  cases hread : read octets with
  | error e =>
      rw [load, hread] at h
      exact ⟨e, rfl, (Except.error.inj h).symm⟩
  | ok d =>
      rw [load, hread] at h
      cases h

end Definition

namespace Fault

/-- A document that gives no multipart or no definition has a fault at a place in it: an offset is there with as many
line feeds in front of it, and as many octets since the last of them. The text has no part in that but by its octets:
where words are made of it, they do not end with anything that would be taken for a place. A payload that is to blame
is placed behind the blanks that follow its value, or behind the brace that ends its case there. -/
theorem placed_inDocument (limits : Limits) (octets : List UInt8) :
    (∀ fault, Multipart.parse (α := VariantPool) limits .document octets = .error fault →
      ∃ p i, fault.position? = some p ∧ p.IsAt octets i) ∧
    (∀ fault, Definition.load octets = .error fault → ∃ p i, fault.position? = some p ∧ p.IsAt octets i) ∧
    (∀ e : Failure, (Multipart.read (α := VariantPool) limits .document octets).1 = .error e ∨
      Definition.read octets = .error e → e.isData = true →
        Failure.ofText e.cause.message = ⟨.custom e.cause.message, none, false⟩) ∧
    ∀ fault, Multipart.parse (α := VariantPool) limits .document octets = .error fault → fault.kind = .payload →
      (∃ behind, Multipart.FailingApply limits octets behind) ∧
        ∀ behind, Multipart.FailingApply limits octets behind →
          ∃ p, fault.position? = some p ∧ p.IsAt octets (Multipart.leftOffset octets behind) := by
  have hmultipart : ∀ {e : Failure} {c : Cursor},
      Multipart.read limits .document octets = ((.error e : Except Failure (Multipart VariantPool)), c) →
        e.InDocument octets := Multipart.inDocument_of_read .pool
  refine ⟨fun fault h => ?_, fun fault h => ?_, fun e h hdata => ?_,
    fun fault h hkind => ⟨Multipart.exists_failingApply h hkind, fun behind hfailing => ?_⟩⟩
  · obtain ⟨e, c, hread, rfl⟩ := Multipart.exists_read_of_parse h
    obtain ⟨hcause, p, i, hposition, hdenotes⟩ := hmultipart hread
    exact ⟨p, i, (position?_ofFailure hcause.ne_source).trans hposition, hdenotes.isAt⟩
  · obtain ⟨e, hread, rfl⟩ := Definition.exists_read_of_load h
    obtain ⟨hcause, p, i, hposition, hdenotes⟩ := Definition.inDocument_of_read hread
    refine ⟨p, i, ?_, hdenotes.isAt⟩
    rw [ofStructure_eq hcause.ne_source]
    exact hposition
  · rcases h with h | h
    · exact (hmultipart (Prod.ext h rfl)).ofText_message hdata
    · exact (Definition.inDocument_of_read h).ofText_message hdata
  · obtain ⟨e, c, hread, rfl⟩ := Multipart.exists_read_of_parse h
    obtain ⟨p, hposition, hdenotes⟩ := hfailing.denotes hread
    exact ⟨p, (position?_ofFailure (hmultipart hread).cause.ne_source).trans hposition, hdenotes.isAt⟩

/-- A text whose words end like a place, where a definition is to be. -/
def misleadingText : List UInt8 := Text.Utf8.encode "\" at line 9 column 9\"".toList

def misleadingFailure : Failure :=
  ⟨.data (.wrongType (.str " at line 9 column 9") Definition.expected), some ⟨1, 21⟩, false⟩

/-- A number that is applied, and a brace on the next line. -/
def numberApplied : List UInt8 := Multipart.firstMember "apply" ++ Text.Utf8.encode "5 \n\x7d]".toList

def numberAppliedFailure : Failure := ⟨.data .noAlternative, some ⟨2, 1⟩, true⟩

theorem failingApply_numberApplied :
    Multipart.FailingApply .standard numberApplied (Text.Utf8.encode " \n\x7d]".toList) := by
  have hrun : (tree Multipart.valueRoom).runOn .document (Text.Utf8.encode "5 \n\x7d]".toList) =
      (.ok (.number (.int 5)), ⟨1, ⟨1, 1⟩, Text.Utf8.encode " \n\x7d]".toList, true, []⟩) := rfl
  exact ⟨_, _, _, rfl, Multipart.leadsTo_firstMember .standard "apply", ok_tree hrun, Multipart.not_isPool_number _⟩

theorem placed_inDocument_numberApplied :
    (∃ fault p i, Definition.load misleadingText = .error fault ∧ fault.position? = some p ∧
        p.IsAt misleadingText i) ∧
      Definition.read misleadingText = .error misleadingFailure ∧ misleadingFailure.isData = true ∧
      Failure.ofText misleadingFailure.cause.message = ⟨.custom misleadingFailure.cause.message, none, false⟩ ∧
      ∃ fault p, Multipart.parse (α := VariantPool) .standard .document numberApplied = .error fault ∧
        fault.kind = .payload ∧ fault.position? = some p ∧ p.IsAt numberApplied 14 := by
  have hread : Definition.read misleadingText = .error misleadingFailure :=
    Failure.eq_error_of_ending? (by decide +kernel)
  have hload : Definition.load misleadingText = .error (.ofStructure misleadingFailure) := by
    rw [Definition.load, hread]
    rfl
  have hparse : Multipart.parse (α := VariantPool) .standard .document numberApplied =
      .error (.ofFailure numberAppliedFailure) := by
    have hfailure : (Multipart.read (α := VariantPool) .standard .document numberApplied).1 =
        .error numberAppliedFailure := Failure.eq_error_of_ending? (by decide +kernel)
    rw [Multipart.parse, hfailure]
    rfl
  have hkind : (ofFailure numberAppliedFailure).kind = .payload := rfl
  have hoffset : Multipart.leftOffset numberApplied (Text.Utf8.encode " \n\x7d]".toList) = 14 := by decide +kernel
  obtain ⟨p, i, hplaces⟩ := (placed_inDocument .standard misleadingText).2.1 _ hload
  obtain ⟨q, hq, hisAt⟩ :=
    ((placed_inDocument .standard numberApplied).2.2.2 _ hparse hkind).2 _ failingApply_numberApplied
  rw [hoffset] at hisAt
  exact ⟨⟨_, p, i, hload, hplaces⟩, hread, rfl,
    (placed_inDocument .standard misleadingText).2.2.1 _ (.inr hread) rfl, _, q, hparse, hkind, hq, hisAt⟩

end Fault

end BlockModel
