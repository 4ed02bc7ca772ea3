import BlockModel.Documents
import BlockModel.Proofs.Condition.Reading
import BlockModel.Proofs.Variant.Reading

/-! Multiparts come out of a text as they come out of the JSON that it spells, and the same lines are
reported on the way. -/

namespace BlockModel.Multipart

open Scan

variable {α : Type} [Payload α] {limit room : Nat} {j : Json}

/-- What one member does to the draft of a case. -/
def memberOfJson (limit : Nat) (d : CaseDraft α) (key : String) (j : Json) : Logged (CaseDraft α) :=
  match CaseKey.ofName key with
  | .when => ((fun c => { d with condition := some c }) <$> Condition.ofJson limit 1 j, [])
  | .apply => ((fun a => { d with apply := some a }) <$> Payload.ofJson j, [])
  | .other name => (.ok d, [skippedKey name])

theorem membersOfJson_eq (limit : Nat) (d : CaseDraft α) (ms : List (String × Json)) :
    membersOfJson limit d ms = readMembers (memberOfJson limit) d ms := by
  induction ms generalizing d with
  | nil => rfl
  | cons m rest ih =>
      obtain ⟨key, j⟩ := m
      rw [membersOfJson, readMembers, memberOfJson]
      cases CaseKey.ofName key with
      | when =>
          cases Condition.ofJson limit 1 j with
          | ok c => exact ih _
          | error fault => rfl
      | apply =>
          simp only
          cases (Payload.ofJson j : Except DataFault α) with
          | ok a => exact ih _
          | error fault => rfl
      | other name =>
          simp only [ih]
          rfl

theorem casesOfJson_eq (limit : Nat) (js : List Json) :
    casesOfJson limit js = (List.filterMap id <$> (readEach (caseOfJson (α := α) limit) js).1,
      (readEach (caseOfJson (α := α) limit) js).2) := by
  induction js with
  | nil => rfl
  | cons j rest ih =>
      rw [casesOfJson, readEach]
      rcases caseOfJson (α := α) limit j with ⟨fault | c, log⟩
      · rfl
      · simp only [ih]
        cases (readEach (caseOfJson (α := α) limit) rest).1 with
        | error fault => rfl
        | ok cs => cases c <;> rfl

theorem readsMember_scanMember (hpayload : Payload.ReadsJson α) (hroom : j.nesting ≤ room) (d : CaseDraft α)
    (key : String) : ReadsMember (scanMember limit room d key) j (memberOfJson limit d key j) := by
  rw [scanMember, memberOfJson]
  cases CaseKey.ofName key with
  | when => exact (Condition.readsAs_scan hroom).readsMember fun c => { d with condition := some c }
  | apply => exact (readsAs_payload (hpayload room j hroom)).readsMember fun a => { d with apply := some a }
  | other name =>
      intro w1 w2 s t l hw1 hw2 hj ht
      refine (Gives.report _ _).bind_ok ((gives_colon hw1).bind_ok ?_)
      exact (gives_skipValue hw2 hj.form ht).bind_ok (.pure _ _)

theorem caseOfJson_other (hkind : j.kind ≠ .object) :
    caseOfJson (α := α) limit j = (j.refused expectedCase, []) := by
  cases j with
  | object ms => exact absurd rfl hkind
  | _ => rfl

theorem readsAs_scanCase (hpayload : Payload.ReadsJson α) (hroom : j.nesting ≤ room) :
    ReadsAs (scanCase limit room : Scan (Option (Case α))) j (caseOfJson limit j) := by
  cases room with
  | zero =>
      refine readsAs_expectObject ?_ caseOfJson_other
      rintro ms rfl
      exact absurd hroom (Json.not_nesting_object_le_zero ms)
  | succ room =>
      refine readsAs_expectObject ?_ caseOfJson_other
      rintro ms rfl s t l hms
      have hinside := Json.nesting_object_le_iff.1 hroom
      have hmember : ∀ m ∈ ms, ∀ d : CaseDraft α,
          ReadsMember (scanMember limit room d m.1) m.2 (memberOfJson limit d m.1 m.2) :=
        fun m hm d => readsMember_scanMember hpayload (hinside m hm) d m.1
      have hmembers := gives_members (t := t) (l := l) hmember hms .empty
      refine gives_inObject ?_
      rw [caseOfJson, membersOfJson_eq]
      rcases hread : readMembers (memberOfJson limit) (.empty : CaseDraft α) ms with ⟨fault | d, log⟩ <;>
        rw [hread] at hmembers
      · exact hmembers.bind_error
      · refine hmembers.bind_ok ?_
        simp only [scanComplete]
        cases d.case? with
        | some c => exact .pure _ _
        | none =>
            rw [← List.append_assoc]
            exact (Gives.report _ _).bind_ok (.pure _ _)

theorem ofJson_other {limits : Limits} (hkind : j.kind ≠ .list) :
    ofJson (α := α) limits j = (j.refused expectedList, []) := by
  cases j with
  | list js => exact absurd rfl hkind
  | _ => rfl

/-- A multipart is read as it is taken from the JSON. -/
theorem readsAs_scan {limits : Limits} (hpayload : Payload.ReadsJson α) (hroom : j.nesting ≤ room) :
    ReadsAs (scan limits room : Scan (Multipart α)) j (ofJson limits j) := by
  cases room with
  | zero =>
      refine readsAs_expectList ?_ ofJson_other
      rintro js rfl
      exact absurd hroom (Json.not_nesting_list_le_zero js)
  | succ room =>
      refine readsAs_expectList ?_ ofJson_other
      rintro js rfl s t l hjs
      have hitem : ∀ j ∈ js, ReadsAs (scanCase limits.conditionDepth room) j
          (caseOfJson (α := α) limits.conditionDepth j) :=
        fun j hj => readsAs_scanCase hpayload (Json.nesting_list_le_iff.1 hroom j hj)
      have hitems := (gives_items (t := t) (l := l) hitem hjs).map fun cs => Multipart.mk (cs.filterMap id)
      refine gives_inList ?_
      rw [ofJson, casesOfJson_eq]
      cases hcs : (readEach (caseOfJson (α := α) limits.conditionDepth) js).1 <;> rw [hcs] at hitems <;>
        exact hitems

/-- A document gives a multipart exactly if its JSON does, and then the same one. -/
theorem parse_eq_ok_iff {limits : Limits} (hpayload : Payload.ReadsJson α) {octets : List UInt8}
    (hroom : j.nesting ≤ greatestNesting) (hspelled : j.SpelledBy octets) (m : Multipart α) :
    parse limits .document octets = .ok m ↔ (ofJson limits j).1 = .ok m := by
  have hreads : ReadsAs (scan limits greatestNesting) j (ofJson limits j) := readsAs_scan hpayload hroom
  rw [← document_eq_ok_iff hreads hspelled m]
  exact mapError_eq_ok_iff _

end BlockModel.Multipart
