import BlockModel.Proofs.Multipart.Reading
import BlockModel.Proofs.Scan.Places

/-! Definitions come out of a text as they come out of the JSON that it spells, as an object with its sections
or as the list of the two. Only a list that is too long fails otherwise, as its text is refused before its
length is known. -/

namespace BlockModel

open Scan

namespace VariantTable

variable {room : Nat} {j : Json}

/-- The row of one member. -/
def rowOfJson (key : String) (j : Json) : Except DataFault (List VariantRow) :=
  (fun pool => [.ofKey key pool]) <$> VariantPool.ofJson j

theorem rowsOfJson_eq (ms : List (String × Json)) : rowsOfJson ms = gatherMembers rowOfJson ms := by
  induction ms with
  | nil => rfl
  | cons m rest ih =>
      obtain ⟨key, j⟩ := m
      rw [rowsOfJson, gatherMembers, rowOfJson, ih]
      cases VariantPool.ofJson j <;> rfl

theorem ofJson_other (hkind : j.kind ≠ .object) : ofJson j = j.refused expected := by
  cases j with
  | object ms => exact absurd rfl hkind
  | _ => rfl

theorem readsMember_scanMember (hroom : j.nesting ≤ room) (sofar : List VariantRow) (key : String) :
    ReadsMember (scanMember room sofar key) j ((fun rows => rows.reverse ++ sofar) <$> rowOfJson key j, []) := by
  rw [rowOfJson, ← comp_map]
  exact (VariantPool.readsAs_scan hroom).readsMember fun pool => .ofKey key pool :: sofar

theorem readsAs_scan (hroom : j.nesting ≤ room) : ReadsAs (scan room) j (ofJson j, []) := by
  cases room with
  | zero =>
      refine readsAs_expectObject ?_ fun hkind => by rw [ofJson_other hkind]
      rintro ms rfl
      exact absurd hroom (Json.not_nesting_object_le_zero ms)
  | succ room =>
      refine readsAs_expectObject ?_ fun hkind => by rw [ofJson_other hkind]
      rintro ms rfl s t l hms
      have hinside := Json.nesting_object_le_iff.1 hroom
      rw [List.append_nil, ofJson, rowsOfJson_eq]
      exact gives_inObject (gives_gathered VariantTable.mk (fun m hm sofar =>
        readsMember_scanMember (hinside m hm) sofar m.1) hms)

end VariantTable

namespace Definition

variable {room : Nat} {j : Json}

theorem asOptional_of_kind {α : Type} {f : Json → Except DataFault α} (hkind : j.kind ≠ .null) :
    Json.asOptional f j = some <$> f j := by
  cases j with
  | null => exact absurd rfl hkind
  | _ => rfl

theorem eq_null_of_kind (hkind : j.kind = .null) : j = .null := by
  cases j with
  | null => rfl
  | _ => cases hkind

theorem readsAs_scanVariants (hroom : j.nesting ≤ room) :
    ReadsAs (scanVariants room) j (variantsOfJson j, []) := by
  by_cases hkind : j.kind = .null
  · rw [eq_null_of_kind hkind]
    exact readsAs_optional_null _
  · rw [variantsOfJson, asOptional_of_kind hkind]
    exact readsAs_optional hkind (VariantTable.readsAs_scan hroom)

/-- What is reported while the section is read. -/
def multipartLog (j : Json) : List LogLine :=
  if j.kind = .null then [] else (Multipart.ofJson (α := VariantPool) .standard j).2

theorem readsAs_scanMultipart (hroom : j.nesting ≤ room) :
    ReadsAs (scanMultipart room) j (multipartOfJson j, multipartLog j) := by
  by_cases hkind : j.kind = .null
  · rw [eq_null_of_kind hkind]
    exact readsAs_optional_null _
  · rw [multipartOfJson, asOptional_of_kind hkind, multipartLog, if_neg hkind]
    exact readsAs_optional hkind (Multipart.readsAs_scan VariantPool.readsJson hroom)

def sectionRead (d : Draft) (j : Json) : Section → Except DataFault Draft × List LogLine
  | .variants => (sectionOfJson d j .variants, [])
  | .multipart => (sectionOfJson d j .multipart, multipartLog j)

theorem sectionRead_fst (d : Draft) (j : Json) (s : Section) : (sectionRead d j s).1 = sectionOfJson d j s := by
  cases s <;> rfl

theorem readsMember_scanSection (hroom : j.nesting ≤ room) (d : Draft) (s : Section) :
    ReadsMember (do colon; scanSection room d s) j (sectionRead d j s) := by
  cases s with
  | variants => exact (readsAs_scanVariants hroom).readsMember fun v => { d with variants := some v }
  | multipart => exact (readsAs_scanMultipart hroom).readsMember fun m => { d with multipart := some m }

def memberRead (d : Draft) (key : String) (j : Json) : Except DataFault Draft × List LogLine :=
  match Section.ofName? key with
  | none => (.ok d, [])
  | some s => if d.has s then (.error (.duplicateField s.name), []) else sectionRead d j s

theorem readMembers_fst (d : Draft) (ms : List (String × Json)) :
    (readMembers memberRead d ms).1 = membersOfJson d ms := by
  induction ms generalizing d with
  | nil => rfl
  | cons m rest ih =>
      obtain ⟨key, j⟩ := m
      rw [readMembers, membersOfJson, memberRead]
      cases Section.ofName? key with
      | none => exact ih d
      | some s =>
          by_cases hhas : d.has s = true
          · simp only [hhas, if_true]
          · simp only [hhas, ← sectionRead_fst]
            rcases sectionRead d j s with ⟨fault | d', log⟩
            · rfl
            · exact ih d'

theorem readsMember_scanMember (hroom : j.nesting ≤ room) (d : Draft) (key : String) :
    ReadsMember (scanMember room d key) j (memberRead d key j) := by
  rw [scanMember, memberRead]
  cases Section.ofName? key with
  | none => exact (readsAs_skipValue j).readsMember fun _ => d
  | some s =>
      by_cases hhas : d.has s = true
      · simp only [hhas, if_true]
        exact fun _ _ _ _ _ _ _ _ _ => .refuseData _ _
      · simp only [hhas]
        exact readsMember_scanSection hroom d s

theorem readsObject_scanMembers {ms : List (String × Json)} (hroom : ∀ m ∈ ms, m.2.nesting ≤ room) :
    ReadsObject (inObject (scanMembers room)) ms
      (Draft.complete <$> membersOfJson .empty ms, (readMembers memberRead .empty ms).2) := by
  intro s t l hms
  have hmembers := gives_members (t := t) (l := l)
    (fun m hm d => readsMember_scanMember (hroom m hm) d m.1) hms Draft.empty
  rw [readMembers_fst] at hmembers
  exact gives_inObject (hmembers.map Draft.complete)

theorem scanPlaces_eq (room : Nat) :
    scanPlaces room = pair (scanVariants room) (scanMultipart room) fun v m => ⟨v.join, m.join⟩ := rfl

theorem readPair_eq {js : List Json} (hlength : js.length ≤ 2) :
    (fun r => Definition.mk r.1.join r.2.join) <$>
      (readPair (fun j => (variantsOfJson j, [])) (fun j => (multipartOfJson j, multipartLog j)) js).1 =
        placesOfJson js := by
  rcases js with _ | ⟨j, _ | ⟨k, _ | ⟨_, _⟩⟩⟩
  · rfl
  · simp only [readPair, placesOfJson, List.getElem?_cons_zero, List.getElem?_cons_succ, List.getElem?_nil,
      Json.placeOr]
    cases variantsOfJson j <;> rfl
  · simp only [readPair, placesOfJson, List.getElem?_cons_zero, List.getElem?_cons_succ, Json.placeOr]
    cases variantsOfJson j with
    | error fault => rfl
    | ok v => cases multipartOfJson k <;> rfl
  · simp only [List.length_cons] at hlength
    omega

theorem ofJson_other (hlist : j.kind ≠ .list) (hobject : j.kind ≠ .object) :
    ofJson j = j.refused expected := by
  cases j with
  | object ms => exact absurd rfl hobject
  | list js => exact absurd rfl hlist
  | _ => rfl

theorem readsList_scanPlaces {js : List Json} (hroom : ∀ j ∈ js, j.nesting ≤ room) (hlength : js.length ≤ 2) :
    ∃ log, ReadsList (inPlaces (scanPlaces room)) js (placesOfJson js, log) := by
  rw [scanPlaces_eq, ← readPair_eq hlength]
  exact ⟨_, readsList_pair (fun j hj => readsAs_scanVariants (hroom j hj))
    (fun j hj => readsAs_scanMultipart (hroom j hj)) hlength _⟩

/-- All but lists that are too long are read as they are taken from the JSON. -/
theorem exists_readsAs_scan (hroom : j.nesting ≤ room) (hlength : ∀ js, j = .list js → js.length ≤ 2) :
    ∃ log, ReadsAs (scan room) j (ofJson j, log) := by
  cases room with
  | zero =>
      refine ⟨[], readsAs_expectRecord ?_ ?_ fun hlist hobject => by rw [ofJson_other hlist hobject]⟩
      · rintro js rfl
        exact absurd hroom (Json.not_nesting_list_le_zero js)
      · rintro ms rfl
        exact absurd hroom (Json.not_nesting_object_le_zero ms)
  | succ room =>
      rw [scan]
      cases j with
      | list js =>
          obtain ⟨log, hlist⟩ := readsList_scanPlaces (Json.nesting_list_le_iff.1 hroom) (hlength js rfl)
          refine ⟨log, readsAs_expectRecord ?_ (by simp) fun h => absurd rfl h⟩
          rintro _ ⟨⟩
          exact hlist
      | object ms =>
          refine ⟨(readMembers memberRead .empty ms).2, readsAs_expectRecord (by simp) ?_ fun _ h => absurd rfl h⟩
          rintro _ ⟨⟩
          exact readsObject_scanMembers (Json.nesting_object_le_iff.1 hroom)
      | _ => exact ⟨[], readsAs_expectRecord (by simp) (by simp) fun _ _ => rfl⟩

theorem fails_scan_of_long {js : List Json} (hroom : (Json.list js).nesting ≤ room) (hlength : 2 < js.length)
    {w s t : List UInt8} {l : List LogLine} (hw : Blanks w) (hj : Spells .exact (.value (.list js)) s) :
    Fails (scan room) ⟨w ++ (s ++ t), l⟩ := by
  cases room with
  | zero => exact absurd hroom (Json.not_nesting_list_le_zero js)
  | succ room =>
      have hinside := Json.nesting_list_le_iff.1 hroom
      cases hj with
      | list hjs =>
          refine (gives_valueStart hw (by decide)).bind_fails ?_
          exact fails_pair (fun j hj => readsAs_scanVariants (hinside j hj))
            (fun j hj => readsAs_scanMultipart (hinside j hj)) hlength hjs _

/-- A list is taken exactly if its first two items are and there are no others. -/
theorem placesOfJson_eq_ok_iff (js : List Json) (d : Definition) :
    placesOfJson js = .ok d ↔
      Json.placeOr variantsOfJson none js[0]? = .ok d.variants ∧
        Json.placeOr multipartOfJson none js[1]? = .ok d.multipart ∧ js.length ≤ 2 := by
  simp only [placesOfJson, bind_eq_ok_iff, pure_eq_ok_iff, noMorePlaces_eq_ok_iff]
  constructor
  · rintro ⟨variants, hvariants, multipart, hmultipart, -, hlength, rfl⟩
    exact ⟨hvariants, hmultipart, hlength⟩
  · rintro ⟨hvariants, hmultipart, hlength⟩
    exact ⟨_, hvariants, _, hmultipart, (), hlength, rfl⟩

/-- A document is read exactly if a definition can be taken from the JSON that it spells, and as that one. -/
theorem load_eq_ok_iff {octets : List UInt8} (hroom : j.nesting ≤ greatestNesting)
    (hspelled : j.SpelledBy octets) (d : Definition) : load octets = .ok d ↔ ofJson j = .ok d := by
  have hread : load octets = .ok d ↔ ((document (scan greatestNesting)).runOn .document octets).1 = .ok d :=
    mapError_eq_ok_iff _
  rw [hread]
  by_cases hlong : ∃ js, j = .list js ∧ 2 < js.length
  · obtain ⟨js, rfl, hlong⟩ := hlong
    obtain ⟨w, s, w', hw, hjs, -, rfl⟩ := hspelled
    have hfails : Fails (document (scan greatestNesting)) ⟨w ++ (s ++ w'), []⟩ :=
      (fails_scan_of_long hroom hlong hw hjs).bind _
    obtain ⟨e, c, hrun⟩ := hfails.runOn
    rw [hrun, ofJson]
    constructor
    · intro h
      cases h
    · intro h
      have hlength := ((placesOfJson_eq_ok_iff js d).1 h).2.2
      omega
  · have hlength : ∀ js, j = .list js → js.length ≤ 2 := fun js hj => by
      by_cases hle : js.length ≤ 2
      · exact hle
      · exact absurd ⟨js, hj, by omega⟩ hlong
    obtain ⟨log, hreads⟩ := exists_readsAs_scan hroom hlength
    exact document_eq_ok_iff hreads hspelled d

end Definition

end BlockModel
