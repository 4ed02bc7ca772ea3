import BlockModel.Condition.Json
import BlockModel.Proofs.Scan.Skip
import BlockModel.Proofs.Scan.Typed

/-! Conditions come out of a text as they come out of the JSON that it spells, level by level. -/

namespace BlockModel.Condition

open Scan

variable {limit room level : Nat} {j : Json}

/-- What one member of a condition object adds to the conjunction. -/
def memberOfJson (limit level : Nat) (key : String) (j : Json) : Except DataFault (List Condition) :=
  match Key.ofName key with
  | .comment => .ok []
  | .disjunction => (fun cs => [any cs]) <$> listOfJson limit (level + 1) j
  | .conjunction => (fun cs => [all cs]) <$> listOfJson limit (level + 1) j
  | .property name => (fun values => [test name values]) <$> valueOfJson j

theorem membersOfJson_eq (limit level : Nat) (ms : List (String × Json)) :
    membersOfJson limit level ms = gatherMembers (memberOfJson limit level) ms := by
  induction ms with
  | nil => rfl
  | cons m rest ih =>
      obtain ⟨key, j⟩ := m
      rw [membersOfJson, gatherMembers, memberOfJson, ih]
      cases Key.ofName key with
      | comment => cases gatherMembers (memberOfJson limit level) rest <;> rfl
      | disjunction => cases listOfJson limit (level + 1) j <;> rfl
      | conjunction => cases listOfJson limit (level + 1) j <;> rfl
      | property name => cases valueOfJson j <;> rfl

theorem itemsOfJson_eq (limit level : Nat) (js : List Json) :
    itemsOfJson limit level js = Json.each (ofJson limit level) js := by
  induction js with
  | nil => rfl
  | cons j rest ih => rw [itemsOfJson, Json.each, ih]

theorem readsAs_scanValueWith {onList onObject : Scan String}
    (hlist : ∀ js, j = .list js → ReadsList onList js (valueOfJson j, []))
    (hobject : ∀ ms, j = .object ms → ReadsObject onObject ms (valueOfJson j, [])) :
    ReadsAs (scanValueWith onList onObject) j (valueOfJson j, []) := by
  intro w s t l hw hj ht
  obtain ⟨b, r, hs, hb, hstart⟩ := gives_valueStart_value (t := t) (l := l) hw hj.form
  have hmismatch := gives_mismatch (α := String) (l := l) (hs ▸ hj) hb ht expectedValue ⟨t, l ++ []⟩
  rw [← hs] at hmismatch
  refine hstart.bind_ok ?_
  rw [hb]
  cases j with
  | null => exact hmismatch
  | number n => exact hmismatch
  | bool x =>
      rw [List.append_nil]
      cases hj with
      | bool x => exact (gives_boolWord x).bind_ok (.pure _ _)
  | str str =>
      rw [List.append_nil]
      cases hj with
      | str hstr => exact gives_quoted hstr
  | list js =>
      cases hj with
      | list hjs => exact hlist js rfl _ t l hjs
  | object ms =>
      cases hj with
      | object hms => exact hobject ms rfl _ t l hms

theorem readsAs_scanValue (hroom : j.nesting ≤ room) : ReadsAs (scanValue room) j (valueOfJson j, []) := by
  cases room with
  | zero =>
      refine readsAs_scanValueWith ?_ ?_ <;> rintro inside rfl
      · exact absurd hroom (Json.not_nesting_list_le_zero inside)
      · exact absurd hroom (Json.not_nesting_object_le_zero inside)
  | succ room =>
      refine readsAs_scanValueWith ?_ ?_
      · rintro js rfl
        exact readsList_refused js _ _
      · rintro ms rfl
        exact readsObject_refused ms _ _

theorem readsMember_scanMember {value : Scan String} {list : Scan (List Condition)}
    (hvalue : ReadsAs value j (valueOfJson j, []))
    (hlist : ReadsAs list j (listOfJson limit (level + 1) j, [])) (sofar : List Condition) (key : String) :
    ReadsMember (scanMember value list sofar key) j
      ((fun cs => cs.reverse ++ sofar) <$> memberOfJson limit level key j, []) := by
  rw [scanMember, memberOfJson]
  cases Key.ofName key with
  | comment => exact (readsAs_skipValue j).readsMember fun _ => sofar
  | disjunction =>
      rw [← comp_map]
      exact hlist.readsMember fun cs => any cs :: sofar
  | conjunction =>
      rw [← comp_map]
      exact hlist.readsMember fun cs => all cs :: sofar
  | property name =>
      rw [← comp_map]
      exact hvalue.readsMember fun values => test name values :: sofar

theorem ofJson_other (hkind : j.kind ≠ .object) : ofJson limit level j = j.refused expectedObject := by
  cases j with
  | object ms => exact absurd rfl hkind
  | _ => rfl

theorem listOfJson_other (hkind : j.kind ≠ .list) : listOfJson limit level j = j.refused expectedList := by
  cases j with
  | list js => exact absurd rfl hkind
  | _ => rfl

/-- A condition object with room for all that lies in it, if the lists in it have that. -/
theorem readsAs_scan_succ (hroom : j.nesting ≤ room + 1)
    (hlist : ∀ j : Json, j.nesting ≤ room →
      ReadsAs (scanList limit room (level + 1)) j (listOfJson limit (level + 1) j, [])) :
    ReadsAs (scan limit (room + 1) level) j (ofJson limit level j, []) := by
  rw [scan]
  refine readsAs_expectObject ?_ fun hkind => by rw [ofJson_other hkind]
  rintro ms rfl
  unfold ofJson
  by_cases hlevel : limit < level
  · rw [if_pos hlevel, if_pos hlevel]
    exact readsObject_refused ms _ _
  · rw [if_neg hlevel, if_neg hlevel, membersOfJson_eq]
    intro s t l hms
    have hinside := Json.nesting_object_le_iff.1 hroom
    rw [List.append_nil]
    exact gives_inObject (gives_gathered and (fun m hm sofar =>
      readsMember_scanMember (readsAs_scanValue (hinside m hm)) (hlist m.2 (hinside m hm)) sofar m.1) hms)

theorem readsAs_scanList_succ (hroom : j.nesting ≤ room + 1)
    (hitem : ∀ j : Json, j.nesting ≤ room → ReadsAs (scan limit room level) j (ofJson limit level j, [])) :
    ReadsAs (scanList limit (room + 1) level) j (listOfJson limit level j, []) := by
  unfold scanList
  refine readsAs_expectList ?_ fun hkind => by rw [listOfJson_other hkind]
  rintro js rfl
  have hitems := readsList_items (f := fun j => (ofJson limit level j, [])) fun j hj =>
    hitem j (Json.nesting_list_le_iff.1 hroom j hj)
  rw [readEach_silent] at hitems
  rw [listOfJson, itemsOfJson_eq]
  exact hitems

theorem readsAs_scan_and_scanList (limit room : Nat) :
    ∀ (level : Nat) (j : Json), j.nesting ≤ room →
      ReadsAs (scan limit room level) j (ofJson limit level j, []) ∧
        ReadsAs (scanList limit room level) j (listOfJson limit level j, []) := by
  induction room with
  | zero =>
      intro level j hroom
      constructor
      · unfold scan
        refine readsAs_expectObject ?_ fun hkind => by rw [ofJson_other hkind]
        rintro ms rfl
        exact absurd hroom (Json.not_nesting_object_le_zero ms)
      · unfold scanList
        refine readsAs_expectList ?_ fun hkind => by rw [listOfJson_other hkind]
        rintro js rfl
        exact absurd hroom (Json.not_nesting_list_le_zero js)
  | succ room ih =>
      intro level j hroom
      exact ⟨readsAs_scan_succ hroom fun j hj => (ih (level + 1) j hj).2,
        readsAs_scanList_succ hroom fun j hj => (ih level j hj).1⟩

/-- A condition is read as it is taken from the JSON. -/
theorem readsAs_scan (hroom : j.nesting ≤ room) :
    ReadsAs (scan limit room level) j (ofJson limit level j, []) :=
  (readsAs_scan_and_scanList limit room level j hroom).1

end BlockModel.Condition
