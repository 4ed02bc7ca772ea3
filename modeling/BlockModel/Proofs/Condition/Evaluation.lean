import BlockModel.Condition.Display
import BlockModel.Proofs.Condition.Denotation

/-! Conditions evaluated where they stand. A condition object and a variant key can be evaluated for a bag of
properties as they are written, without the condition that is made of them; both ways agree. -/

namespace BlockModel.Condition

variable {β : Type} [PropertyBag β] (bag : β)

/-- Whether a property is present and has one of the values. -/
def isAmong (name : String) (values : List String) : Bool :=
  match PropertyBag.value? bag name with
  | some value => values.contains value
  | none => false

mutual
/-- Whether a condition object holds: all of its members do. -/
def objectHolds : Json → Bool
  | .object ms => membersHold ms
  | _ => true

/-- Comments do not count. -/
def membersHold : List (String × Json) → Bool
  | [] => true
  | (key, j) :: rest =>
    if key = "__comment" then membersHold rest
    else if key = "OR" then someHolds j && membersHold rest
    else if key = "AND" then everyHolds j && membersHold rest
    else isAmong bag key (propertyValues j) && membersHold rest

/-- Whether some item of a list of condition objects holds. -/
def someHolds : Json → Bool
  | .list js => someItemHolds js
  | _ => false

def someItemHolds : List Json → Bool
  | [] => false
  | j :: rest => objectHolds j || someItemHolds rest

/-- Whether every item of a list of condition objects holds. -/
def everyHolds : Json → Bool
  | .list js => everyItemHolds js
  | _ => true

def everyItemHolds : List Json → Bool
  | [] => true
  | j :: rest => objectHolds j && everyItemHolds rest
end

/-- Whether a segment of a variant key holds: the property in front of its first equals sign has one of the
values behind it. A segment without an equals sign says nothing. -/
def segmentHolds (segment : List Char) : Bool :=
  if '=' ∈ segment then
    isAmong bag (String.ofList (Text.trim (segment.takeWhile (· != '='))))
      (((Text.trim (segment.dropWhile (· != '=')).tail).splitOn '|').map String.ofList)
  else true

/-- Whether a variant key holds: all its segments do. -/
def keyHolds (key : String) : Bool := (key.toList.splitOn ',').all (segmentHolds bag)

theorem holds_property (name : String) (values : List String) :
    (property name values).holds bag = isAmong bag name values := rfl

theorem holds_conjunction (cs : List Condition) : (conjunction cs).holds bag = cs.all (holds bag) := by
  rcases cs with _ | ⟨c, _ | ⟨d, rest⟩⟩
  · rfl
  · simp [conjunction]
  · rw [← allHold_eq_all]
    rfl

theorem someItemHolds_eq_any (js : List Json) : someItemHolds bag js = js.any (objectHolds bag) := by
  induction js with
  | nil => rfl
  | cons j rest ih => rw [someItemHolds, List.any_cons, ih]

theorem everyItemHolds_eq_all (js : List Json) : everyItemHolds bag js = js.all (objectHolds bag) := by
  induction js with
  | nil => rfl
  | cons j rest ih => rw [everyItemHolds, List.all_cons, ih]

theorem any_congr_mem {α : Type} {as : List α} {p q : α → Bool} (h : ∀ a ∈ as, p a = q a) : as.any p = as.any q := by
  induction as with
  | nil => rfl
  | cons a rest ih =>
      rw [List.any_cons, List.any_cons, h a List.mem_cons_self, ih fun a ha => h a (List.mem_cons_of_mem _ ha)]

theorem all_congr_mem {α : Type} {as : List α} {p q : α → Bool} (h : ∀ a ∈ as, p a = q a) : as.all p = as.all q := by
  induction as with
  | nil => rfl
  | cons a rest ih =>
      rw [List.all_cons, List.all_cons, h a List.mem_cons_self, ih fun a ha => h a (List.mem_cons_of_mem _ ha)]

theorem holds_any_meanings {j : Json}
    (hitems : ∀ js, j = .list js → ∀ c ∈ js, (meaning c).holds bag = objectHolds bag c) :
    (any (meanings j)).holds bag = someHolds bag j := by
  cases j with
  | list js =>
      rw [meanings, meaningsOfItems_eq_map, holds, anyHolds_eq_any, someHolds, someItemHolds_eq_any, List.any_map]
      exact any_congr_mem (hitems js rfl)
  | _ => rfl

theorem holds_all_meanings {j : Json}
    (hitems : ∀ js, j = .list js → ∀ c ∈ js, (meaning c).holds bag = objectHolds bag c) :
    (all (meanings j)).holds bag = everyHolds bag j := by
  cases j with
  | list js =>
      rw [meanings, meaningsOfItems_eq_map, holds, allHold_eq_all, everyHolds, everyItemHolds_eq_all, List.all_map]
      exact all_congr_mem (hitems js rfl)
  | _ => rfl

/-- Members hold exactly if what they mean does, when this is known of the conditions inside. -/
theorem all_conjuncts {ms : List (String × Json)}
    (hitems : ∀ m ∈ ms, ∀ js, m.2 = .list js → ∀ c ∈ js, (meaning c).holds bag = objectHolds bag c) :
    (conjuncts ms).all (holds bag) = membersHold bag ms := by
  induction ms with
  | nil => rfl
  | cons m rest ih =>
      obtain ⟨key, j⟩ := m
      have hj := hitems (key, j) List.mem_cons_self
      rw [conjuncts, membersHold, ← ih fun m hm => hitems m (List.mem_cons_of_mem _ hm)]
      split
      · rfl
      · split
        · rw [List.all_cons, holds_any_meanings bag hj]
        · split
          · rw [List.all_cons, holds_all_meanings bag hj]
          · rw [List.all_cons, holds_property]

theorem holds_meaning (j : Json) : (meaning j).holds bag = objectHolds bag j := by
  induction j using item_induction with
  | h j ih =>
  cases j with
  | object ms => rw [meaning, objectHolds, holds_conjunction, all_conjuncts bag (ih ms rfl)]
  | _ => rfl

theorem cut_eq (sep : Char) (s : List Char) :
    Text.cut sep s =
      if sep ∈ s then some (s.takeWhile (· != sep), (s.dropWhile (· != sep)).tail) else none := by
  induction s with
  | nil => rfl
  | cons c rest ih =>
      rw [Text.cut, ih]
      by_cases hc : c = sep
      · simp [hc]
      · by_cases hmem : sep ∈ rest
        · simp [hc, hmem]
        · simp [hc, hmem, Ne.symm hc]

theorem all_ofSegment? (segment : List Char) :
    (ofSegment? segment).all (holds bag) = segmentHolds bag segment := by
  rw [ofSegment?, cut_eq, segmentHolds]
  by_cases hmem : '=' ∈ segment
  · rw [if_pos hmem, if_pos hmem, Option.map_some, Option.all_some, test, holds_property, alternatives,
      pieces_eq_splitOn, String.toList_ofList]
  · rw [if_neg hmem, if_neg hmem]
    rfl

theorem holds_ofKey (key : String) : (ofKey key).holds bag = keyHolds bag key := by
  rw [ofKey, and_eq_conjunction, holds_conjunction, List.all_filterMap, pieces_eq_splitOn, keyHolds]
  congr 1
  funext segment
  rw [← all_ofSegment?]
  cases ofSegment? segment <;> rfl

end BlockModel.Condition
