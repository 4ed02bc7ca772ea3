import BlockModel.Proofs.Condition.Denotation
import BlockModel.Proofs.Json.Writing

/-! Conditions as condition objects. Every node of a condition is written as an object of one member, so that
the conjunction which the object stands for collapses to the node itself; a genuine conjunction or
disjunction of one child is kept, as it is a member of its own. Each node is one level of the objects, and
at most two brackets. -/

namespace BlockModel.Condition

open Text Json.Written

/-- Conditions that can be written: no test is without values, and no name or value says something else. -/
inductive IsWritable : Condition → Prop where
  | all {cs : List Condition} (hcs : ∀ c ∈ cs, IsWritable c) : IsWritable (.all cs)
  | any {cs : List Condition} (hcs : ∀ c ∈ cs, IsWritable c) : IsWritable (.any cs)
  | property {name : String} {values : List String} (hname : name ∉ reservedKeys) (hne : values ≠ [])
      (hbar : ∀ v ∈ values, '|' ∉ v.toList) : IsWritable (.property name values)

mutual
/-- How many levels of objects a condition needs. -/
def depth : Condition → Nat
  | .all cs => depthOfList cs + 1
  | .any cs => depthOfList cs + 1
  | .property _ _ => 1

def depthOfList : List Condition → Nat
  | [] => 0
  | c :: rest => max c.depth (depthOfList rest)
end

/-- The values of a test in one text. -/
def joinedValues (values : List String) : String := String.ofList (['|'].intercalate (values.map String.toList))

mutual
/-- The object that a condition is written as. -/
def json : Condition → Json
  | .all cs => .object [("AND", .list (jsonOfList cs))]
  | .any cs => .object [("OR", .list (jsonOfList cs))]
  | .property name values => .object [(name, .str (joinedValues values))]

def jsonOfList : List Condition → List Json
  | [] => []
  | c :: rest => c.json :: jsonOfList rest
end

mutual
/-- The text that a condition is written as. -/
def written : Condition → List Char
  | .all cs => object [("AND", list (writtenOfList cs))]
  | .any cs => object [("OR", list (writtenOfList cs))]
  | .property name values => object [(name, string (joinedValues values))]

def writtenOfList : List Condition → List (List Char)
  | [] => []
  | c :: rest => c.written :: writtenOfList rest
end

theorem depthOfList_le_iff {cs : List Condition} {n : Nat} : depthOfList cs ≤ n ↔ ∀ c ∈ cs, c.depth ≤ n := by
  induction cs with
  | nil => simp [depthOfList]
  | cons c rest ih => rw [depthOfList, Nat.max_le, ih, List.forall_mem_cons]

theorem jsonOfList_eq_map (cs : List Condition) : jsonOfList cs = cs.map json := by
  induction cs with
  | nil => rfl
  | cons c rest ih => rw [jsonOfList, List.map_cons, ih]

theorem writtenOfList_eq_map (cs : List Condition) : writtenOfList cs = cs.map written := by
  induction cs with
  | nil => rfl
  | cons c rest ih => rw [writtenOfList, List.map_cons, ih]

/-- An object with one member. -/
theorem spells_singleton (key : String) {j : Json} {text : List Char}
    (h : Spells .exact (.value j) (Utf8.encode text)) :
    Spells .exact (.value (.object [(key, j)])) (Utf8.encode (object [(key, text)])) := by
  have hmember : ∀ m ∈ [(key, j, text)], Spells .exact (.value m.2.1) (Utf8.encode m.2.2) :=
    List.forall_mem_singleton.2 h
  exact spells_object hmember

theorem spells_written {c : Condition} (h : IsWritable c) :
    Spells .exact (.value c.json) (Utf8.encode c.written) := by
  induction h with
  | all _ ih =>
      rw [json, written, jsonOfList_eq_map, writtenOfList_eq_map]
      exact spells_singleton "AND" (spells_list ih)
  | any _ ih =>
      rw [json, written, jsonOfList_eq_map, writtenOfList_eq_map]
      exact spells_singleton "OR" (spells_list ih)
  | property _ _ _ =>
      rw [json, written]
      exact spells_singleton _ (.str (spells_string _))

/-- The values are found again between the `|`. -/
theorem propertyValues_joinedValues {values : List String} (hne : values ≠ [])
    (hbar : ∀ v ∈ values, '|' ∉ v.toList) : propertyValues (.str (joinedValues values)) = values := by
  have hsplit : (['|'].intercalate (values.map String.toList)).splitOn '|' = values.map String.toList := by
    refine List.splitOn_intercalate '|' ?_ (by simpa using hne)
    intro l hl
    obtain ⟨v, hv, rfl⟩ := List.mem_map.1 hl
    exact hbar v hv
  rw [propertyValues, joinedValues, String.toList_ofList, hsplit, List.map_map]
  simp

theorem meanings_map_json {cs : List Condition} (h : ∀ c ∈ cs, meaning c.json = c) :
    meanings (.list (cs.map json)) = cs :=
  calc meanings (.list (cs.map json))
      = cs.map fun c => meaning c.json := by rw [meanings, meaningsOfItems_eq_map, List.map_map]; rfl
    _ = cs.map id := List.map_congr_left h
    _ = cs := List.map_id cs

theorem meaning_json {c : Condition} (h : IsWritable c) : meaning c.json = c := by
  induction h with
  | all _ ih =>
      rw [json, jsonOfList_eq_map, meaning, ← conjunct, conjunct_and, meanings_map_json ih]
      rfl
  | any _ ih =>
      rw [json, jsonOfList_eq_map, meaning, ← conjunct, conjunct_or, meanings_map_json ih]
      rfl
  | property hname hne hbar =>
      rw [json, meaning, ← conjunct, conjunct_property hname, propertyValues_joinedValues hne hbar]
      rfl

/-- What holds of the object of every child holds of the items that they are written as. -/
theorem forall_mem_map_json {cs : List Condition} {P : Json → Prop} (h : ∀ c ∈ cs, P c.json) :
    ∀ j ∈ cs.map json, P j := by
  intro j hj
  obtain ⟨c, hc, rfl⟩ := List.mem_map.1 hj
  exact h c hc

theorem depth_le_depthOfList {cs : List Condition} {c : Condition} (hc : c ∈ cs) : c.depth ≤ depthOfList cs :=
  depthOfList_le_iff.1 (Nat.le_refl (depthOfList cs)) c hc

/-- The items fit the next level if every one does that is no deeper than they all are. -/
theorem isObject_map_json {cs : List Condition} {limit level : Nat}
    (hdepth : depthOfList cs + 1 + level ≤ limit + 1)
    (h : ∀ c ∈ cs, c.depth + (level + 1) ≤ limit + 1 → IsObject limit (level + 1) c.json) :
    ∀ j ∈ cs.map json, IsObject limit (level + 1) j := by
  refine forall_mem_map_json fun c hc => h c hc ?_
  have hchild := depth_le_depthOfList hc
  omega

theorem isObject_json {c : Condition} (h : IsWritable c) {limit level : Nat}
    (hdepth : c.depth + level ≤ limit + 1) : IsObject limit level c.json := by
  induction h generalizing level with
  | all _ ih =>
      rw [depth] at hdepth
      rw [json, jsonOfList_eq_map]
      have hitems := isObject_map_json hdepth fun c hc => ih c hc
      exact .intro (by omega) (List.forall_mem_singleton.2 (.conjunction hitems))
  | any _ ih =>
      rw [depth] at hdepth
      rw [json, jsonOfList_eq_map]
      have hitems := isObject_map_json hdepth fun c hc => ih c hc
      exact .intro (by omega) (List.forall_mem_singleton.2 (.disjunction hitems))
  | property hname _ _ =>
      rw [depth] at hdepth
      exact .intro (by omega) (List.forall_mem_singleton.2 (.text hname _))

theorem nesting_singleton_le {key : String} {j : Json} {n : Nat} (h : j.nesting ≤ n) :
    (Json.object [(key, j)]).nesting ≤ n + 1 :=
  Json.nesting_object_le_iff.2 (List.forall_mem_singleton.2 h)

theorem nesting_map_json_le {cs : List Condition} (h : ∀ c ∈ cs, c.json.nesting ≤ 2 * c.depth) :
    (Json.list (cs.map json)).nesting ≤ 2 * depthOfList cs + 1 := by
  refine Json.nesting_list_le_iff.2 (forall_mem_map_json fun c hc => ?_)
  calc c.json.nesting
      ≤ 2 * c.depth := h c hc
    _ ≤ 2 * depthOfList cs := Nat.mul_le_mul_left 2 (depth_le_depthOfList hc)

/-- The brackets of an object and of the list in it. -/
theorem nesting_json_le {c : Condition} (h : IsWritable c) : c.json.nesting ≤ 2 * c.depth := by
  induction h with
  | all _ ih =>
      rw [json, jsonOfList_eq_map, depth]
      exact nesting_singleton_le (nesting_map_json_le ih)
  | any _ ih =>
      rw [json, jsonOfList_eq_map, depth]
      exact nesting_singleton_le (nesting_map_json_le ih)
  | property _ _ _ =>
      rw [json, depth]
      exact nesting_singleton_le (Nat.zero_le 1)

end BlockModel.Condition
