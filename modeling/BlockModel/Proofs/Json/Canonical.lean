import BlockModel.Json.Decode
import BlockModel.Proofs.Json.Form

/-! The canonical form of a value in which no object has a key twice. Nothing is lost then: the members of every
object are put in another order, and that is all. What is taken from a value without going into its objects is
the same in either form. -/

namespace BlockModel.Json

/-- No object in the value has a key twice. -/
inductive DistinctKeys : Json → Prop where
  | null : DistinctKeys null
  | bool (b : Bool) : DistinctKeys (bool b)
  | number (n : JsonNumber) : DistinctKeys (number n)
  | str (s : String) : DistinctKeys (str s)
  | list {js : List Json} (hjs : ∀ j ∈ js, DistinctKeys j) : DistinctKeys (list js)
  | object {ms : List (String × Json)} (hkeys : (ms.map (·.1)).Nodup) (hms : ∀ m ∈ ms, DistinctKeys m.2) :
      DistinctKeys (object ms)

theorem DistinctKeys.item {js : List Json} (h : (Json.list js).DistinctKeys) : ∀ j ∈ js, j.DistinctKeys := by
  cases h with
  | list hjs => exact hjs

theorem DistinctKeys.member {ms : List (String × Json)} (h : (Json.object ms).DistinctKeys) :
    (ms.map (·.1)).Nodup ∧ ∀ m ∈ ms, m.2.DistinctKeys := by
  cases h with
  | object hkeys hms => exact ⟨hkeys, hms⟩

/-- A member with the canonical form of its value. -/
def canonicalMember (m : String × Json) : String × Json := (m.1, m.2.canonical)

theorem canonicalItems_eq_map (js : List Json) : canonicalItems js = js.map canonical := by
  induction js with
  | nil => rfl
  | cons j rest ih => rw [canonicalItems, List.map_cons, ih]

theorem canonicalMembers_eq_map (ms : List (String × Json)) : canonicalMembers ms = ms.map canonicalMember := by
  induction ms with
  | nil => rfl
  | cons m rest ih => rw [canonicalMembers, List.map_cons, ih, canonicalMember]

theorem canonical_list (js : List Json) : (list js).canonical = list (js.map canonical) := by
  rw [canonical, canonicalItems_eq_map]

/-- A member with a new key is put among the others. -/
theorem insertMember_perm {key : String} {ms : List (String × Json)} (hkey : key ∉ ms.map (·.1)) (j : Json) :
    (insertMember key j ms).Perm ((key, j) :: ms) := by
  induction ms with
  | nil => exact .refl _
  | cons m rest ih =>
      rw [List.map_cons, List.mem_cons, not_or] at hkey
      rw [insertMember, if_neg hkey.1]
      split
      · exact .refl _
      · exact ((ih hkey.2).cons m).trans (.swap _ _ _)

theorem foldl_insertMember_perm {sorted ms : List (String × Json)} (hkeys : ((ms ++ sorted).map (·.1)).Nodup) :
    (ms.foldl (fun sorted m => insertMember m.1 m.2 sorted) sorted).Perm (ms ++ sorted) := by
  induction ms generalizing sorted with
  | nil => exact .refl _
  | cons m rest ih =>
      have hnew : m.1 ∉ sorted.map (·.1) := by
        rw [List.cons_append, List.map_cons, List.nodup_cons, List.map_append, List.mem_append, not_or] at hkeys
        exact hkeys.1.2
      have hperm : (rest ++ insertMember m.1 m.2 sorted).Perm (m :: rest ++ sorted) :=
        ((insertMember_perm hnew m.2).append_left rest).trans List.perm_middle
      exact (ih ((hperm.map (·.1)).nodup_iff.2 hkeys)).trans hperm

/-- The members of an object in canonical form are the canonical forms of its members. -/
theorem exists_canonical_object {ms : List (String × Json)} (hkeys : (ms.map (·.1)).Nodup) :
    ∃ ms', (object ms).canonical = object ms' ∧ ms'.Perm (ms.map canonicalMember) := by
  refine ⟨_, by rw [canonical, canonicalMembers_eq_map], ?_⟩
  have hsame : (ms.map canonicalMember).map (·.1) = ms.map (·.1) := by
    rw [List.map_map]
    rfl
  have hdistinct : ((ms.map canonicalMember ++ ([] : List (String × Json))).map (·.1)).Nodup := by
    rwa [List.append_nil, hsame]
  have hperm := foldl_insertMember_perm hdistinct
  rwa [List.append_nil] at hperm

theorem kind_canonical (j : Json) : j.canonical.kind = j.kind := by cases j <;> rfl

theorem asString_canonical (j : Json) : j.canonical.asString = j.asString := by cases j <;> rfl

theorem asBool_canonical (j : Json) : j.canonical.asBool = j.asBool := by cases j <;> rfl

theorem asInt_canonical (range : IntRange) (j : Json) : j.canonical.asInt range = j.asInt range := by
  cases j <;> rfl

theorem asInt32_canonical (j : Json) : j.canonical.asInt32 = j.asInt32 := by
  rw [asInt32, asInt_canonical, asInt32]

theorem asUInt32_canonical (j : Json) : j.canonical.asUInt32 = j.asUInt32 := by
  rw [asUInt32, asInt_canonical, asUInt32]

end BlockModel.Json
