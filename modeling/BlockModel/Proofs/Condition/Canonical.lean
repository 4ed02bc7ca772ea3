import BlockModel.Proofs.Condition.Evaluation
import BlockModel.Proofs.Json.Canonical

/-! Condition objects in canonical form. The conditions in an object are put in another order, at every level;
whether it is a condition object does not depend on that, nor does what bags of properties it holds of. -/

namespace BlockModel.Condition

section Form

variable {limit level : Nat} {key : String} {j : Json}

theorem isObject_object_iff {ms : List (String × Json)} :
    IsObject limit level (.object ms) ↔ level ≤ limit ∧ ∀ m ∈ ms, IsMember limit level m.1 m.2 := by
  constructor
  · rintro ⟨hlevel, hms⟩
    exact ⟨hlevel, hms⟩
  · rintro ⟨hlevel, hms⟩
    exact .intro hlevel hms

theorem not_isObject_of_kind (hkind : j.kind ≠ .object) : ¬IsObject limit level j := by
  rintro ⟨-, -⟩
  exact hkind rfl

theorem valueOfJson_canonical (j : Json) : valueOfJson j.canonical = valueOfJson j := by cases j <;> rfl

/-- The list under a key that joins conditions, when the conditions in it are known. -/
theorem forall_isObject_canonical_iff
    (hitems : ∀ js, j = .list js → ∀ c ∈ js, (IsObject limit level c.canonical ↔ IsObject limit level c)) :
    (∃ js, j.canonical = .list js ∧ ∀ c ∈ js, IsObject limit level c) ↔
      ∃ js, j = .list js ∧ ∀ c ∈ js, IsObject limit level c := by
  by_cases hkind : j.kind = .list
  · cases j with
    | list js =>
        rw [Json.canonical_list]
        constructor
        · rintro ⟨_, hjs, h⟩
          obtain rfl := Json.list.inj hjs
          exact ⟨js, rfl, fun c hc => (hitems js rfl c hc).1 (h _ (List.mem_map_of_mem hc))⟩
        · rintro ⟨_, hjs, h⟩
          obtain rfl := Json.list.inj hjs
          refine ⟨_, rfl, List.forall_mem_map.2 fun c hc => (hitems js rfl c hc).2 (h c hc)⟩
    | _ => cases hkind
  · constructor
    · rintro ⟨js, hjs, -⟩
      exact absurd (j.kind_canonical.symm.trans (congrArg Json.kind hjs)) hkind
    · rintro ⟨js, rfl, -⟩
      exact absurd rfl hkind

theorem isMember_canonical_iff
    (hitems : ∀ js, j = .list js → ∀ c ∈ js, (IsObject limit (level + 1) c.canonical ↔ IsObject limit (level + 1) c)) :
    IsMember limit level key j.canonical ↔ IsMember limit level key j := by
  by_cases hkey : key ∈ reservedKeys
  · simp only [reservedKeys, List.mem_cons, List.not_mem_nil, or_false] at hkey
    rcases hkey with rfl | rfl | rfl
    · rw [isMember_junction_iff (.inl rfl), isMember_junction_iff (.inl rfl), forall_isObject_canonical_iff hitems]
    · rw [isMember_junction_iff (.inr rfl), isMember_junction_iff (.inr rfl), forall_isObject_canonical_iff hitems]
    · exact ⟨fun _ => .comment j, fun _ => .comment j.canonical⟩
  · rw [isMember_property_iff hkey, isMember_property_iff hkey, valueOfJson_canonical]

/-- A value without repeated keys is a condition object exactly if its canonical form is one. -/
theorem isObject_canonical_iff (h : j.DistinctKeys) :
    IsObject limit level j.canonical ↔ IsObject limit level j := by
  induction j using item_induction generalizing level with
  | h j ih =>
  by_cases hkind : j.kind = .object
  · cases j with
    | object ms =>
        obtain ⟨hkeys, hms⟩ := h.member
        obtain ⟨ms', hcanonical, hperm⟩ := Json.exists_canonical_object hkeys
        have hmember : ∀ m ∈ ms, (IsMember limit level m.1 m.2.canonical ↔ IsMember limit level m.1 m.2) :=
          fun m hm => isMember_canonical_iff fun js hjs c hc =>
            ih ms rfl m hm js hjs c hc ((hjs ▸ hms m hm).item c hc)
        rw [hcanonical, isObject_object_iff, isObject_object_iff]
        refine and_congr_right fun _ => ?_
        simp only [hperm.mem_iff, List.forall_mem_map]
        exact forall₂_congr hmember
    | _ => cases hkind
  · have hkind' : j.canonical.kind ≠ .object := by rwa [j.kind_canonical]
    exact iff_of_false (not_isObject_of_kind hkind') (not_isObject_of_kind hkind)

end Form

section Truth

variable {β : Type} [PropertyBag β] (bag : β) {key : String} {j : Json}

theorem membersHold_eq_all (ms : List (String × Json)) :
    membersHold bag ms = ms.all fun m => membersHold bag [m] := by
  induction ms with
  | nil => rfl
  | cons m rest ih =>
      rw [List.all_cons, ← ih]
      simp only [membersHold, Bool.and_true]
      split
      · rw [Bool.true_and]
      · split
        · rfl
        · split <;> rfl

theorem propertyValues_canonical (j : Json) : propertyValues j.canonical = propertyValues j := by
  cases j <;> rfl

theorem someHolds_canonical
    (hitems : ∀ js, j = .list js → ∀ c ∈ js, objectHolds bag c.canonical = objectHolds bag c) :
    someHolds bag j.canonical = someHolds bag j := by
  cases j with
  | list js =>
      rw [Json.canonical_list, someHolds, someHolds, someItemHolds_eq_any, someItemHolds_eq_any, List.any_map]
      exact any_congr_mem (hitems js rfl)
  | _ => rfl

theorem everyHolds_canonical
    (hitems : ∀ js, j = .list js → ∀ c ∈ js, objectHolds bag c.canonical = objectHolds bag c) :
    everyHolds bag j.canonical = everyHolds bag j := by
  cases j with
  | list js =>
      rw [Json.canonical_list, everyHolds, everyHolds, everyItemHolds_eq_all, everyItemHolds_eq_all, List.all_map]
      exact all_congr_mem (hitems js rfl)
  | _ => rfl

theorem memberHolds_canonical
    (hitems : ∀ js, j = .list js → ∀ c ∈ js, objectHolds bag c.canonical = objectHolds bag c) :
    membersHold bag [(key, j.canonical)] = membersHold bag [(key, j)] := by
  simp only [membersHold, someHolds_canonical bag hitems, everyHolds_canonical bag hitems,
    propertyValues_canonical]

/-- A value without repeated keys holds of the same bags in its canonical form. -/
theorem objectHolds_canonical (h : j.DistinctKeys) : objectHolds bag j.canonical = objectHolds bag j := by
  induction j using item_induction with
  | h j ih =>
  cases j with
  | object ms =>
      obtain ⟨hkeys, hms⟩ := h.member
      obtain ⟨ms', hcanonical, hperm⟩ := Json.exists_canonical_object hkeys
      rw [hcanonical, objectHolds, objectHolds, membersHold_eq_all, membersHold_eq_all, hperm.all_eq, List.all_map]
      refine all_congr_mem fun m hm => ?_
      exact memberHolds_canonical bag fun js hjs c hc => ih ms rfl m hm js hjs c hc ((hjs ▸ hms m hm).item c hc)
  | _ => rfl

end Truth

end BlockModel.Condition
