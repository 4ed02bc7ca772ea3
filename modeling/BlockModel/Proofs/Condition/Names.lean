import BlockModel.Condition.Basic
import BlockModel.Proofs.Properties

/-! The properties that a condition names. A test only asks a bag for its own name, and no connective turns a test
around, so a condition goes on to hold of every bag that keeps the values of the names in it. Both that bags may be
exchanged which agree on these names and that a block may be given more properties are cases of this. -/

namespace BlockModel.Condition

/-- Conditions are built from conditions that are already there. -/
theorem child_induction {motive : Condition → Prop} (all : ∀ cs, (∀ c ∈ cs, motive c) → motive (.all cs))
    (any : ∀ cs, (∀ c ∈ cs, motive c) → motive (.any cs))
    (property : ∀ name values, motive (.property name values)) (c : Condition) : motive c :=
  @Condition.rec motive (fun cs => ∀ c ∈ cs, motive c) all any property (List.forall_mem_nil motive)
    (fun _ _ hc hcs => List.forall_mem_cons.2 ⟨hc, hcs⟩) c

mutual
/-- The names of the properties that are tested somewhere in a condition. -/
def names : Condition → List String
  | .all children => namesOfList children
  | .any children => namesOfList children
  | .property name _ => [name]

def namesOfList : List Condition → List String
  | [] => []
  | c :: rest => names c ++ namesOfList rest
end

theorem namesOfList_eq_flatMap (cs : List Condition) : namesOfList cs = cs.flatMap names := by
  induction cs with
  | nil => rfl
  | cons c rest ih => rw [namesOfList, List.flatMap_cons, ih]

theorem forall_mem_namesOfList_iff {P : String → Prop} {cs : List Condition} :
    (∀ name ∈ namesOfList cs, P name) ↔ ∀ c ∈ cs, ∀ name ∈ c.names, P name := by
  simp only [namesOfList_eq_flatMap, List.mem_flatMap, forall_exists_index, and_imp]
  exact ⟨fun h c hc name hname => h name c hc hname, fun h name c hc hname => h c hc name hname⟩

section Bags

variable {β γ : Type} [PropertyBag β] [PropertyBag γ] {bag : β} {bag' : γ}

/-- What holds of a bag holds of every bag that keeps the values of the names in it. -/
theorem holds_of_kept (c : Condition)
    (hkept : ∀ name ∈ c.names, ∀ value, PropertyBag.value? bag name = some value →
      PropertyBag.value? bag' name = some value)
    (h : c.holds bag = true) : c.holds bag' = true := by
  induction c using child_induction with
  | all cs ih =>
      rw [names, forall_mem_namesOfList_iff] at hkept
      rw [holds, allHold_eq_all, List.all_eq_true] at h ⊢
      exact fun c hc => ih c hc (hkept c hc) (h c hc)
  | any cs ih =>
      rw [names, forall_mem_namesOfList_iff] at hkept
      rw [holds, anyHolds_eq_any, List.any_eq_true] at h ⊢
      obtain ⟨c, hc, h⟩ := h
      exact ⟨c, hc, ih c hc (hkept c hc) h⟩
  | property name values =>
      rw [names, List.forall_mem_singleton] at hkept
      rw [holds] at h ⊢
      cases hvalue : PropertyBag.value? bag name with
      | none =>
          rw [hvalue] at h
          cases h
      | some value =>
          rw [hvalue] at h
          rw [hkept value hvalue]
          exact h

/-- A condition cannot tell bags that agree on its names. -/
theorem holds_congr {c : Condition} (h : AgreeOn c.names bag bag') : c.holds bag = c.holds bag' := by
  rw [Bool.eq_iff_iff]
  constructor
  · exact c.holds_of_kept fun name hname value hvalue => (h name hname).symm.trans hvalue
  · exact c.holds_of_kept fun name hname value hvalue => (h name hname).trans hvalue

theorem holds_mono (h : Extends bag bag') {c : Condition} (hc : c.holds bag = true) : c.holds bag' = true :=
  c.holds_of_kept (fun name _ => h name) hc

end Bags

end BlockModel.Condition
