import BlockModel.Multipart.Json
import BlockModel.Proofs.Condition.Parsed

/-! How the readers of multiparts are put together, whatever their cases apply. The limit on the levels of condition
objects bounds the height of the condition of every case that is read. -/

namespace BlockModel

open Scan Condition

/-- The height that a limit leaves to the condition of a case: two nodes for each level, and one node for a case without
a condition. -/
def Multipart.greatestHeight (limit : Nat) : Nat := max 1 (2 * limit)

/-- Every case has a condition of sound tests, in a tree of at most such a height. -/
def Multipart.IsParsed {α : Type} (height : Nat) (m : Multipart α) : Prop :=
  ∀ c ∈ m.cases, c.condition.IsParsed height

theorem CaseKey.eq_of_ofName {key : String} (h : CaseKey.ofName key = .apply) : key = "apply" := by
  unfold CaseKey.ofName at h
  split at h
  · cases h
  · split at h
    · assumption
    · cases h

namespace CaseDraft

variable {α : Type} {height : Nat}

/-- The condition met so far, if there is one, is sound. -/
def IsParsed (height : Nat) (d : CaseDraft α) : Prop := ∀ c ∈ d.condition, c.IsParsed height

theorem isParsed_empty : (empty : CaseDraft α).IsParsed height := fun c hc => absurd hc (Option.not_mem_none c)

/-- A case without a condition always holds. -/
theorem IsParsed.when {d : CaseDraft α} (h : d.IsParsed height) (hheight : 1 ≤ height) : d.when.IsParsed height := by
  rw [CaseDraft.when]
  cases hcondition : d.condition with
  | none => exact .always hheight
  | some c => exact h c hcondition

end CaseDraft

namespace Multipart

variable {m : Means} {limit limit' : Nat} {unplaced : Bool} {α : Type} [Payload α]

theorem le_greatestHeight (limit : Nat) : 1 ≤ greatestHeight limit := Nat.le_max_left _ _

/-- The limit of a standard reader, and any that was raised to it, leaves room for a condition. -/
theorem greatestHeight_ofConditionDepth (requested : Nat) :
    greatestHeight (Limits.ofConditionDepth requested).conditionDepth = 2 * max requested leastConditionDepth := by
  have hleast : leastConditionDepth ≤ max requested leastConditionDepth := Nat.le_max_right _ _
  simp only [greatestHeight, Limits.ofConditionDepth, leastConditionDepth] at hleast ⊢
  omega

theorem isParsed_greatestHeight {c : Condition} (h : c.IsParsed (heightAt limit 1)) :
    c.IsParsed (greatestHeight limit) := h.mono (Nat.le_max_right _ _)

omit [Payload α] in
theorem reads_scanComplete {d : CaseDraft α} {refused : Bool} :
    Reads m limit (.done refused) (fun c? => d.IsParsed (greatestHeight limit) →
      ∀ c ∈ c?, c.condition.IsParsed (greatestHeight limit)) (scanComplete d) (scanComplete d) := by
  unfold scanComplete
  cases hcase : d.case? with
  | none => exact .report rfl _ (.pure _ fun _ c hc => absurd hc (Option.not_mem_none c))
  | some c =>
      refine .pure _ fun hd c' hc' => ?_
      obtain rfl := Option.some.inj hc'
      obtain ⟨a, -, rfl⟩ := Option.map_eq_some_iff.1 hcase
      exact hd.when (le_greatestHeight limit)

section

variable (hearly : m.early) (happly : ∀ room, m.applied (Payload.scan room : Scan α)) (hle : limit ≤ limit')
include hearly happly hle

theorem reads_scanMember (room : Nat) (d : CaseDraft α) (key : String) :
    Reads m limit (.member key)
      (fun d' => d.IsParsed (greatestHeight limit) → d'.IsParsed (greatestHeight limit))
      (scanMember limit room d key) (scanMember limit' room d key) := by
  unfold scanMember
  cases hkey : CaseKey.ofName key with
  | when =>
      refine .colon (.before (reads_scan_and_scanList hearly hle room 1).1 fun c => .pure false fun hc _ c' hc' => ?_)
      exact Option.some.inj hc' ▸ isParsed_greatestHeight hc
  | apply =>
      obtain rfl := CaseKey.eq_of_ofName hkey
      exact .apply (happly room) fun a => .pure false id
  | other name => exact .report rfl _ (.colon (.before (.skipValue true) fun _ => .pure false fun _ => id))

theorem reads_scanCase (room : Nat) :
    Reads m limit (.value unplaced) (fun c? => ∀ c ∈ c?, c.condition.IsParsed (greatestHeight limit))
      (scanCase limit room : Scan (Option (Case α))) (scanCase limit' room) := by
  have hplain : Failure.endsPlain expectedCase.toList = true := by decide +kernel
  cases room with
  | zero => exact .expectObject hplain fun b _ => .tooDeep b
  | succ room =>
      refine .expectObject hplain fun b hkind => .inObject hkind ?_
      exact .members CaseDraft.isParsed_empty (reads_scanMember hearly happly hle room) fun _ => reads_scanComplete

/-- What stands in the brackets of a multipart. -/
theorem reads_cases (room : Nat) :
    Reads m limit (.items true) (IsParsed (greatestHeight limit))
      (do let cs ← items (scanCase limit room); pure ⟨cs.filterMap id⟩ : Scan (Multipart α))
      (do let cs ← items (scanCase limit' room); pure ⟨cs.filterMap id⟩) := by
  refine .before (.items (reads_scanCase hearly happly hle room)) fun cs => .pure false fun hcs c hc => ?_
  obtain ⟨c?, hmem, hsome⟩ := List.mem_filterMap.1 hc
  exact hcs c? hmem c hsome

end

theorem reads_scan (hearly : m.early) (happly : ∀ room, m.applied (Payload.scan room : Scan α))
    {limits limits' : Limits} (hle : limits.conditionDepth ≤ limits'.conditionDepth) (room : Nat) :
    Reads m limits.conditionDepth (.value unplaced) (IsParsed (greatestHeight limits.conditionDepth))
      (scan limits room : Scan (Multipart α)) (scan limits' room) := by
  have hplain : Failure.endsPlain expectedList.toList = true := by decide +kernel
  cases room with
  | zero => exact .expectList hplain fun b _ => .tooDeep b
  | succ room => exact .expectList hplain fun b hkind => .inList hkind (reads_cases hearly happly hle room)

/-- The reader of a multipart, which holds whatever is known of the readers in its cases. -/
theorem reads (applied : {α : Type} → Scan α → Prop) (happly : ∀ room, applied (Payload.scan room : Scan α))
    (limits : Limits) (room : Nat) :
    Reads (.ofCases applied) limits.conditionDepth (.value false) (IsParsed (greatestHeight limits.conditionDepth))
      (scan limits room : Scan (Multipart α)) (scan limits room) :=
  reads_scan trivial happly (Nat.le_refl limits.conditionDepth) room

end Multipart

end BlockModel
