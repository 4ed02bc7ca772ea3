import BlockModel.Documents
import BlockModel.Proofs.Condition.Key
import BlockModel.Proofs.Multipart.Readers
import BlockModel.Proofs.Payload

/-! How the readers of definitions and of tables of variants are put together. The conditions of rows are what their
keys are short for, and those of cases are the ones of a multipart. -/

namespace BlockModel

open Scan

variable {m : Means} {unplaced : Bool}

namespace VariantTable

/-- Every row has a condition that a key can be short for. -/
def IsParsed (t : VariantTable) : Prop := ∀ row ∈ t.rows, row.condition.IsKeyCondition

theorem isParsed_cons {key : String} {pool : VariantPool} {rows : List VariantRow}
    (h : ∀ row ∈ rows, row.condition.IsKeyCondition) :
    ∀ row ∈ .ofKey key pool :: rows, row.condition.IsKeyCondition :=
  List.forall_mem_cons.2 ⟨Condition.isKeyCondition_ofKey key, h⟩

variable {limit : Nat}

theorem reads_scanMember (room : Nat) (sofar : List VariantRow) (key : String) :
    Reads m limit (.member key) (fun rows => (∀ row ∈ sofar, row.condition.IsKeyCondition) →
      ∀ row ∈ rows, row.condition.IsKeyCondition) (scanMember room sofar key) (scanMember room sofar key) :=
  .colon (.before (VariantPool.reads_scan room) fun _ => .pure false fun _ => isParsed_cons)

theorem reads_scan (room : Nat) : Reads m limit (.value unplaced) IsParsed (scan room) (scan room) := by
  have hplain : Failure.endsPlain expected.toList = true := by decide +kernel
  cases room with
  | zero => exact .expectObject hplain fun b _ => .tooDeep b
  | succ room =>
      refine .expectObject hplain fun b hkind => .inObject hkind ?_
      refine .members (List.forall_mem_nil _) (reads_scanMember room) fun reversed => .pure true fun hreversed => ?_
      exact fun row hrow => hreversed row (List.mem_reverse.1 hrow)

end VariantTable

namespace Definition

/-- What is known of the sections of a definition that was read. -/
structure IsParsed (d : Definition) : Prop where
  variants : ∀ t ∈ d.variants, t.IsParsed
  multipart : ∀ m ∈ d.multipart, m.IsParsed (2 * leastConditionDepth)

/-- What is known of the sections met so far. -/
structure Draft.IsParsed (d : Draft) : Prop where
  variants : ∀ t? ∈ d.variants, ∀ t ∈ t?, t.IsParsed
  multipart : ∀ m? ∈ d.multipart, ∀ m ∈ m?, m.IsParsed (2 * leastConditionDepth)

theorem Draft.isParsed_empty : Draft.empty.IsParsed :=
  ⟨fun _ h => absurd h (Option.not_mem_none _), fun _ h => absurd h (Option.not_mem_none _)⟩

theorem forall_mem_join {α : Type} {P : α → Prop} {a?? : Option (Option α)} (h : ∀ a? ∈ a??, ∀ a ∈ a?, P a) :
    ∀ a ∈ a??.join, P a :=
  fun a ha => h _ (Option.join_eq_some_iff.1 ha) a rfl

theorem Draft.IsParsed.complete {d : Draft} (h : d.IsParsed) : d.complete.IsParsed :=
  ⟨forall_mem_join h.variants, forall_mem_join h.multipart⟩

theorem reads_scanVariants {limit : Nat} (room : Nat) :
    Reads m limit (.value unplaced) (fun t? => ∀ t ∈ t?, t.IsParsed) (scanVariants room) (scanVariants room) :=
  .optional (VariantTable.reads_scan room)

section

variable (hearly : m.early) (happly : ∀ room, m.applied (VariantPool.scan room))
include hearly happly

theorem reads_scanMultipart (room : Nat) :
    Reads m leastConditionDepth (.value unplaced) (fun m? => ∀ m ∈ m?, m.IsParsed (2 * leastConditionDepth))
      (scanMultipart room) (scanMultipart room) :=
  have hle : Limits.standard.conditionDepth ≤ Limits.standard.conditionDepth := Nat.le_refl _
  .optional (Multipart.reads_scan hearly happly hle room)

theorem reads_scanSection (room : Nat) (d : Draft) (s : Section) :
    Reads m leastConditionDepth (.value true) (fun d' => d.IsParsed → d'.IsParsed) (scanSection room d s)
      (scanSection room d s) := by
  cases s with
  | variants =>
      refine .before (reads_scanVariants room) fun t? => .pure false fun ht? hd => ⟨fun t?' h => ?_, hd.multipart⟩
      exact Option.some.inj h ▸ ht?
  | multipart =>
      refine .before (reads_scanMultipart hearly happly room) fun m? => .pure false fun hm? hd => ?_
      refine ⟨hd.variants, fun m?' h => ?_⟩
      exact Option.some.inj h ▸ hm?

theorem reads_scanMember (room : Nat) (d : Draft) (key : String) :
    Reads m leastConditionDepth (.member key) (fun d' => d.IsParsed → d'.IsParsed) (scanMember room d key)
      (scanMember room d key) := by
  unfold scanMember
  cases Section.ofName? key with
  | none => exact .colon (.before (.skipValue true) fun _ => .pure false fun _ => id)
  | some s => exact .ite (.refuse rfl nofun rfl rfl) (.colon (reads_scanSection hearly happly room d s))

theorem reads_scanMembers (room : Nat) :
    Reads m leastConditionDepth .members IsParsed (scanMembers room) (scanMembers room) :=
  .members Draft.isParsed_empty (reads_scanMember hearly happly room) fun _ => .pure true fun hd => hd.complete

theorem reads_scanPlaces (hplaces : m.places) (room : Nat) :
    Reads m leastConditionDepth (.items true) IsParsed (scanPlaces room) (scanPlaces room) := by
  refine .place hplaces (reads_scanVariants room) fun t?? => ?_
  refine .place hplaces (reads_scanMultipart hearly happly room) fun m?? => .lastPlace hplaces fun hm?? ht?? => ?_
  exact ⟨forall_mem_join ht??, forall_mem_join hm??⟩

theorem reads_scan (hplaces : m.places) (room : Nat) :
    Reads m leastConditionDepth (.value unplaced) IsParsed (scan room) (scan room) := by
  have hplain : Failure.endsPlain expected.toList = true := by decide +kernel
  cases room with
  | zero => exact .expectRecord hplain (fun b _ => .tooDeep b) fun b _ => .tooDeep b
  | succ room =>
      exact .expectRecord hplain
        (fun b hkind => .inPlaces hplaces hkind (reads_scanPlaces hearly happly hplaces room)) fun b hkind =>
          .inObject hkind (reads_scanMembers hearly happly room)

end

theorem reads (applied : {α : Type} → Scan α → Prop) (happly : ∀ room, applied (VariantPool.scan room)) (room : Nat) :
    Reads (.ofDefinition applied) leastConditionDepth (.value false) IsParsed (scan room) (scan room) :=
  reads_scan trivial happly trivial room

end Definition

end BlockModel
