import BlockModel.Proofs.Condition.RoundTrip
import BlockModel.Proofs.Multipart.Denotation
import BlockModel.Proofs.Variant.RoundTrip

/-! Written multiparts are read back, with the very conditions that were written. The bound on their depth is
the smaller one of two: that of the levels of condition objects, and that of the brackets of a document, of
which a level takes two. -/

namespace BlockModel

open Text Json.Written

namespace Case

/-- The object that a case is written as, and its text. -/
def members (c : Case VariantPool) : List (String × Json × List Char) :=
  [("when", c.condition.json, c.condition.written), ("apply", c.apply.json, c.apply.written)]

def json (c : Case VariantPool) : Json := .object (c.members.map fun m => (m.1, m.2.1))

def written (c : Case VariantPool) : List Char := object (c.members.map fun m => (m.1, m.2.2))

/-- Cases whose condition can be written and is not deeper than a limit. -/
structure IsWritable (limit : Nat) (c : Case VariantPool) : Prop where
  condition : c.condition.IsWritable
  depth_le : c.condition.depth ≤ limit

variable {limit : Nat} {c : Case VariantPool}

theorem spells_written (h : c.IsWritable limit) : Spells .exact (.value c.json) (Utf8.encode c.written) := by
  refine spells_object fun m hm => ?_
  simp only [members, List.mem_cons, List.not_mem_nil, or_false] at hm
  rcases hm with rfl | rfl
  · exact Condition.spells_written h.condition
  · exact c.apply.spells_written

theorem isCase_json (h : c.IsWritable limit) : Multipart.IsCase VariantPool limit c.json := by
  refine .intro fun m hm => ?_
  simp only [members, List.map_cons, List.map_nil, List.mem_cons, List.not_mem_nil, or_false] at hm
  have hdepth := h.depth_le
  rcases hm with rfl | rfl
  · exact ⟨fun _ => Condition.isObject_json h.condition (by omega), fun hkey => absurd hkey (by simp)⟩
  · exact ⟨fun hkey => absurd hkey (by simp), fun _ => ⟨c.apply, c.apply.ofJson_json⟩⟩

theorem denotedCase?_json (h : c.IsWritable limit) : Multipart.denotedCase? c.json = some c := by
  have hwhen : Multipart.lastValue? "when" (c.members.map fun m => (m.1, m.2.1)) = some c.condition.json := by
    simp [Multipart.lastValue?, members]
  have happly : Multipart.lastValue? "apply" (c.members.map fun m => (m.1, m.2.1)) = some c.apply.json := by
    simp [Multipart.lastValue?, members]
  have hpayload : (Multipart.payload? c.apply.json : Option VariantPool) = some c.apply :=
    congrArg Except.toOption c.apply.ofJson_json
  rw [json, Multipart.denotedCase?, hwhen, happly, Option.bind_some, hpayload, Option.map_some, Option.map_some,
    Option.getD_some, Condition.meaning_json h.condition]

theorem nesting_json_le (h : c.IsWritable limit) (hlimit : 1 ≤ limit) : c.json.nesting ≤ 2 * limit + 1 := by
  refine Json.nesting_object_le_iff.2 fun m hm => ?_
  simp only [members, List.map_cons, List.map_nil, List.mem_cons, List.not_mem_nil, or_false] at hm
  rcases hm with rfl | rfl
  · calc c.condition.json.nesting
        ≤ 2 * c.condition.depth := Condition.nesting_json_le h.condition
      _ ≤ 2 * limit := Nat.mul_le_mul_left 2 h.depth_le
  · calc c.apply.json.nesting
        ≤ 2 := c.apply.nesting_json
      _ ≤ 2 * limit := by omega

end Case

namespace Multipart

def json (m : Multipart VariantPool) : Json := .list (m.cases.map Case.json)

def written (m : Multipart VariantPool) : List Char := list (m.cases.map Case.written)

variable {limit : Nat} {m : Multipart VariantPool}

theorem filterMap_json {cs : List (Case VariantPool)} (h : ∀ c ∈ cs, c.IsWritable limit) :
    (cs.map Case.json).filterMap denotedCase? = cs := by
  induction cs with
  | nil => rfl
  | cons c rest ih =>
      rw [List.map_cons, List.filterMap_cons_some (Case.denotedCase?_json (h c List.mem_cons_self)),
        ih fun c hc => h c (List.mem_cons_of_mem _ hc)]

theorem parse_eq_ok_of_spelled (hlow : 32 ≤ limit) (hhigh : limit ≤ 62) (h : ∀ c ∈ m.cases, c.IsWritable limit)
    {octets : List UInt8} (hspelled : m.json.SpelledBy octets) :
    parse (.ofConditionDepth limit) .document octets = .ok m := by
  have hroom : m.json.nesting ≤ Scan.greatestNesting := by
    refine Json.nesting_list_le_iff.2 fun j hj => ?_
    obtain ⟨c, hc, rfl⟩ := List.mem_map.1 hj
    calc c.json.nesting
        ≤ 2 * limit + 1 := Case.nesting_json_le (h c hc) (by omega)
      _ ≤ 126 := by omega
  have hlimit : (Limits.ofConditionDepth limit).conditionDepth = limit := Nat.max_eq_left hlow
  refine (parse_eq_ok_iff VariantPool.readsJson hroom hspelled m).2 ((ofJson_eq_ok_iff _ _ m).2 ⟨?_, ?_⟩)
  · rw [hlimit]
    refine .intro fun j hj => ?_
    obtain ⟨c, hc, rfl⟩ := List.mem_map.1 hj
    exact Case.isCase_json (h c hc)
  · exact (filterMap_json h).symm

/-- A multipart of writable cases is read back from its text, and from every other spelling of the same JSON. -/
theorem parse_written (hlow : 32 ≤ limit) (hhigh : limit ≤ 62) (h : ∀ c ∈ m.cases, c.IsWritable limit) :
    parse (.ofConditionDepth limit) .document (Utf8.encode m.written) = .ok m ∧
      ∀ octets, m.json.SpelledBy octets → parse (.ofConditionDepth limit) .document octets = .ok m := by
  have hspells : Spells .exact (.value m.json) (Utf8.encode m.written) :=
    spells_list fun c hc => Case.spells_written (h c hc)
  exact ⟨parse_eq_ok_of_spelled hlow hhigh h (spelledBy hspells), fun octets hspelled =>
    parse_eq_ok_of_spelled hlow hhigh h hspelled⟩

/-- A conjunction and a disjunction of one child each, around a test with an empty value and a name that has
to be escaped. -/
def singletons : Multipart VariantPool :=
  ⟨[⟨.all [.any [.property "\"a\"" ["x", ""]]], ⟨[.ofModel "m"]⟩⟩]⟩

theorem isWritable_singletons : ∀ c ∈ singletons.cases, c.IsWritable 32 :=
  List.forall_mem_singleton.2
    ⟨.all (List.forall_mem_singleton.2 (.any (List.forall_mem_singleton.2
      (.property (by decide) (by decide) (by decide))))), by decide⟩

theorem parse_written_singletons :
    (∀ c ∈ singletons.cases, c.IsWritable 32) ∧
      parse (.ofConditionDepth 32) .document (Utf8.encode singletons.written) = .ok singletons ∧
      ∀ octets, singletons.json.SpelledBy octets →
        parse (.ofConditionDepth 32) .document octets = .ok singletons :=
  ⟨isWritable_singletons, parse_written (by decide) (by decide) isWritable_singletons⟩

end Multipart

end BlockModel
