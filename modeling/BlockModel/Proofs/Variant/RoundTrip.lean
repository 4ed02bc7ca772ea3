import BlockModel.Documents
import BlockModel.Proofs.Json.Writing
import BlockModel.Proofs.Variant.Reading

/-! Written variants and pools are read back. A pool is written as a list even if it has one variant or none,
and that list is never taken for the list of the fields of one variant: what stands in its first place is an
object and not a model. -/

namespace BlockModel

open Text Json.Written

theorem IntRange.holds_iff {r : IntRange} {n : Int} : r.holds n = true ↔ r.least ≤ n ∧ n ≤ r.greatest := by
  rw [holds, Bool.and_eq_true, decide_eq_true_eq, decide_eq_true_eq]

namespace Variant

/-- The fields of a variant by name, each as a value and as a text. -/
def fields (v : Variant) : List (String × Json × List Char) :=
  [(Field.model.name, .str v.model, string v.model),
    (Field.x.name, .number (.int v.x.toInt), int v.x.toInt),
    (Field.y.name, .number (.int v.y.toInt), int v.y.toInt),
    (Field.uvlock.name, .bool v.uvlock, bool v.uvlock),
    (Field.weight.name, .number (.int v.weight.toNat), int v.weight.toNat)]

/-- The JSON that a variant is written as. -/
def json (v : Variant) : Json := .object (v.fields.map fun f => (f.1, f.2.1))

theorem written_eq (v : Variant) : v.written = object (v.fields.map fun f => (f.1, f.2.2)) := rfl

theorem spells_fields (v : Variant) : ∀ f ∈ v.fields, Spells .exact (.value f.2.1) (Utf8.encode f.2.2) := by
  have hx := v.x.toInt_lt
  have hx' := v.x.le_toInt
  have hy := v.y.toInt_lt
  have hy' := v.y.le_toInt
  have hweight := v.weight.toNat_lt
  intro f hf
  simp only [fields, List.mem_cons, List.not_mem_nil, or_false] at hf
  rcases hf with rfl | rfl | rfl | rfl | rfl
  · exact .str (spells_string v.model)
  · exact spells_int (by omega) (by omega)
  · exact spells_int (by omega) (by omega)
  · exact spells_bool v.uvlock
  · exact spells_int (by omega) (by omega)

theorem spells_written (v : Variant) : Spells .exact (.value v.json) (Utf8.encode v.written) := by
  rw [written_eq]
  exact spells_object (spells_fields v)

theorem asInt32_toInt (n : Int32) : (Json.number (.int n.toInt)).asInt32 = .ok n := by
  have hholds : IntRange.signed32.holds n.toInt = true :=
    IntRange.holds_iff.2 ⟨n.le_toInt, Int.le_sub_one_of_lt n.toInt_lt⟩
  rw [Json.asInt32, Json.asInt, if_pos hholds]
  exact congrArg Except.ok (Int32.ofInt_toInt n)

theorem asUInt32_toNat (n : UInt32) : (Json.number (.int n.toNat)).asUInt32 = .ok n := by
  have hholds : IntRange.unsigned32.holds n.toNat = true :=
    IntRange.holds_iff.2 ⟨Int.natCast_nonneg _, Int.le_sub_one_of_lt (Int.ofNat_lt.2 n.toNat_lt)⟩
  rw [Json.asUInt32, Json.asInt, if_pos hholds]
  exact congrArg Except.ok UInt32.ofNat_toNat

theorem ofName?_name (field : Field) : Field.ofName? field.name = some field := by cases field <;> decide

/-- A field that was not met before. -/
theorem membersOfJson_field {d d' : Draft} {field : Field} {j : Json} (rest : List (String × Json))
    (hnew : d.has field = false) (hfield : fieldOfJson d j field = .ok d') :
    membersOfJson d ((field.name, j) :: rest) = membersOfJson d' rest := by
  rw [membersOfJson, ofName?_name]
  simp only [hnew, hfield, Bool.false_eq_true, if_false]
  rfl

theorem fieldOfJson_x (d : Draft) (n : Int32) :
    fieldOfJson d (.number (.int n.toInt)) .x = .ok { d with x := some n } := by
  rw [fieldOfJson, asInt32_toInt]
  rfl

theorem fieldOfJson_y (d : Draft) (n : Int32) :
    fieldOfJson d (.number (.int n.toInt)) .y = .ok { d with y := some n } := by
  rw [fieldOfJson, asInt32_toInt]
  rfl

theorem fieldOfJson_weight (d : Draft) (n : UInt32) :
    fieldOfJson d (.number (.int n.toNat)) .weight = .ok { d with weight := some n } := by
  rw [fieldOfJson, asUInt32_toNat]
  rfl

/-- Every field is met once, so no default is used. -/
theorem ofJson_json (v : Variant) : ofJson v.json = .ok v := by
  simp only [json, fields, List.map_cons, List.map_nil, ofJson]
  rw [membersOfJson_field _ rfl rfl, membersOfJson_field _ rfl (fieldOfJson_x _ v.x),
    membersOfJson_field _ rfl (fieldOfJson_y _ v.y), membersOfJson_field _ rfl rfl,
    membersOfJson_field _ rfl (fieldOfJson_weight _ v.weight)]
  rfl

theorem nesting_json (v : Variant) : v.json.nesting = 1 := rfl

end Variant

namespace VariantPool

/-- The JSON that a pool is written as. -/
def json (pool : VariantPool) : Json := .list (pool.variants.map Variant.json)

theorem spells_written (pool : VariantPool) : Spells .exact (.value pool.json) (Utf8.encode pool.written) :=
  spells_list fun v _ => v.spells_written

theorem each_json (vs : List Variant) : Json.each Variant.ofJson (vs.map Variant.json) = .ok vs := by
  induction vs with
  | nil => rfl
  | cons v vs ih =>
      rw [List.map_cons, Json.each, v.ofJson_json, ih]
      rfl

/-- A list of variants is no variant. -/
theorem variant_ofJson_list (vs : List Variant) :
    ∃ fault, Variant.ofJson (.list (vs.map Variant.json)) = .error fault := by
  cases vs with
  | nil => exact ⟨_, rfl⟩
  | cons v vs => exact ⟨_, rfl⟩

theorem ofJson_json (pool : VariantPool) : ofJson pool.json = .ok pool := by
  obtain ⟨fault, hvariant⟩ := variant_ofJson_list pool.variants
  have hlist : Json.asList "a sequence" Variant.ofJson pool.json = .ok pool.variants := each_json pool.variants
  rw [ofJson, ofJson?, json, hvariant]
  simp only
  rw [← json, hlist]

theorem ofJson_variant (v : Variant) : ofJson v.json = .ok ⟨[v]⟩ := by
  rw [ofJson, ofJson?, v.ofJson_json]

theorem nesting_json (pool : VariantPool) : pool.json.nesting ≤ 2 := by
  refine Json.nesting_list_le_iff.2 fun j hj => ?_
  obtain ⟨v, -, rfl⟩ := List.mem_map.1 hj
  exact Nat.le_of_eq v.nesting_json

theorem read_eq_ok {j : Json} {octets : List UInt8} {pool : VariantPool} (hroom : j.nesting ≤ 2)
    (hspells : Spells .exact (.value j) octets) (hpool : ofJson j = .ok pool) : read octets = .ok pool :=
  (Scan.document_eq_ok_iff (readsAs_scan (Nat.le_trans hroom (by decide))) (spelledBy hspells) pool).2 hpool

/-- A written pool is read as the same pool, and a written variant as the pool of it alone. -/
theorem read_written :
    (∀ pool : VariantPool, read (Utf8.encode pool.written) = .ok pool) ∧
      ∀ v : Variant, read (Utf8.encode v.written) = .ok ⟨[v]⟩ :=
  ⟨fun pool => read_eq_ok pool.nesting_json pool.spells_written pool.ofJson_json,
    fun v => read_eq_ok (by rw [v.nesting_json]; decide) v.spells_written (ofJson_variant v)⟩

end VariantPool

end BlockModel
