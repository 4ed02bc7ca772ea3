import BlockModel.Proofs.Scan.Tree
import BlockModel.Variant.Json

/-! What a multipart case may apply comes out of a text as it comes out of the JSON that it spells. Pools of
variants do: their JSON is read whole. -/

namespace BlockModel

/-- A payload for which reading its text and taking it from its JSON are the same. -/
def Payload.ReadsJson (α : Type) [Payload α] : Prop :=
  ∀ (room : Nat) (j : Json), j.nesting ≤ room →
    Scan.ReadsAs (Payload.scan room : Scan α) j (Payload.ofJson j, [])

theorem Scan.readsAs_payload {α : Type} {p : Scan α} {j : Json} {r : Except DataFault α × List LogLine}
    (h : ReadsAs p j r) : ReadsAs (payload p) j r :=
  fun w s t l hw hj ht => (h w s t l hw hj ht).payload

theorem VariantPool.readsAs_scan {room : Nat} {j : Json} (hroom : j.nesting ≤ room) :
    Scan.ReadsAs (scan room) j (ofJson j, []) := by
  intro w s t l hw hj ht
  refine (Scan.readsAs_tree hroom w s t l hw hj ht).bind_ok ?_
  rw [ofJson]
  cases ofJson? j with
  | some pool =>
      rw [List.append_nil]
      exact .pure _ _
  | none => exact .refuseData _ _

/-- A variant or a list of variants. -/
def VariantPool.IsPool (j : Json) : Prop :=
  (∃ v, Variant.ofJson j = .ok v) ∨ ∃ js, j = .list js ∧ ∀ k ∈ js, ∃ v, Variant.ofJson k = .ok v

theorem VariantPool.exists_asList_iff {j : Json} :
    (∃ vs, Json.asList "a sequence" Variant.ofJson j = .ok vs) ↔
      ∃ js, j = .list js ∧ ∀ k ∈ js, ∃ v, Variant.ofJson k = .ok v := by
  by_cases hkind : j.kind = .list
  · cases j with
    | list js =>
        rw [Json.asList, exists_each_eq_ok_iff]
        refine ⟨fun h => ⟨js, rfl, h⟩, ?_⟩
        rintro ⟨_, hjs, h⟩
        rwa [Json.list.inj hjs]
    | _ => cases hkind
  · constructor
    · rintro ⟨vs, hvs⟩
      cases j with
      | list js => exact absurd rfl hkind
      | _ => cases hvs
    · rintro ⟨js, rfl, -⟩
      exact absurd rfl hkind

theorem VariantPool.ofJson?_eq_none_iff {j : Json} : ofJson? j = none ↔ ¬IsPool j := by
  rw [IsPool, ← exists_asList_iff, ofJson?]
  cases Variant.ofJson j with
  | ok v => simp
  | error fault => cases Json.asList "a sequence" Variant.ofJson j <;> simp

theorem VariantPool.readsJson : Payload.ReadsJson VariantPool := fun _ _ => readsAs_scan

end BlockModel
