import BlockModel.Proofs.Multipart.Denotation
import BlockModel.Proofs.Multipart.Readers
import BlockModel.Proofs.Scan.Yields

/-! The conditions of a multipart that was read, from a text of any source or from JSON that was read whole. The
limit on the levels of condition objects bounds the height of every condition, whatever its cases apply. -/

namespace BlockModel

open Scan Condition

namespace Multipart

variable {α : Type} [Payload α]

theorem yields_scan (limits : Limits) (room : Nat) :
    Yields (IsParsed (greatestHeight limits.conditionDepth)) (scan limits room : Scan (Multipart α)) :=
  (reads (fun _ => True) (fun _ => trivial) limits room).yields

theorem isParsed_of_parse {limits : Limits} {supply : Supply} {octets : List UInt8} {m : Multipart α}
    (h : parse limits supply octets = .ok m) : m.IsParsed (greatestHeight limits.conditionDepth) :=
  (Yields.document (yields_scan limits greatestNesting)).runOn ((mapError_eq_ok_iff _).1 h)

theorem mem_of_lastValue? {key : String} {ms : List (String × Json)} {j : Json} (h : lastValue? key ms = some j) :
    (key, j) ∈ ms := by
  obtain ⟨m, hm, rfl⟩ := Option.map_eq_some_iff.1 h
  obtain ⟨hmem, hkey⟩ := List.mem_filter.1 (List.mem_of_getLast? hm)
  rw [← beq_iff_eq.1 hkey]
  exact hmem

theorem isParsed_denotedCase? {limits : Limits} {j : Json} (h : IsCase α limits.conditionDepth j) :
    ∀ c ∈ (denotedCase? j : Option (Case α)), c.condition.IsParsed (greatestHeight limits.conditionDepth) := by
  cases h with
  | @intro ms hmembers =>
      intro c hc
      obtain ⟨a, -, rfl⟩ := Option.map_eq_some_iff.1 hc
      cases hwhen : lastValue? "when" ms with
      | none => exact .always (le_greatestHeight _)
      | some j => exact isParsed_greatestHeight (isParsed_meaning ((hmembers _ (mem_of_lastValue? hwhen)).when rfl))

theorem isParsed_of_ofJson {limits : Limits} {j : Json} {m : Multipart α} (h : (ofJson limits j).1 = .ok m) :
    m.IsParsed (greatestHeight limits.conditionDepth) := by
  obtain ⟨hlist, hcases⟩ := (ofJson_eq_ok_iff limits j m).1 h
  cases hlist with
  | intro hall =>
      intro c hc
      rw [hcases] at hc
      obtain ⟨j, hj, hcase⟩ := List.mem_filterMap.1 hc
      exact isParsed_denotedCase? (hall j hj) c hcase

theorem isParsed_of_readJson {octets : List UInt8} {m : Multipart α} (h : (readJson octets).1 = .ok m) :
    m.IsParsed (2 * leastConditionDepth) := by
  rw [readJson] at h
  cases hread : Json.read octets with
  | error e =>
      rw [hread] at h
      cases h
  | ok j =>
      rw [hread] at h
      exact isParsed_of_ofJson ((mapError_eq_ok_iff _).1 h)

end Multipart

end BlockModel
