import BlockModel.Proofs.Definition.Interpretation
import BlockModel.Proofs.Definition.Readers
import BlockModel.Proofs.Multipart.Parsed

/-! The conditions of a definition that was read: those of its cases are the sound ones of a multipart, and those
of its rows are what their keys are short for. -/

namespace BlockModel

open Scan

namespace VariantTable

theorem isParsed_rowsOfJson {ms : List (String × Json)} {rows : List VariantRow} (h : rowsOfJson ms = .ok rows) :
    ∀ row ∈ rows, row.condition.IsKeyCondition := by
  induction ms generalizing rows with
  | nil =>
      obtain rfl := Except.ok.inj h
      exact List.forall_mem_nil _
  | cons m rest ih =>
      obtain ⟨pool, more, -, hmore, rfl⟩ := (both_eq_ok_iff _ _).1 h
      exact isParsed_cons (ih hmore)

theorem isParsed_of_read {octets : List UInt8} {t : VariantTable} (h : read octets = .ok t) : t.IsParsed := by
  have hreads : Reads .ofPayload 0 (.value false) IsParsed (scan greatestNesting) _ := reads_scan greatestNesting
  exact hreads.yields.document.runOn h

theorem isParsed_of_ofJson {j : Json} {t : VariantTable} (h : ofJson j = .ok t) : t.IsParsed := by
  cases j with
  | object ms =>
      obtain ⟨rows, hrows, rfl⟩ := map_eq_ok_iff.1 h
      exact isParsed_rowsOfJson hrows
  | _ => cases h

end VariantTable

namespace Definition

/-- A section that is there, and not `null`, was taken from its value. -/
theorem forall_mem_of_placeOr {α : Type} {value : Json → Except DataFault α} {P : α → Prop}
    (hvalue : ∀ j a, value j = .ok a → P a) {j? : Option Json} {a? : Option α}
    (h : Json.placeOr (Json.asOptional value) none j? = .ok a?) : ∀ a ∈ a?, P a := by
  rintro a rfl
  cases j? with
  | none => cases h
  | some j =>
      by_cases hkind : j.kind = .null
      · obtain rfl := eq_null_of_kind hkind
        cases h
      · rw [Json.placeOr, asOptional_of_kind hkind] at h
        obtain ⟨a', ha', heq⟩ := map_eq_ok_iff.1 h
        obtain rfl := Option.some.inj heq
        exact hvalue j _ ha'

theorem isParsed_of_ofJson {j : Json} {d : Definition} (h : ofJson j = .ok d) : d.IsParsed := by
  obtain ⟨hvariants, hmultipart⟩ := sections_of_ofJson h
  exact ⟨forall_mem_of_placeOr (fun _ _ => VariantTable.isParsed_of_ofJson) hvariants,
    forall_mem_of_placeOr (fun _ _ => Multipart.isParsed_of_ofJson) hmultipart⟩

theorem isParsed_of_load {octets : List UInt8} {d : Definition} (h : load octets = .ok d) : d.IsParsed :=
  (reads (fun _ => True) (fun _ => trivial) greatestNesting).yields.document.runOn ((mapError_eq_ok_iff _).1 h)

theorem isParsed_of_readJson {octets : List UInt8} {d : Definition} (h : readJson octets = .ok d) : d.IsParsed := by
  rw [readJson] at h
  cases hread : Json.read octets with
  | error e =>
      rw [hread] at h
      cases h
  | ok j =>
      rw [hread] at h
      exact isParsed_of_ofJson ((mapError_eq_ok_iff _).1 h)

/-- Whatever is read, and in whatever way, the conditions in it are sound: those of cases are no higher than two nodes
for each level that the limit allows, and those of rows are tests and conjunctions of tests. -/
theorem parsed_conditions {α : Type} [Payload α] (requested : Nat) (supply : Supply) (octets : List UInt8) :
    (∀ m : Multipart α, Multipart.parse (.ofConditionDepth requested) supply octets = .ok m →
        m.IsParsed (2 * max requested 32)) ∧
      (∀ m : Multipart α, (Multipart.readJson octets).1 = .ok m → m.IsParsed (2 * 32)) ∧
      (∀ d : Definition, load octets = .ok d ∨ readJson octets = .ok d → d.IsParsed) ∧
      ∀ t : VariantTable, VariantTable.read octets = .ok t → t.IsParsed := by
  refine ⟨fun m h => ?_, fun m => Multipart.isParsed_of_readJson, ?_, fun t => VariantTable.isParsed_of_read⟩
  · have hheight := Multipart.greatestHeight_ofConditionDepth requested
    exact hheight ▸ Multipart.isParsed_of_parse h
  · exact fun d h => h.elim isParsed_of_load isParsed_of_readJson

/-- A table with a key of which one segment asks for nothing. -/
def oneRowText : List UInt8 := Text.Utf8.encode "\x7b\" a = x|y,b\":\x7b\"model\":\"m\"\x7d\x7d".toList

/-- A case with a test and a disjunction of one test. -/
def oneCaseText : List UInt8 := Text.Utf8.encode
  "[\x7b\"when\":\x7b\"a\":\"x|y\",\"OR\":[\x7b\"b\":true\x7d]\x7d,\"apply\":\x7b\"model\":\"m\"\x7d\x7d]".toList

/-- The definition of both. -/
def bothText : List UInt8 :=
  Text.Utf8.encode "\x7b\"variants\":".toList ++ oneRowText ++ Text.Utf8.encode ",\"multipart\":".toList ++
    oneCaseText ++ [Octet.closeObject]

theorem parsed_conditions_bothText :
    (∃ m : Multipart VariantPool, Multipart.parse (.ofConditionDepth 40) .stream oneCaseText = .ok m ∧
        m.IsParsed 80) ∧
      (∃ m : Multipart VariantPool, (Multipart.readJson oneCaseText).1 = .ok m ∧ m.IsParsed 64) ∧
      (∃ d : Definition, load bothText = .ok d ∧ d.IsParsed) ∧
      (∃ d : Definition, readJson bothText = .ok d ∧ d.IsParsed) ∧
      ∃ t : VariantTable, VariantTable.read oneRowText = .ok t ∧ t.IsParsed := by
  obtain ⟨m, hm⟩ : ∃ m : Multipart VariantPool, Multipart.parse (.ofConditionDepth 40) .stream oneCaseText = .ok m :=
    exists_ok_of_isSome (by decide +kernel)
  obtain ⟨m', hm'⟩ : ∃ m : Multipart VariantPool, (Multipart.readJson oneCaseText).1 = .ok m :=
    exists_ok_of_isSome (by decide +kernel)
  obtain ⟨d, hd⟩ : ∃ d, load bothText = .ok d := exists_ok_of_isSome (by decide +kernel)
  obtain ⟨d', hd'⟩ : ∃ d, readJson bothText = .ok d := exists_ok_of_isSome (by decide +kernel)
  obtain ⟨t, ht⟩ : ∃ t, VariantTable.read oneRowText = .ok t := exists_ok_of_isSome (by decide +kernel)
  obtain ⟨hparse, hreadJson, -, -⟩ := parsed_conditions (α := VariantPool) 40 .stream oneCaseText
  obtain ⟨-, -, hdefinition, -⟩ := parsed_conditions (α := VariantPool) 40 .stream bothText
  obtain ⟨-, -, -, htable⟩ := parsed_conditions (α := VariantPool) 40 .stream oneRowText
  exact ⟨⟨m, hm, hparse m hm⟩, ⟨m', hm', hreadJson m' hm'⟩, ⟨d, hd, hdefinition d (.inl hd)⟩,
    ⟨d', hd', hdefinition d' (.inr hd')⟩, t, ht, htable t ht⟩

end Definition

end BlockModel
