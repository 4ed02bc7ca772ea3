import BlockModel.Proofs.Definition.Reading
import BlockModel.Proofs.Fault
import BlockModel.Proofs.Json.Writing

/-! A multipart inside of a definition. The section `multipart` is read by the reader of multiparts, so a text
that is its value there gives what it gives as a document of its own; only a fault that would be that of a
payload there is one of the definition here, in the same words. -/

namespace BlockModel.Definition

open Scan

/-- The JSON of a definition that has this multipart and nothing else. -/
def ofMultipart (j : Json) : Json := .object [(Section.multipart.name, j)]

variable {j : Json} {octets document : List UInt8}

theorem nesting_ofMultipart_le_iff {n : Nat} : (ofMultipart j).nesting ≤ n + 1 ↔ j.nesting ≤ n := by
  rw [ofMultipart, Json.nesting_object_le_iff, List.forall_mem_singleton]

/-- Where there is a multipart, it is the only thing that is read. -/
theorem ofJson_ofMultipart (hnull : j ≠ .null) :
    ofJson (ofMultipart j) = (fun m => ⟨none, some m⟩) <$> (Multipart.ofJson .standard j).1 := by
  have hname : Section.ofName? Section.multipart.name = some .multipart := by decide
  have hkind : j.kind ≠ .null := fun h => hnull (eq_null_of_kind h)
  have hsection : sectionOfJson .empty j .multipart =
      (fun m => { Draft.empty with multipart := some (some m) }) <$> (Multipart.ofJson .standard j).1 := by
    rw [sectionOfJson, multipartOfJson, asOptional_of_kind hkind]
    cases (Multipart.ofJson (α := VariantPool) .standard j).1 <;> rfl
  rw [ofMultipart, ofJson, membersOfJson, hname]
  simp only [Draft.has, Draft.empty, Option.isSome_none, Bool.false_eq_true, if_false]
  rw [← Draft.empty, hsection]
  cases (Multipart.ofJson (α := VariantPool) .standard j).1 <;> rfl

/-- A shape fault of the text of a multipart, as it is told. -/
theorem parse_of_ofJson_error (hroom : j.nesting ≤ greatestNesting) (hspelled : j.SpelledBy octets)
    {fault : DataFault} (hfault : (Multipart.ofJson (α := VariantPool) .standard j).1 = .error fault) :
    ∃ told : Fault, (Multipart.parse .standard .document octets : Except Fault (Multipart VariantPool)) = .error told ∧
      told.kind ≠ .source ∧ told.message = fault.message := by
  have hgives := gives_document (p := Multipart.scan .standard greatestNesting)
    (Multipart.readsAs_scan VariantPool.readsJson hroom) hspelled
  rw [hfault] at hgives
  obtain ⟨e, c, hrun, hcause⟩ := hgives.runOn_error
  have hsource : ∀ reason, e.cause ≠ .source reason := by
    intro reason h
    rw [hcause] at h
    cases h
  refine ⟨.ofFailure e, ?_, ?_, ?_⟩
  · rw [Multipart.parse, Multipart.read, hrun]
    rfl
  · rw [Fault.kind_ofFailure hsource]
    split <;> exact fun h => by cases h
  · rw [Fault.message_ofFailure, hcause, Cause.message]

/-- A shape fault of the text of a definition, as it is told. -/
theorem load_of_ofJson_error (hroom : j.nesting ≤ greatestNesting) (hlength : ∀ js, j = .list js → js.length ≤ 2)
    (hspelled : j.SpelledBy document) {fault : DataFault} (hfault : ofJson j = .error fault) :
    ∃ position, load document = .error (.malformed fault.message position) := by
  obtain ⟨log, hreads⟩ := exists_readsAs_scan hroom hlength
  have hgives := gives_document hreads hspelled
  rw [hfault] at hgives
  obtain ⟨e, c, hrun, hcause⟩ := hgives.runOn_error
  refine ⟨e.position, ?_⟩
  rw [load, read, hrun]
  refine congrArg Except.error ?_
  rw [Fault.ofStructure_eq, hcause, Cause.message]
  intro reason h
  rw [hcause] at h
  cases h

/-- A text of a multipart, and one of a definition with this multipart and nothing else: both give the
multipart, or both are refused in the same words, the definition always as a malformed document. -/
theorem load_ofMultipart (hnull : j ≠ .null) (hnesting : j.nesting ≤ 126) (hspelled : j.SpelledBy octets)
    (hdocument : (ofMultipart j).SpelledBy document) :
    (∃ m : Multipart VariantPool,
        Multipart.parse .standard .document octets = .ok m ∧ load document = .ok ⟨none, some m⟩) ∨
      ∃ (fault : Fault) (position : Option Position),
        (Multipart.parse .standard .document octets : Except Fault (Multipart VariantPool)) = .error fault ∧
          fault.kind ≠ .source ∧ load document = .error (.malformed fault.message position) := by
  have hroom : j.nesting ≤ greatestNesting := Nat.le_succ_of_le hnesting
  have hroom' : (ofMultipart j).nesting ≤ greatestNesting := nesting_ofMultipart_le_iff.2 hnesting
  have hofJson := ofJson_ofMultipart hnull
  cases hresult : (Multipart.ofJson (α := VariantPool) .standard j).1 with
  | ok m =>
      rw [hresult] at hofJson
      exact .inl ⟨m, (Multipart.parse_eq_ok_iff VariantPool.readsJson hroom hspelled m).2 hresult,
        (load_eq_ok_iff hroom' hdocument _).2 hofJson⟩
  | error fault =>
      rw [hresult] at hofJson
      have hlength : ∀ js, ofMultipart j = .list js → js.length ≤ 2 := by
        rintro js ⟨⟩
      obtain ⟨told, hparse, hkind, hmessage⟩ := parse_of_ofJson_error hroom hspelled hresult
      obtain ⟨position, hload⟩ := load_of_ofJson_error hroom' hlength hdocument hofJson
      exact .inr ⟨told, position, hparse, hkind, hmessage ▸ hload⟩

/-- A case whose payload is a text, where a pool of variants is asked for. -/
def textPayload : Json := .list [.object [("apply", .str "stone")]]

def textPayloadText : List UInt8 := Text.Utf8.encode "[\x7b\"apply\":\"stone\"\x7d]".toList

def textPayloadDefinition : List UInt8 :=
  Text.Utf8.encode "\x7b\"multipart\":[\x7b\"apply\":\"stone\"\x7d]\x7d".toList

theorem spells_textPayload : Spells .exact (.value textPayload) textPayloadText := by
  have hnil : Blanks [] := blanks_nil
  have happly := Spells.object (.members hnil (Json.Written.spells_string "apply") hnil hnil
    (.str (Json.Written.spells_string "stone")) (.endMembers hnil))
  exact .list (.items hnil happly (.endItems hnil))

theorem spells_textPayloadDefinition : Spells .exact (.value (ofMultipart textPayload)) textPayloadDefinition := by
  have hnil : Blanks [] := blanks_nil
  exact .object (.members hnil (Json.Written.spells_string "multipart") hnil hnil spells_textPayload (.endMembers hnil))

/-- The payload is at fault in the one document, and the other is malformed for the same reason. -/
theorem load_ofMultipart_textPayload :
    textPayload ≠ .null ∧ textPayload.nesting ≤ 126 ∧ textPayload.SpelledBy textPayloadText ∧
      (ofMultipart textPayload).SpelledBy textPayloadDefinition ∧
      ∃ (fault : Fault) (position : Option Position),
        (Multipart.parse .standard .document textPayloadText : Except Fault (Multipart VariantPool)) = .error fault ∧
          fault.kind = .payload ∧ load textPayloadDefinition = .error (.malformed fault.message position) := by
  have hnull : textPayload ≠ .null := by
    rintro ⟨⟩
  have hspelled := Json.Written.spelledBy spells_textPayload
  have hdocument := Json.Written.spelledBy spells_textPayloadDefinition
  have hkind : Fault.kind? (Multipart.parse (α := VariantPool) .standard .document textPayloadText) =
      some .payload := by decide +kernel
  refine ⟨hnull, by decide, hspelled, hdocument, ?_⟩
  rcases load_ofMultipart hnull (by decide) hspelled hdocument with
    ⟨m, hparse, -⟩ | ⟨fault, position, hparse, -, hload⟩ <;> rw [hparse] at hkind
  · cases hkind
  · exact ⟨fault, position, hparse, Option.some.inj hkind, hload⟩

end BlockModel.Definition
