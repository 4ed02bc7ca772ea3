import BlockModel.Proofs.Condition.Canonical
import BlockModel.Proofs.Multipart.Denotation
import BlockModel.Proofs.Scan.Spelled
import BlockModel.Proofs.Variant.Canonical

/-! Two ways to a multipart. It can be read on the way through the text of a document, or taken from the JSON of
the document after that was read whole, whose members are then in another order. When no object has a key twice,
both ways give a multipart or neither does; the cases are as many and apply the same, and their conditions, which
may be put together differently, hold of the same bags of properties. -/

namespace BlockModel.Multipart

open Scan

section Members

variable {key : String} {ms ms' : List (String × Json)}

/-- Where keys are distinct it does not matter which member is the last. -/
theorem lastValue?_perm (h : ms.Perm ms') (hkeys : (ms.map (·.1)).Nodup) (key : String) :
    lastValue? key ms = lastValue? key ms' := by
  induction h with
  | nil => rfl
  | cons m _ ih =>
      rw [List.map_cons, List.nodup_cons] at hkeys
      rw [lastValue?_cons, lastValue?_cons, ih hkeys.2]
  | swap a b rest =>
      simp only [List.map_cons, List.nodup_cons, List.mem_cons, not_or] at hkeys
      simp only [lastValue?_cons, Option.or_assoc]
      congr 1
      by_cases ha : a.1 = key
      · rw [if_pos ha, if_neg fun hb => hkeys.1.1 (hb.trans ha.symm), Option.or_none, Option.none_or]
      · rw [if_neg ha, Option.or_none, Option.none_or]
  | trans h _ ih ih' => rw [ih hkeys, ih' ((h.map (·.1)).nodup_iff.1 hkeys)]

theorem lastValue?_canonicalMember (key : String) (ms : List (String × Json)) :
    lastValue? key (ms.map Json.canonicalMember) = (lastValue? key ms).map Json.canonical := by
  induction ms with
  | nil => rfl
  | cons m rest ih =>
      rw [List.map_cons, lastValue?_cons, lastValue?_cons, ih, Option.map_or, Json.canonicalMember]
      split <;> rfl

theorem distinctKeys_of_lastValue? {j : Json} (hms : ∀ m ∈ ms, m.2.DistinctKeys)
    (h : lastValue? key ms = some j) : j.DistinctKeys := by
  obtain ⟨m, hm, rfl⟩ := Option.map_eq_some_iff.1 h
  exact hms m (List.mem_filter.1 (List.mem_of_getLast? hm)).1

end Members

section Form

variable {limit : Nat} {key : String} {j : Json}

theorem payload_ofJson_canonical (h : j.DistinctKeys) :
    (Payload.ofJson j.canonical : Except DataFault VariantPool) = Payload.ofJson j :=
  VariantPool.ofJson_canonical h

theorem isCaseMember_canonical_iff (h : j.DistinctKeys) :
    IsCaseMember VariantPool limit key j.canonical ↔ IsCaseMember VariantPool limit key j := by
  constructor
  · rintro ⟨hwhen, happly⟩
    exact ⟨fun hkey => (Condition.isObject_canonical_iff h).1 (hwhen hkey),
      fun hkey => payload_ofJson_canonical h ▸ happly hkey⟩
  · rintro ⟨hwhen, happly⟩
    exact ⟨fun hkey => (Condition.isObject_canonical_iff h).2 (hwhen hkey),
      fun hkey => (payload_ofJson_canonical h).symm ▸ happly hkey⟩

theorem isCase_object_iff {ms : List (String × Json)} :
    IsCase VariantPool limit (.object ms) ↔ ∀ m ∈ ms, IsCaseMember VariantPool limit m.1 m.2 := by
  constructor
  · rintro ⟨hms⟩
    exact hms
  · exact .intro

theorem not_isCase_of_kind (hkind : j.kind ≠ .object) : ¬IsCase VariantPool limit j := by
  rintro ⟨-⟩
  exact hkind rfl

theorem isCase_canonical_iff (h : j.DistinctKeys) :
    IsCase VariantPool limit j.canonical ↔ IsCase VariantPool limit j := by
  by_cases hkind : j.kind = .object
  · cases j with
    | object ms =>
        obtain ⟨hkeys, hms⟩ := h.member
        obtain ⟨ms', hcanonical, hperm⟩ := Json.exists_canonical_object hkeys
        rw [hcanonical, isCase_object_iff, isCase_object_iff]
        simp only [hperm.mem_iff, List.forall_mem_map]
        exact forall₂_congr fun m hm => isCaseMember_canonical_iff (hms m hm)
    | _ => cases hkind
  · have hkind' : j.canonical.kind ≠ .object := by rwa [j.kind_canonical]
    exact iff_of_false (not_isCase_of_kind hkind') (not_isCase_of_kind hkind)

theorem isCaseList_list_iff {js : List Json} :
    IsCaseList VariantPool limit (.list js) ↔ ∀ j ∈ js, IsCase VariantPool limit j := by
  constructor
  · rintro ⟨hjs⟩
    exact hjs
  · exact .intro

theorem not_isCaseList_of_kind (hkind : j.kind ≠ .list) : ¬IsCaseList VariantPool limit j := by
  rintro ⟨-⟩
  exact hkind rfl

theorem isCaseList_canonical_iff (h : j.DistinctKeys) :
    IsCaseList VariantPool limit j.canonical ↔ IsCaseList VariantPool limit j := by
  by_cases hkind : j.kind = .list
  · cases j with
    | list js =>
        rw [Json.canonical_list, isCaseList_list_iff, isCaseList_list_iff, List.forall_mem_map]
        exact forall₂_congr fun c hc => isCase_canonical_iff (h.item c hc)
    | _ => cases hkind
  · have hkind' : j.canonical.kind ≠ .list := by rwa [j.kind_canonical]
    exact iff_of_false (not_isCaseList_of_kind hkind') (not_isCaseList_of_kind hkind)

end Form

section Meaning

/-- What a case with these members applies. -/
def casePayload? (ms : List (String × Json)) : Option VariantPool := (lastValue? "apply" ms).bind payload?

/-- The condition of a case with these members. -/
def caseCondition (ms : List (String × Json)) : Condition :=
  ((lastValue? "when" ms).map Condition.meaning).getD (.all [])

theorem denotedCase?_object (ms : List (String × Json)) :
    denotedCase? (.object ms) = (casePayload? ms).map fun a => ⟨caseCondition ms, a⟩ := rfl

variable {ms ms' : List (String × Json)} {j : Json} {β : Type} [PropertyBag β]

/-- The members that make up a case are those of its canonical form. -/
theorem lastValue?_canonical (hkeys : (ms.map (·.1)).Nodup) (hperm : ms'.Perm (ms.map Json.canonicalMember))
    (key : String) : lastValue? key ms' = (lastValue? key ms).map Json.canonical := by
  have hkeys' : ((ms.map Json.canonicalMember).map (·.1)).Nodup := by
    rw [List.map_map]
    exact hkeys
  rw [← lastValue?_perm hperm.symm hkeys', lastValue?_canonicalMember]

theorem casePayload?_canonical (h : (Json.object ms).DistinctKeys)
    (hperm : ms'.Perm (ms.map Json.canonicalMember)) : casePayload? ms' = casePayload? ms := by
  obtain ⟨hkeys, hms⟩ := h.member
  rw [casePayload?, casePayload?, lastValue?_canonical hkeys hperm]
  cases happly : lastValue? "apply" ms with
  | none => rfl
  | some j =>
      rw [Option.map_some, Option.bind_some, Option.bind_some, payload?, payload?,
        payload_ofJson_canonical (distinctKeys_of_lastValue? hms happly)]

theorem holds_caseCondition_canonical (h : (Json.object ms).DistinctKeys)
    (hperm : ms'.Perm (ms.map Json.canonicalMember)) (bag : β) :
    (caseCondition ms').holds bag = (caseCondition ms).holds bag := by
  obtain ⟨hkeys, hms⟩ := h.member
  rw [caseCondition, caseCondition, lastValue?_canonical hkeys hperm]
  cases hwhen : lastValue? "when" ms with
  | none => rfl
  | some j =>
      have hholds := Condition.objectHolds_canonical bag (distinctKeys_of_lastValue? hms hwhen)
      rw [← Condition.holds_meaning, ← Condition.holds_meaning] at hholds
      exact hholds

/-- A case in canonical form applies the same. -/
theorem apply_denotedCase?_canonical (h : j.DistinctKeys) :
    (denotedCase? (α := VariantPool) j.canonical).map (·.apply) = (denotedCase? j).map (·.apply) := by
  cases j with
  | object ms =>
      obtain ⟨ms', hcanonical, hperm⟩ := Json.exists_canonical_object h.member.1
      rw [hcanonical, denotedCase?_object, denotedCase?_object, casePayload?_canonical h hperm, Option.map_map,
        Option.map_map]
      rfl
  | _ => rfl

/-- A case in canonical form holds of the same bags. -/
theorem holds_denotedCase?_canonical (h : j.DistinctKeys) (bag : β) :
    (denotedCase? (α := VariantPool) j.canonical).map (·.condition.holds bag) =
      (denotedCase? (α := VariantPool) j).map (·.condition.holds bag) := by
  cases j with
  | object ms =>
      obtain ⟨ms', hcanonical, hperm⟩ := Json.exists_canonical_object h.member.1
      rw [hcanonical, denotedCase?_object, denotedCase?_object, casePayload?_canonical h hperm, Option.map_map,
        Option.map_map]
      cases casePayload? ms with
      | none => rfl
      | some a => exact congrArg some (holds_caseCondition_canonical h hperm bag)
  | _ => rfl

/-- What is the same of every case and its canonical form is the same of the lists of cases. -/
theorem map_denotedCases_canonical {γ : Type} (f : Case VariantPool → γ) (h : j.DistinctKeys)
    (hcase : ∀ c : Json, c.DistinctKeys →
      (denotedCase? (α := VariantPool) c.canonical).map f = (denotedCase? c).map f) :
    (denotedCases j.canonical).map f = (denotedCases j).map f := by
  cases j with
  | list js =>
      have hcases : js.map (fun c => (denotedCase? c.canonical).map f) =
          js.map fun c => (denotedCase? c).map f :=
        List.map_congr_left fun c hc => hcase c (h.item c hc)
      have hkept := congrArg (List.filterMap id) hcases
      rw [List.filterMap_map, List.filterMap_map] at hkept
      rw [Json.canonical_list, denotedCases, denotedCases, List.map_filterMap, List.map_filterMap,
        List.filterMap_map]
      exact hkept
  | _ => rfl

end Meaning

/-- Multiparts with as many cases that apply the same, each of them where the other does. -/
structure Agrees (m m' : Multipart VariantPool) : Prop where
  payloads : m.cases.map (·.apply) = m'.cases.map (·.apply)
  conditions : ∀ (β : Type) [PropertyBag β] (bag : β),
    m.cases.map (·.condition.holds bag) = m'.cases.map (·.condition.holds bag)

theorem agrees_canonical {t : Json} (h : t.DistinctKeys) :
    Agrees ⟨denotedCases t⟩ ⟨denotedCases t.canonical⟩ where
  payloads := (map_denotedCases_canonical _ h fun _ hc => apply_denotedCase?_canonical hc).symm
  conditions := fun _ _ bag =>
    (map_denotedCases_canonical _ h fun _ hc => holds_denotedCase?_canonical hc bag).symm

theorem exists_error_of_not_ok {ε α : Type} {r : Except ε α} (h : ∀ a, r ≠ .ok a) : ∃ e, r = .error e := by
  cases r with
  | error e => exact ⟨e, rfl⟩
  | ok a => exact absurd rfl (h a)

/-- The multipart in a document without repeated keys and the one in its JSON are both refused, or both are read
and agree. -/
theorem parse_agrees_readJson {octets : List UInt8} {j t : Json} (hread : Json.read octets = .ok j)
    (hspelled : t.SpelledBy octets) (hkeys : t.DistinctKeys) :
    ((∃ fault, parse (α := VariantPool) .standard .document octets = .error fault) ∧
        ∃ failure, (readJson (α := VariantPool) octets).1 = .error failure) ∨
      ∃ m m' : Multipart VariantPool, parse .standard .document octets = .ok m ∧ (readJson octets).1 = .ok m' ∧
        m.Agrees m' := by
  obtain ⟨u, hu, hnesting, rfl⟩ := Json.spelledBy_of_read hread
  obtain rfl := hu.unique hspelled
  have hparse : ∀ m : Multipart VariantPool, parse .standard .document octets = .ok m ↔
      IsCaseList VariantPool Limits.standard.conditionDepth u ∧ m.cases = denotedCases u := fun m =>
    (parse_eq_ok_iff VariantPool.readsJson hnesting hu m).trans (ofJson_eq_ok_iff .standard u m)
  have hjson : ∀ m : Multipart VariantPool, (readJson octets).1 = .ok m ↔
      IsCaseList VariantPool Limits.standard.conditionDepth u ∧ m.cases = denotedCases u.canonical := by
    intro m
    rw [readJson, hread, ← isCaseList_canonical_iff hkeys, ← ofJson_eq_ok_iff]
    exact mapError_eq_ok_iff _
  by_cases hcases : IsCaseList VariantPool Limits.standard.conditionDepth u
  · exact .inr ⟨_, _, (hparse _).2 ⟨hcases, rfl⟩, (hjson _).2 ⟨hcases, rfl⟩, agrees_canonical hkeys⟩
  · refine .inl ⟨exists_error_of_not_ok fun m hm => ?_, exists_error_of_not_ok fun m hm => ?_⟩
    · exact hcases ((hparse m).1 hm).1
    · exact hcases ((hjson m).1 hm).1

/-- A case with two properties that are not in the order of their names. -/
def twoProperties : Json :=
  .list [.object [("when", .object [("b", .str "1"), ("a", .str "2")]), ("apply", .object [("model", .str "m")])]]

def twoPropertiesText : List UInt8 :=
  Text.Utf8.encode "[\x7b\"when\":\x7b\"b\":\"1\",\"a\":\"2\"\x7d,\"apply\":\x7b\"model\":\"m\"\x7d\x7d]".toList

theorem spelledBy_twoProperties : twoProperties.SpelledBy twoPropertiesText := by
  have hnil : Blanks [] := blanks_nil
  have hwritten := Json.Written.spells_string
  have hwhen := Spells.object (.members hnil (hwritten "b") hnil hnil (.str (hwritten "1"))
    (.moreMembers hnil hnil (hwritten "a") hnil hnil (.str (hwritten "2")) (.endMembers hnil)))
  have happly := Spells.object (.members hnil (hwritten "model") hnil hnil (.str (hwritten "m")) (.endMembers hnil))
  have hcase := Spells.object (.members hnil (hwritten "when") hnil hnil hwhen
    (.moreMembers hnil hnil (hwritten "apply") hnil hnil happly (.endMembers hnil)))
  exact Json.Written.spelledBy (.list (.items hnil hcase (.endItems hnil)))

theorem distinctKeys_twoProperties : twoProperties.DistinctKeys := by
  have hstr : ∀ s : String, (Json.str s).DistinctKeys := .str
  refine .list (List.forall_mem_singleton.2 (.object (by decide) ?_))
  refine List.forall_mem_cons.2 ⟨.object (by decide) ?_, List.forall_mem_singleton.2 (.object (by decide) ?_)⟩
  · exact List.forall_mem_cons.2 ⟨hstr "1", List.forall_mem_singleton.2 (hstr "2")⟩
  · exact List.forall_mem_singleton.2 (hstr "m")

theorem parse_agrees_readJson_twoProperties :
    Json.read twoPropertiesText = .ok twoProperties.canonical ∧ twoProperties.SpelledBy twoPropertiesText ∧
      twoProperties.DistinctKeys ∧
      ∃ m m' : Multipart VariantPool, parse .standard .document twoPropertiesText = .ok m ∧
        (readJson twoPropertiesText).1 = .ok m' ∧ m.Agrees m' := by
  have hread : Json.read twoPropertiesText = .ok twoProperties.canonical :=
    Json.read_eq_ok_iff.2 ⟨twoProperties, spelledBy_twoProperties, by decide, rfl⟩
  refine ⟨hread, spelledBy_twoProperties, distinctKeys_twoProperties, ?_⟩
  obtain ⟨m, hm⟩ : ∃ m : Multipart VariantPool, parse .standard .document twoPropertiesText = .ok m :=
    ⟨_, (parse_eq_ok_iff VariantPool.readsJson (by decide) spelledBy_twoProperties _).2 rfl⟩
  rcases parse_agrees_readJson hread spelledBy_twoProperties distinctKeys_twoProperties with
    ⟨⟨fault, hfault⟩, -⟩ | hagrees
  · rw [hm] at hfault
    cases hfault
  · exact hagrees

end BlockModel.Multipart
