import BlockModel.Proofs.Condition.Denotation
import BlockModel.Proofs.Json.Writing
import BlockModel.Proofs.Multipart.Reading

/-! What multipart documents are and what they mean, said of the JSON alone: a list of objects in which every
condition and every payload is sound, also those that a later member of the same key replaces. Each object
with a payload is a case, of the last condition and the last payload in it. A document is read exactly if it
spells such a list, and gives its cases. -/

namespace BlockModel.Multipart

open Scan

variable {α : Type} [Payload α]

/-- The value of the last member with a key. -/
def lastValue? (key : String) (ms : List (String × Json)) : Option Json :=
  ((ms.filter (·.1 == key)).getLast?).map (·.2)

/-- Conditions and payloads are sound, and other members are anything. -/
structure IsCaseMember (α : Type) [Payload α] (limit : Nat) (key : String) (j : Json) : Prop where
  when : key = "when" → Condition.IsObject limit 1 j
  apply : key = "apply" → ∃ a : α, Payload.ofJson j = .ok a

inductive IsCase (α : Type) [Payload α] (limit : Nat) : Json → Prop where
  | intro {ms : List (String × Json)} (hmembers : ∀ m ∈ ms, IsCaseMember α limit m.1 m.2) :
      IsCase α limit (.object ms)

inductive IsCaseList (α : Type) [Payload α] (limit : Nat) : Json → Prop where
  | intro {js : List Json} (hcases : ∀ j ∈ js, IsCase α limit j) : IsCaseList α limit (.list js)

/-- The payload in a value, if there is one. -/
def payload? (j : Json) : Option α := (Payload.ofJson j).toOption

/-- The case that an object means. Without a condition it always holds. -/
def denotedCase? : Json → Option (Case α)
  | .object ms => ((lastValue? "apply" ms).bind payload?).map fun a =>
    ⟨((lastValue? "when" ms).map Condition.meaning).getD (.all []), a⟩
  | _ => none

def denotedCases : Json → List (Case α)
  | .list js => js.filterMap denotedCase?
  | _ => []

theorem lastValue?_cons (key : String) (m : String × Json) (rest : List (String × Json)) :
    lastValue? key (m :: rest) = (lastValue? key rest).or (if m.1 = key then some m.2 else none) := by
  rw [lastValue?, lastValue?, List.filter_cons]
  by_cases hkey : m.1 = key
  · rw [if_pos (beq_iff_eq.2 hkey), if_pos hkey, List.getLast?_cons]
    cases (rest.filter (·.1 == key)).getLast? <;> rfl
  · rw [if_neg (by simpa using hkey), if_neg hkey, Option.or_none]

/-- The draft of a case after one more member. -/
def draftStep (d : CaseDraft α) (key : String) (j : Json) : CaseDraft α :=
  if key = "when" then { d with condition := some (Condition.meaning j) }
  else if key = "apply" then { d with apply := payload? j }
  else d

def draft (d : CaseDraft α) (ms : List (String × Json)) : CaseDraft α :=
  ms.foldl (fun d m => draftStep d m.1 m.2) d

theorem draft_condition (d : CaseDraft α) (ms : List (String × Json)) :
    (draft d ms).condition = (lastValue? "when" ms).elim d.condition fun j => some (Condition.meaning j) := by
  induction ms generalizing d with
  | nil => rfl
  | cons m rest ih =>
      rw [draft, List.foldl_cons, ← draft, ih, lastValue?_cons, draftStep]
      by_cases hwhen : m.1 = "when"
      · rw [if_pos hwhen, if_pos hwhen]
        cases lastValue? "when" rest <;> rfl
      · rw [if_neg hwhen, if_neg hwhen, Option.or_none]
        split <;> rfl

theorem draft_apply (d : CaseDraft α) (ms : List (String × Json)) :
    (draft d ms).apply = (lastValue? "apply" ms).elim d.apply payload? := by
  induction ms generalizing d with
  | nil => rfl
  | cons m rest ih =>
      rw [draft, List.foldl_cons, ← draft, ih, lastValue?_cons, draftStep]
      by_cases happly : m.1 = "apply"
      · rw [if_neg (by rw [happly]; decide), if_pos happly, if_pos happly]
        cases lastValue? "apply" rest <;> rfl
      · rw [if_neg happly, if_neg happly, Option.or_none]
        split <;> rfl

/-- The draft of all members is the case that their object means. -/
theorem draft_case? (ms : List (String × Json)) :
    (draft (.empty : CaseDraft α) ms).case? = denotedCase? (.object ms) := by
  rw [CaseDraft.case?, CaseDraft.when, draft_condition, draft_apply, denotedCase?]
  cases lastValue? "apply" ms <;> cases lastValue? "when" ms <;> rfl

theorem memberOfJson_eq_ok_iff (limit : Nat) (d : CaseDraft α) (key : String) (j : Json) (d' : CaseDraft α) :
    (memberOfJson limit d key j).1 = .ok d' ↔ IsCaseMember α limit key j ∧ d' = draftStep d key j := by
  by_cases hwhen : key = "when"
  · subst hwhen
    show (fun c => { d with condition := some c }) <$> Condition.ofJson limit 1 j = .ok d' ↔ _
    rw [map_eq_ok_iff, draftStep, if_pos rfl]
    simp only [Condition.ofJson_eq_ok_iff]
    constructor
    · rintro ⟨c, ⟨hobject, rfl⟩, rfl⟩
      exact ⟨⟨fun _ => hobject, fun h => absurd h (by decide)⟩, rfl⟩
    · rintro ⟨hmember, rfl⟩
      exact ⟨_, ⟨hmember.when rfl, rfl⟩, rfl⟩
  · by_cases happly : key = "apply"
    · subst happly
      show (fun a => { d with apply := some a }) <$> (Payload.ofJson j : Except DataFault α) = .ok d' ↔ _
      rw [map_eq_ok_iff, draftStep, if_neg hwhen, if_pos rfl, payload?]
      constructor
      · rintro ⟨a, ha, rfl⟩
        rw [ha]
        exact ⟨⟨fun h => absurd h hwhen, fun _ => ⟨a, ha⟩⟩, rfl⟩
      · rintro ⟨hmember, rfl⟩
        obtain ⟨a, ha⟩ := hmember.apply rfl
        rw [ha]
        exact ⟨a, rfl, rfl⟩
    · rw [memberOfJson, CaseKey.ofName, if_neg hwhen, if_neg happly, draftStep, if_neg hwhen, if_neg happly]
      rw [Except.ok.injEq]
      exact ⟨fun h => ⟨⟨fun h => absurd h hwhen, fun h => absurd h happly⟩, h.symm⟩, fun h => h.2.symm⟩

theorem readMembers_eq_ok_iff (limit : Nat) (d d' : CaseDraft α) (ms : List (String × Json)) :
    (readMembers (memberOfJson limit) d ms).1 = .ok d' ↔
      (∀ m ∈ ms, IsCaseMember α limit m.1 m.2) ∧ d' = draft d ms := by
  induction ms generalizing d with
  | nil => simp [readMembers, draft, eq_comm]
  | cons m rest ih =>
      obtain ⟨key, j⟩ := m
      have hmember := memberOfJson_eq_ok_iff limit d key j
      rw [readMembers, List.forall_mem_cons, draft, List.foldl_cons, ← draft]
      rcases hg : memberOfJson limit d key j with ⟨fault | d'', log⟩ <;> rw [hg] at hmember
      · refine ⟨fun h => absurd h (error_ne_ok _ _), fun hall => ?_⟩
        exact absurd ((hmember _).2 ⟨hall.1.1, rfl⟩) (error_ne_ok _ _)
      · obtain ⟨hm, rfl⟩ := (hmember d'').1 rfl
        simp only [ih]
        exact ⟨fun h => ⟨⟨hm, h.1⟩, h.2⟩, fun h => ⟨h.1.2, h.2⟩⟩

theorem caseOfJson_object (limit : Nat) (ms : List (String × Json)) :
    (caseOfJson (α := α) limit (.object ms)).1 =
      CaseDraft.case? <$> (readMembers (memberOfJson limit) .empty ms).1 := by
  rw [caseOfJson, membersOfJson_eq]
  rcases readMembers (memberOfJson limit) (.empty : CaseDraft α) ms with ⟨fault | d, log⟩
  · rfl
  · simp only [Functor.map, Except.map]
    cases d.case? <;> rfl

theorem caseOfJson_eq_ok_iff (limit : Nat) (j : Json) (c : Option (Case α)) :
    (caseOfJson limit j).1 = .ok c ↔ IsCase α limit j ∧ c = denotedCase? j := by
  by_cases hkind : j.kind = .object
  · cases j with
    | object ms =>
        rw [caseOfJson_object, map_eq_ok_iff, ← draft_case?]
        simp only [readMembers_eq_ok_iff]
        constructor
        · rintro ⟨d, ⟨hmembers, rfl⟩, rfl⟩
          exact ⟨.intro hmembers, rfl⟩
        · rintro ⟨⟨hmembers⟩, rfl⟩
          exact ⟨_, ⟨hmembers, rfl⟩, rfl⟩
    | _ => cases hkind
  · rw [caseOfJson_other hkind]
    refine ⟨fun h => absurd h (error_ne_ok _ _), ?_⟩
    rintro ⟨⟨-⟩, -⟩
    exact absurd rfl hkind

theorem readEach_fst {β : Type} (f : Json → Except DataFault β × List LogLine) (js : List Json) :
    (readEach f js).1 = Json.each (fun j => (f j).1) js := by
  induction js with
  | nil => rfl
  | cons j rest ih =>
      rw [readEach, Json.each, ← ih]
      rcases f j with ⟨fault | a, log⟩
      · rfl
      · cases (readEach f rest).1 <;> rfl

theorem ofJson_list (limits : Limits) (js : List Json) :
    (ofJson (α := α) limits (.list js)).1 =
      (fun cs => Multipart.mk (cs.filterMap id)) <$>
        Json.each (fun j => (caseOfJson limits.conditionDepth j).1) js := by
  rw [ofJson, casesOfJson_eq, ← readEach_fst]
  cases (readEach (caseOfJson (α := α) limits.conditionDepth) js).1 <;> rfl

theorem ofJson_eq_ok_iff (limits : Limits) (j : Json) (m : Multipart α) :
    (ofJson limits j).1 = .ok m ↔ IsCaseList α limits.conditionDepth j ∧ m.cases = denotedCases j := by
  by_cases hkind : j.kind = .list
  · cases j with
    | list js =>
        have hcase : ∀ j ∈ js, ∀ c : Option (Case α), (caseOfJson limits.conditionDepth j).1 = .ok c ↔
            IsCase α limits.conditionDepth j ∧ c = denotedCase? j :=
          fun j _ => caseOfJson_eq_ok_iff limits.conditionDepth j
        rw [ofJson_list, map_eq_ok_iff, denotedCases]
        simp only [each_eq_ok_iff hcase]
        constructor
        · rintro ⟨cs, ⟨hcases, rfl⟩, rfl⟩
          exact ⟨.intro hcases, by rw [List.filterMap_map]; rfl⟩
        · rintro ⟨⟨hcases⟩, hm⟩
          refine ⟨_, ⟨hcases, rfl⟩, ?_⟩
          rw [List.filterMap_map]
          cases m
          exact congrArg Multipart.mk hm
    | _ => cases hkind
  · rw [ofJson_other hkind]
    refine ⟨fun h => absurd h (error_ne_ok _ _), ?_⟩
    rintro ⟨⟨-⟩, -⟩
    exact absurd rfl hkind

/-- Every spelling of a value is read exactly if the value is a list of sound cases, for the limit asked for
or the least one, and then gives the cases that it means. -/
theorem parse_denotes {t : Json} {octets : List UInt8} (hnesting : t.nesting ≤ 127)
    (hspelled : t.SpelledBy octets) (requested : Nat) :
    ((∃ m : Multipart VariantPool, parse (.ofConditionDepth requested) .document octets = .ok m) ↔
        IsCaseList VariantPool (max requested 32) t) ∧
      ∀ m : Multipart VariantPool, parse (.ofConditionDepth requested) .document octets = .ok m →
        m.cases = denotedCases t := by
  have hparse : ∀ m, parse (.ofConditionDepth requested) .document octets = .ok m ↔
      (ofJson (.ofConditionDepth requested) t).1 = .ok m :=
    parse_eq_ok_iff VariantPool.readsJson hnesting hspelled
  have hjson : ∀ m : Multipart VariantPool, (ofJson (.ofConditionDepth requested) t).1 = .ok m ↔
      IsCaseList VariantPool (max requested 32) t ∧ m.cases = denotedCases t :=
    ofJson_eq_ok_iff (.ofConditionDepth requested) t
  refine ⟨⟨?_, fun hcases => ?_⟩, fun m hm => ?_⟩
  · rintro ⟨m, hm⟩
    exact ((hjson m).1 ((hparse m).1 hm)).1
  · exact ⟨⟨denotedCases t⟩, (hparse _).2 ((hjson _).2 ⟨hcases, rfl⟩)⟩
  · exact ((hjson m).1 ((hparse m).1 hm)).2

/-- A case whose first payload is replaced by an empty pool. -/
def replacedPayload : Json :=
  .list [.object [("when", .object [("a", .str "x|y")]), ("apply", .object [("model", .str "m")]),
    ("apply", .list [])]]

/-- The same as a text, with a blank and an escape in a key. -/
def replacedPayloadText : List UInt8 :=
  Text.Utf8.encode "[ \x7b\"when\":\x7b\"a\":\"x|y\"\x7d,\"apply\":\x7b\"model\":\"m\"\x7d,\"\\u0061pply\":[]\x7d]".toList

theorem spelledBy_replacedPayload : replacedPayload.SpelledBy replacedPayloadText := by
  have hnil : Blanks [] := blanks_nil
  have hblank : Blanks [0x20] := List.forall_mem_singleton.2 rfl
  have hwritten := Json.Written.spells_string
  have hescaped : Leaves.exact.string "apply" _ :=
    ⟨_, .cons (.hex (by decide : hexNumber? (Text.Utf8.encode "0061".toList) = some 'a'.toNat))
      (Json.Written.spellsChars_escaped "pply".toList), rfl⟩
  have hmember (key value : String) := Spells.object
    (.members hnil (hwritten key) hnil hnil (.str (hwritten value)) (.endMembers hnil))
  have hcase := Spells.object (.members hnil (hwritten "when") hnil hnil (hmember "a" "x|y")
    (.moreMembers hnil hnil (hwritten "apply") hnil hnil (hmember "model" "m")
      (.moreMembers hnil hnil hescaped hnil hnil (.list (.noItems hnil)) (.endMembers hnil))))
  exact Json.Written.spelledBy (.list (.items hblank hcase (.endItems hnil)))

theorem parse_denotes_replacedPayload :
    replacedPayload.nesting ≤ 127 ∧ replacedPayload.SpelledBy replacedPayloadText ∧
      ((∃ m : Multipart VariantPool, parse (.ofConditionDepth 40) .document replacedPayloadText = .ok m) ↔
        IsCaseList VariantPool 40 replacedPayload) ∧
      ∀ m : Multipart VariantPool, parse (.ofConditionDepth 40) .document replacedPayloadText = .ok m →
        m.cases = denotedCases replacedPayload :=
  ⟨by decide, spelledBy_replacedPayload, parse_denotes (by decide) spelledBy_replacedPayload 40⟩

end BlockModel.Multipart
