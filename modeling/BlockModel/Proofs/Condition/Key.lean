import BlockModel.Condition.Display
import Mathlib.Data.List.DropRight

/-! What the conditions of variant keys look like. A key is cut at its commas, a segment at its first equals sign and
the values at their bars, and blanks are taken away at both ends of a name; so the condition is one test or a
conjunction of tests, and what separates the parts of a key stands in none of them. -/

namespace BlockModel

namespace Text

theorem trim_eq (s : List Char) : trim s = (s.dropWhile isBlank).rdropWhile isBlank := rfl

theorem mem_of_mem_trim {s : List Char} {c : Char} (h : c ∈ trim s) : c ∈ s := by
  rw [trim_eq] at h
  exact (List.dropWhile_sublist isBlank).subset ((List.rdropWhile_prefix isBlank _).subset h)

/-- Blanks at both ends are taken away at once. -/
theorem trim_trim (s : List Char) : trim (trim s) = trim s := by
  -- What is left begins as the text does behind its first blanks, so there are no blanks in front of it.
  have hfront : (trim s).dropWhile isBlank = trim s := by
    rw [trim_eq]
    obtain ⟨tail, htail⟩ := List.rdropWhile_prefix isBlank (s.dropWhile isBlank)
    cases hleft : (s.dropWhile isBlank).rdropWhile isBlank with
    | nil => rfl
    | cons c rest =>
        have hhead := List.head?_dropWhile_not isBlank s
        rw [hleft] at htail
        rw [← htail] at hhead
        have hc : isBlank c = false := by simpa using hhead
        rw [List.dropWhile_cons, hc]
        rfl
  rw [trim_eq (trim s), hfront, trim_eq, List.rdropWhile_idempotent]

/-- A text that is cut consists of the two parts and the separator, which the first part does not hold. -/
theorem eq_of_cut {sep : Char} {s before after : List Char} (h : cut sep s = some (before, after)) :
    s = before ++ sep :: after ∧ sep ∉ before := by
  induction s generalizing before with
  | nil => cases h
  | cons c rest ih =>
      rw [cut] at h
      split at h
      · rename_i hc
        obtain ⟨rfl, rfl⟩ := Prod.mk.inj (Option.some.inj h)
        exact ⟨by rw [hc, List.nil_append], List.not_mem_nil⟩
      · rename_i hc
        obtain ⟨p, hp, heq⟩ := Option.map_eq_some_iff.1 h
        obtain ⟨rfl, rfl⟩ := Prod.mk.inj heq
        obtain ⟨hrest, hsep⟩ := ih hp
        refine ⟨by rw [hrest, List.cons_append], fun hmem => ?_⟩
        rcases List.mem_cons.1 hmem with rfl | hmem
        · exact hc rfl
        · exact hsep hmem

end Text

namespace Condition

/-- The tests that a variant key can ask for. -/
inductive IsKeyTest : Condition → Prop where
  | intro {name : String} {values : List String} (htrimmed : Text.trim name.toList = name.toList)
      (hcomma : ',' ∉ name.toList) (hequals : '=' ∉ name.toList) (hne : values ≠ [])
      (hvalues : ∀ v ∈ values, '|' ∉ v.toList ∧ ',' ∉ v.toList) : IsKeyTest (.property name values)

/-- One such test, or a conjunction of any number of them. -/
inductive IsKeyCondition : Condition → Prop where
  | test {c : Condition} (hc : IsKeyTest c) : IsKeyCondition c
  | all {cs : List Condition} (hcs : ∀ c ∈ cs, IsKeyTest c) : IsKeyCondition (.all cs)

theorem isKeyTest_of_segment {segment : List Char} (hcomma : ',' ∉ segment) {c : Condition}
    (h : ofSegment? segment = some c) : IsKeyTest c := by
  obtain ⟨p, hcut, rfl⟩ := Option.map_eq_some_iff.1 h
  obtain ⟨hsegment, hequals⟩ := Text.eq_of_cut hcut
  have hparts : ∀ c', c' ∈ p.1 ∨ c' ∈ p.2 → c' ∈ segment := by
    intro c' hc'
    rw [hsegment, List.mem_append, List.mem_cons]
    exact hc'.elim .inl fun hc' => .inr (.inr hc')
  refine .intro ?_ ?_ ?_ ?_ fun v hv => ?_
  · rw [String.toList_ofList, Text.trim_trim]
  · rw [String.toList_ofList]
    exact fun hmem => hcomma (hparts _ (.inl (Text.mem_of_mem_trim hmem)))
  · rw [String.toList_ofList]
    exact fun hmem => hequals (Text.mem_of_mem_trim hmem)
  · exact fun hnil => Text.pieces_ne_nil _ _ (List.map_eq_nil_iff.1 hnil)
  · obtain ⟨piece, hpiece, rfl⟩ := List.mem_map.1 hv
    rw [String.toList_ofList] at hpiece ⊢
    refine ⟨fun hbar => (Text.mem_of_mem_pieces hpiece hbar).2 rfl, fun hmem => ?_⟩
    exact hcomma (hparts _ (.inr (Text.mem_of_mem_trim (Text.mem_of_mem_pieces hpiece hmem).1)))

/-- Segments without an equals sign ask for nothing, and the others for one test each. -/
theorem isKeyCondition_ofKey (key : String) : (ofKey key).IsKeyCondition := by
  have htests : ∀ c ∈ (Text.pieces ',' key.toList).filterMap ofSegment?, IsKeyTest c := by
    intro c hc
    obtain ⟨segment, hsegment, hof⟩ := List.mem_filterMap.1 hc
    exact isKeyTest_of_segment (fun hcomma => (Text.mem_of_mem_pieces hsegment hcomma).2 rfl) hof
  rw [ofKey]
  rcases hcs : (Text.pieces ',' key.toList).filterMap ofSegment? with _ | ⟨c, _ | ⟨d, rest⟩⟩ <;> rw [hcs] at htests
  · exact .all htests
  · exact .test (htests c List.mem_cons_self)
  · exact .all htests

end Condition

end BlockModel
