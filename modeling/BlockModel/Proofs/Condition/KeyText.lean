import BlockModel.Proofs.Condition.Evaluation
import BlockModel.Proofs.Condition.Key

/-! Variant keys as they are written. An entry is a name and the text of its values; it is written with an equals sign
between the two and any blanks around either, and segments without an equals sign may stand between the entries, in
front of them and behind them. Such a key is the conjunction of the tests of its entries, in their order, and nothing
else about the text makes a difference. -/

namespace BlockModel

namespace Text

/-- A text that has no blank at either end; it may be empty. -/
structure IsTrimmed (s : List Char) : Prop where
  front : ∀ c ∈ s.head?, isBlank c = false
  back : ∀ c ∈ s.getLast?, isBlank c = false

instance (s : List Char) : Decidable (IsTrimmed s) :=
  decidable_of_iff (s.head?.all (!isBlank ·) = true ∧ s.getLast?.all (!isBlank ·) = true) <| by
    simp only [Option.all_eq_true, Bool.not_eq_true']
    exact ⟨fun h => ⟨h.1, h.2⟩, fun h => ⟨h.front, h.back⟩⟩

/-- A text of any number of blanks. -/
def IsPadding (s : List Char) : Prop := ∀ c ∈ s, isBlank c = true

instance (s : List Char) : Decidable (IsPadding s) := decidable_of_iff (s.all isBlank = true) List.all_eq_true

theorem IsPadding.not_mem {s : List Char} (h : IsPadding s) {c : Char} (hc : isBlank c = false) : c ∉ s := by
  intro hmem
  rw [h c hmem] at hc
  cases hc

theorem dropWhile_padding {w s : List Char} (hw : IsPadding w) (hs : ∀ c ∈ s.head?, isBlank c = false) :
    (w ++ s).dropWhile isBlank = s := by
  rw [List.dropWhile_append_of_pos hw]
  cases s with
  | nil => rfl
  | cons c rest => rw [List.dropWhile_cons_of_neg (by simpa using hs)]

/-- What stands between the blanks is found again. -/
theorem trim_padded {w s w' : List Char} (hw : IsPadding w) (hs : IsTrimmed s) (hw' : IsPadding w') :
    trim (w ++ (s ++ w')) = s := by
  cases hempty : s with
  | nil =>
      have hall : (w ++ w').dropWhile isBlank = [] :=
        List.dropWhile_eq_nil_iff.2 fun c hc => (List.mem_append.1 hc).elim (hw c) (hw' c)
      rw [List.nil_append, trim, hall]
      rfl
  | cons c rest =>
      have hhead : ∀ c ∈ (s ++ w').head?, isBlank c = false := by
        rw [hempty, List.cons_append, List.head?_cons, ← List.head?_cons (l := rest), ← hempty]
        exact hs.front
      have hlast : ∀ c ∈ s.reverse.head?, isBlank c = false := by
        rw [List.head?_reverse]
        exact hs.back
      have hback : IsPadding w'.reverse := fun c hc => hw' c (List.mem_reverse.1 hc)
      rw [← hempty, trim, dropWhile_padding hw hhead, List.reverse_append, dropWhile_padding hback hlast,
        List.reverse_reverse]

theorem cut_append {sep : Char} {s : List Char} (h : sep ∉ s) (t : List Char) :
    cut sep (s ++ sep :: t) = some (s, t) := by
  induction s with
  | nil => rw [List.nil_append, cut, if_pos rfl]
  | cons c rest ih =>
      simp only [List.mem_cons, not_or] at h
      rw [List.cons_append, cut, if_neg (Ne.symm h.1), ih h.2]
      rfl

end Text

namespace Condition

/-- What one segment of a key asks for: a name, and the text of the values with `|` between them. -/
structure Entry where
  name : String
  value : String

/-- The entries that can be written: what separates the parts of a key stands in neither text, though a value may have
equals signs, and neither has blanks at its ends. -/
structure Entry.IsSound (e : Entry) : Prop where
  nameComma : ',' ∉ e.name.toList
  nameEquals : '=' ∉ e.name.toList
  nameTrimmed : Text.IsTrimmed e.name.toList
  valueComma : ',' ∉ e.value.toList
  valueTrimmed : Text.IsTrimmed e.value.toList

def Entry.test (e : Entry) : Condition := Condition.test e.name e.value

/-- The segments in which entries are written, in their order and with others anywhere between them. -/
inductive Segments : List Entry → List (List Char) → Prop where
  | nil : Segments [] []
  | other {es : List Entry} {segments : List (List Char)} {s : List Char} (hcomma : ',' ∉ s) (hequals : '=' ∉ s)
      (h : Segments es segments) : Segments es (s :: segments)
  | entry {es : List Entry} {segments : List (List Char)} {e : Entry} {w1 w2 w3 w4 : List Char} (he : e.IsSound)
      (hw1 : Text.IsPadding w1) (hw2 : Text.IsPadding w2) (hw3 : Text.IsPadding w3) (hw4 : Text.IsPadding w4)
      (h : Segments es segments) :
      Segments (e :: es) ((w1 ++ (e.name.toList ++ w2) ++ '=' :: (w3 ++ (e.value.toList ++ w4))) :: segments)

/-- Whether a key is a way to write some entries. -/
def Writes (es : List Entry) (key : String) : Prop :=
  ∃ segments, Segments es segments ∧ key = String.ofList (Text.joined [','] segments)

theorem ofSegment?_other {s : List Char} (h : '=' ∉ s) : ofSegment? s = none := by
  rw [ofSegment?, cut_eq, if_neg h]
  rfl

theorem ofSegment?_entry {e : Entry} {w1 w2 w3 w4 : List Char} (he : e.IsSound) (hw1 : Text.IsPadding w1)
    (hw2 : Text.IsPadding w2) (hw3 : Text.IsPadding w3) (hw4 : Text.IsPadding w4) :
    ofSegment? (w1 ++ (e.name.toList ++ w2) ++ '=' :: (w3 ++ (e.value.toList ++ w4))) = some e.test := by
  have hblank : Text.isBlank '=' = false := by decide
  have hfront : '=' ∉ w1 ++ (e.name.toList ++ w2) := by
    simp only [List.mem_append, not_or]
    exact ⟨hw1.not_mem hblank, he.nameEquals, hw2.not_mem hblank⟩
  rw [ofSegment?, Text.cut_append hfront, Option.map_some, Text.trim_padded hw1 he.nameTrimmed hw2,
    Text.trim_padded hw3 he.valueTrimmed hw4, String.ofList_toList, String.ofList_toList, Entry.test]

namespace Segments

variable {es : List Entry} {segments : List (List Char)}

theorem filterMap_eq (h : Segments es segments) : segments.filterMap ofSegment? = es.map Entry.test := by
  induction h with
  | nil => rfl
  | other _ hequals _ ih => rw [List.filterMap_cons_none (ofSegment?_other hequals), ih]
  | entry he hw1 hw2 hw3 hw4 _ ih =>
      rw [List.filterMap_cons_some (ofSegment?_entry he hw1 hw2 hw3 hw4), List.map_cons, ih]

theorem not_mem (h : Segments es segments) : ∀ s ∈ segments, ',' ∉ s := by
  induction h with
  | nil => exact List.forall_mem_nil _
  | other hcomma _ _ ih => exact List.forall_mem_cons.2 ⟨hcomma, ih⟩
  | entry he hw1 hw2 hw3 hw4 _ ih =>
      have hblank : Text.isBlank ',' = false := by decide
      refine List.forall_mem_cons.2 ⟨?_, ih⟩
      simp only [List.mem_append, List.mem_cons, not_or]
      exact ⟨⟨hw1.not_mem hblank, he.nameComma, hw2.not_mem hblank⟩, by decide, hw3.not_mem hblank, he.valueComma,
        hw4.not_mem hblank⟩

end Segments

theorem Writes.ofKey_eq {es : List Entry} {key : String} (h : Writes es key) : ofKey key = and (es.map Entry.test) := by
  obtain ⟨segments, hsegments, rfl⟩ := h
  rw [ofKey, String.toList_ofList, ← hsegments.filterMap_eq]
  cases segments with
  | nil => rfl
  | cons s rest => rw [Text.pieces_joined (List.cons_ne_nil s rest) hsegments.not_mem]

/-- One entry holds if its property is there with a value between the bars. -/
theorem Entry.holds_test {β : Type} [PropertyBag β] (bag : β) (e : Entry) :
    e.test.holds bag = true ↔
      ∃ v, PropertyBag.value? bag e.name = some v ∧ v.toList ∈ e.value.toList.splitOn '|' := by
  rw [test, Condition.test, holds_property, isAmong, alternatives, pieces_eq_splitOn]
  cases PropertyBag.value? bag e.name with
  | none => simp
  | some v =>
      have hpiece : v ∈ (e.value.toList.splitOn '|').map String.ofList ↔ v.toList ∈ e.value.toList.splitOn '|' := by
        rw [List.mem_map]
        refine ⟨?_, fun h => ⟨v.toList, h, String.ofList_toList⟩⟩
        rintro ⟨piece, hpiece, rfl⟩
        rwa [String.toList_ofList]
      simp [hpiece]

theorem Writes.holds_iff {es : List Entry} {key : String} (h : Writes es key) {β : Type} [PropertyBag β] (bag : β) :
    (ofKey key).holds bag = true ↔
      ∀ e ∈ es, ∃ v, PropertyBag.value? bag e.name = some v ∧ v.toList ∈ e.value.toList.splitOn '|' := by
  rw [h.ofKey_eq, and_eq_conjunction, holds_conjunction, List.all_map, List.all_eq_true]
  exact forall₂_congr fun e _ => e.holds_test bag

/-- A written key is the conjunction of the tests of its entries, whatever else stands in the text. So it holds of a
bag exactly if every name is there with one of its values, and every other way to write the entries, in any order,
holds of the same bags. -/
theorem ofKey_written {es : List Entry} {key : String} (h : Writes es key) :
    ofKey key = and (es.map fun e => Condition.test e.name e.value) ∧
    ∀ (β : Type) [PropertyBag β] (bag : β),
      ((ofKey key).holds bag = true ↔
        ∀ e ∈ es, ∃ v, PropertyBag.value? bag e.name = some v ∧ v.toList ∈ e.value.toList.splitOn '|') ∧
      ∀ (es' : List Entry) (key' : String), es'.Perm es → Writes es' key' →
        (ofKey key').holds bag = (ofKey key).holds bag := by
  refine ⟨h.ofKey_eq, fun β _ bag => ⟨h.holds_iff bag, fun es' key' hperm h' => ?_⟩⟩
  rw [Bool.eq_iff_iff, h.holds_iff bag, h'.holds_iff bag]
  exact forall_congr' fun e => by rw [hperm.mem_iff]

/-- A test with an equals sign in one of its values, and one of the property without a name. -/
def oddEntries : List Entry := [⟨"facing", "north|a=b"⟩, ⟨"", "x y|"⟩]

/-- They stand between segments that ask for nothing, with blanks of several kinds around names and values. -/
def oddKey : String := "normal, facing　= north|a=b,,	=x y|
,"

theorem writes_oddEntries : Writes oddEntries oddKey := by
  have hfacing : Entry.IsSound ⟨"facing", "north|a=b"⟩ :=
    ⟨by decide, by decide, by decide, by decide, by decide⟩
  have hunnamed : Entry.IsSound ⟨"", "x y|"⟩ :=
    ⟨by decide, by decide, by decide, by decide, by decide⟩
  have hnothing : Text.IsPadding [] := List.forall_mem_nil _
  have hblank : Text.IsPadding [' '] := by decide
  have hideographic : Text.IsPadding ['\u3000'] := by decide
  have hem : Text.IsPadding ['\u2003'] := by decide
  have hnextLine : Text.IsPadding ['\u0085'] := by decide
  have htab : Text.IsPadding ['\t'] := by decide
  have hlineFeed : Text.IsPadding ['\n'] := by decide
  have hempty {es : List Entry} {segments : List (List Char)} (h : Segments es segments) :
      Segments es ([] :: segments) :=
    .other List.not_mem_nil List.not_mem_nil h
  have hlast := Segments.entry hunnamed htab hnothing hnothing hlineFeed (hempty .nil)
  have hfirst := Segments.entry hfacing hblank hideographic hem hnextLine (hempty hlast)
  have hsegments := Segments.other (s := "normal".toList) (by decide) (by decide) hfirst
  exact ⟨_, hsegments, by decide +kernel⟩

theorem ofKey_written_oddKey :
    Writes oddEntries oddKey ∧ ofKey oddKey = .all [.property "facing" ["north", "a=b"], .property "" ["x y", ""]] ∧
    ∀ (β : Type) [PropertyBag β] (bag : β),
      ((ofKey oddKey).holds bag = true ↔
        ∀ e ∈ oddEntries, ∃ v, PropertyBag.value? bag e.name = some v ∧ v.toList ∈ e.value.toList.splitOn '|') ∧
      ∀ (es' : List Entry) (key' : String), es'.Perm oddEntries → Writes es' key' →
        (ofKey key').holds bag = (ofKey oddKey).holds bag := by
  obtain ⟨hkey, hholds⟩ := ofKey_written writes_oddEntries
  exact ⟨writes_oddEntries, hkey.trans (by decide +kernel), hholds⟩

end Condition

end BlockModel
