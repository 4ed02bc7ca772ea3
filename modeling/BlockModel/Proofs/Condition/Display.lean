import BlockModel.Condition.Display

/-! A displayed condition can be told from every other. If no name and no value has a character in it that a displayed
condition is put together with, then the text is cut at these characters in one way only: the word before the first of
them and that character say what kind of condition it is, a child ends at the next comma or closing parenthesis that is
not inside of it, and values end where the test ends. So a condition that is displayed in front of some text is known,
and so is the text behind it. -/

namespace BlockModel

namespace Text

/-- Texts without any of the marks are known, and what follows them, where that is over or goes on with a mark. -/
theorem append_inj_of_marks {marks u v s t : List Char} (hu : ∀ c ∈ u, c ∉ marks) (hv : ∀ c ∈ v, c ∉ marks)
    (hs : ∀ c ∈ s.head?, c ∈ marks) (ht : ∀ c ∈ t.head?, c ∈ marks) (h : u ++ s = v ++ t) : u = v ∧ s = t := by
  have htake : ∀ {u s : List Char}, (∀ c ∈ u, c ∉ marks) → (∀ c ∈ s.head?, c ∈ marks) →
      (u ++ s).takeWhile (· ∉ marks) = u := by
    intro u s hu hs
    rw [List.takeWhile_append_of_pos (by simpa using hu)]
    cases s with
    | nil => exact List.append_nil u
    | cons c rest => rw [List.takeWhile_cons_of_neg (by simpa using hs), List.append_nil]
  obtain rfl : u = v := by rw [← htake hu hs, h, htake hv ht]
  exact ⟨rfl, List.append_cancel_left h⟩

theorem mem_of_mem_joined {sep : List Char} {ps : List (List Char)} {c : Char} (h : c ∈ joined sep ps) :
    c ∈ sep ∨ ∃ p ∈ ps, c ∈ p := by
  induction ps with
  | nil => exact absurd h List.not_mem_nil
  | cons p more ih =>
      cases more with
      | nil => exact .inr ⟨p, List.mem_cons_self, h⟩
      | cons q more =>
          rw [joined, List.append_assoc, List.mem_append, List.mem_append] at h
          rcases h with hp | hsep | hmore
          · exact .inr ⟨p, List.mem_cons_self, hp⟩
          · exact .inl hsep
          · obtain hsep | ⟨r, hr, hc⟩ := ih hmore
            · exact .inl hsep
            · exact .inr ⟨r, List.mem_cons_of_mem p hr, hc⟩

end Text

namespace Condition

/-- The characters that a displayed condition is put together with. -/
def marks : List Char := ['=', '|', ',', '(', ')']

def IsUnmarked (s : List Char) : Prop := ∀ c ∈ s, c ∉ marks

instance (s : List Char) : Decidable (IsUnmarked s) :=
  decidable_of_iff (s.all (· ∉ marks) = true) (by simp only [IsUnmarked, List.all_eq_true, decide_eq_true_eq])

/-- Conditions in which every test has values, and no name and no value has one of these characters. -/
inductive IsPlain : Condition → Prop where
  | all {cs : List Condition} (hcs : ∀ c ∈ cs, IsPlain c) : IsPlain (.all cs)
  | any {cs : List Condition} (hcs : ∀ c ∈ cs, IsPlain c) : IsPlain (.any cs)
  | property {name : String} {values : List String} (hne : values ≠ []) (hname : IsUnmarked name.toList)
      (hvalues : ∀ v ∈ values, IsUnmarked v.toList) : IsPlain (.property name values)

/-- What a displayed condition begins with, up to its first mark. -/
def word : Condition → List Char
  | .all [] => "true".toList
  | .any [] => "false".toList
  | .all (_ :: _) => "AND".toList
  | .any (_ :: _) => "OR".toList
  | .property name _ => name.toList

/-- The rest of it, from that mark on. -/
def afterWord : Condition → List Char
  | .all [] | .any [] => []
  | .all (c :: rest) | .any (c :: rest) => '(' :: (displayChars c ++ displayMore rest)
  | .property _ values => '=' :: Text.joined ['|'] (values.map String.toList)

theorem displayMore_cons (c : Condition) (rest : List Condition) :
    displayMore (c :: rest) = ',' :: ' ' :: (displayChars c ++ displayMore rest) := rfl

theorem displayChars_eq (c : Condition) : c.displayChars = c.word ++ c.afterWord := by
  rcases c with (_ | ⟨c, rest⟩) | (_ | ⟨c, rest⟩) | ⟨name, values⟩
  · rfl
  · exact List.append_assoc "AND(".toList (displayChars c) (displayMore rest)
  · rfl
  · exact List.append_assoc "OR(".toList (displayChars c) (displayMore rest)
  · rfl

theorem IsPlain.word_unmarked {c : Condition} (h : c.IsPlain) : IsUnmarked c.word := by
  rcases c with (_ | ⟨c, rest⟩) | (_ | ⟨c, rest⟩) | ⟨name, values⟩
  · exact (by decide : IsUnmarked "true".toList)
  · exact (by decide : IsUnmarked "AND".toList)
  · exact (by decide : IsUnmarked "false".toList)
  · exact (by decide : IsUnmarked "OR".toList)
  · cases h with
    | property _ hname _ => exact hname

/-- What can stand behind a displayed condition: nothing, another child, or the end of the children. -/
def Ends (s : List Char) : Prop := ∀ c ∈ s.head?, c ∈ [',', ')']

theorem mem_marks_of_mem {c : Char} (h : c ∈ [',', ')']) : c ∈ marks := by
  simp only [List.mem_cons, List.not_mem_nil, or_false] at h
  rcases h with rfl | rfl <;> decide

theorem ends_nil : Ends [] := fun c hc => absurd hc (Option.not_mem_none c)

theorem ends_displayMore (cs : List Condition) (s : List Char) : Ends (displayMore cs ++ s) := by
  cases cs with
  | nil => exact fun c hc => Option.some.inj hc ▸ List.mem_cons_of_mem _ List.mem_cons_self
  | cons c rest => exact fun c hc => Option.some.inj hc ▸ List.mem_cons_self

/-- The mark behind the word of a condition; the empty connectives have none. -/
def opening : Condition → Option Char
  | .all [] | .any [] => none
  | .all (_ :: _) | .any (_ :: _) => some '('
  | .property _ _ => some '='

/-- Both connectives go on alike. -/
theorem opening_any (cs : List Condition) : (any cs).opening = (all cs).opening := by cases cs <;> rfl

theorem afterWord_any (cs : List Condition) : (any cs).afterWord = (all cs).afterWord := by cases cs <;> rfl

theorem word_all_ne_any (cs ds : List Condition) : (all cs).word ≠ (any ds).word := by
  rcases cs with _ | ⟨c, cs⟩ <;> rcases ds with _ | ⟨d, ds⟩
  · exact (by decide : "true".toList ≠ "false".toList)
  · exact (by decide : "true".toList ≠ "OR".toList)
  · exact (by decide : "AND".toList ≠ "false".toList)
  · exact (by decide : "AND".toList ≠ "OR".toList)

theorem opening_all_ne_property (cs : List Condition) (name : String) (values : List String) :
    (all cs).opening ≠ (property name values).opening := by
  rcases cs with _ | ⟨c, cs⟩
  · exact (Option.some_ne_none '=').symm
  · exact (by decide : some '(' ≠ some '=')

theorem head?_afterWord_append (c : Condition) (s : List Char) :
    (c.afterWord ++ s).head? = c.opening.or s.head? := by
  rcases c with (_ | ⟨c, rest⟩) | (_ | ⟨c, rest⟩) | ⟨name, values⟩ <;> rfl

/-- What stands behind a condition does not begin with such a mark. -/
theorem opening_eq (c : Condition) {s : List Char} (hs : Ends s) :
    c.opening = (c.afterWord ++ s).head?.filter (· ∉ [',', ')']) := by
  have hnone : none = s.head?.filter (· ∉ [',', ')']) :=
    (Option.filter_eq_none_iff.2 fun ch hch => by simpa [Decidable.or_iff_not_imp_left] using hs ch hch).symm
  rw [head?_afterWord_append]
  rcases c with (_ | ⟨c, rest⟩) | (_ | ⟨c, rest⟩) | ⟨name, values⟩
  · exact hnone
  · rfl
  · exact hnone
  · rfl
  · rfl

theorem Ends.afterWord {s : List Char} (h : Ends s) (c : Condition) : ∀ ch ∈ (c.afterWord ++ s).head?, ch ∈ marks := by
  have hs : ∀ ch ∈ s.head?, ch ∈ marks := fun ch hch => mem_marks_of_mem (h ch hch)
  rw [head?_afterWord_append]
  rcases c with (_ | ⟨c, rest⟩) | (_ | ⟨c, rest⟩) | ⟨name, values⟩
  · exact hs
  · exact fun ch hch => Option.some.inj hch ▸ (by decide : '(' ∈ marks)
  · exact hs
  · exact fun ch hch => Option.some.inj hch ▸ (by decide : '(' ∈ marks)
  · exact fun ch hch => Option.some.inj hch ▸ (by decide : '=' ∈ marks)

/-- The condition is known from a text that begins with it, and so is the rest of the text. -/
def IsKnown (c : Condition) : Prop :=
  ∀ {d : Condition} {s t : List Char}, d.IsPlain → Ends s → Ends t →
    c.displayChars ++ s = d.displayChars ++ t → c = d ∧ s = t

/-- Values are known in front of what stands behind the test. -/
theorem values_inj {vs ws : List String} {s t : List Char} (hvs : vs ≠ []) (hws : ws ≠ [])
    (hv : ∀ v ∈ vs, IsUnmarked v.toList) (hw : ∀ w ∈ ws, IsUnmarked w.toList) (hs : Ends s) (ht : Ends t)
    (h : Text.joined ['|'] (vs.map String.toList) ++ s = Text.joined ['|'] (ws.map String.toList) ++ t) :
    vs = ws ∧ s = t := by
  have hmember : ∀ {values : List String}, (∀ v ∈ values, IsUnmarked v.toList) →
      ∀ p ∈ values.map String.toList, IsUnmarked p := by
    intro values hvalues p hp
    obtain ⟨v, hv, rfl⟩ := List.mem_map.1 hp
    exact hvalues v hv
  have hjoined : ∀ {values : List String}, (∀ v ∈ values, IsUnmarked v.toList) →
      ∀ c ∈ Text.joined ['|'] (values.map String.toList), c ∉ [',', ')'] := by
    intro values hvalues c hc hmark
    rcases Text.mem_of_mem_joined hc with hbar | ⟨p, hp, hc⟩
    · obtain rfl := List.mem_singleton.1 hbar
      exact absurd hmark (by decide)
    · exact hmember hvalues p hp c hc (mem_marks_of_mem hmark)
  have hpieces : ∀ {values : List String}, values ≠ [] → (∀ v ∈ values, IsUnmarked v.toList) →
      Text.pieces '|' (Text.joined ['|'] (values.map String.toList)) = values.map String.toList := fun hne hvalues =>
    Text.pieces_joined (by simpa using hne) fun p hp hbar => hmember hvalues p hp '|' hbar (by decide)
  obtain ⟨htext, hrest⟩ := Text.append_inj_of_marks (hjoined hv) (hjoined hw) hs ht h
  refine ⟨?_, hrest⟩
  have hmap : vs.map String.toList = ws.map String.toList := by rw [← hpieces hvs hv, htext, hpieces hws hw]
  exact (List.map_inj_right fun _ _ => String.toList_inj.1).1 hmap

/-- Children behind the first one are known if each of them is, and their end is. -/
theorem displayMore_inj {cs ds : List Condition} {s t : List Char} (hcs : ∀ c ∈ cs, IsKnown c)
    (hds : ∀ d ∈ ds, d.IsPlain) (h : displayMore cs ++ s = displayMore ds ++ t) : cs = ds ∧ s = t := by
  induction cs generalizing ds with
  | nil =>
      cases ds with
      | nil => exact ⟨rfl, (List.cons.inj h).2⟩
      | cons d ds => exact absurd (List.cons.inj h).1 (by decide)
  | cons c cs ih =>
      cases ds with
      | nil => exact absurd (List.cons.inj h).1 (by decide)
      | cons d ds =>
          obtain ⟨hc, hmoreKnown⟩ := List.forall_mem_cons.1 hcs
          obtain ⟨hd, hmorePlain⟩ := List.forall_mem_cons.1 hds
          have hchildren : displayChars c ++ (displayMore cs ++ s) = displayChars d ++ (displayMore ds ++ t) := by
            simpa [displayMore_cons] using h
          obtain ⟨rfl, hmore⟩ := hc hd (ends_displayMore cs s) (ends_displayMore ds t) hchildren
          obtain ⟨rfl, hrest⟩ := ih hmoreKnown hmorePlain hmore
          exact ⟨rfl, hrest⟩

/-- All children are known behind the word of a connective, if it is followed by the same mark. -/
theorem children_inj {cs ds : List Condition} {s t : List Char} (hcs : ∀ c ∈ cs, IsKnown c) (hds : ∀ d ∈ ds, d.IsPlain)
    (hopening : (Condition.all cs).opening = (Condition.all ds).opening)
    (hafter : (Condition.all cs).afterWord ++ s = (Condition.all ds).afterWord ++ t) : cs = ds ∧ s = t := by
  rcases cs with _ | ⟨c, cs⟩ <;> rcases ds with _ | ⟨d, ds⟩
  · exact ⟨rfl, hafter⟩
  · cases hopening
  · cases hopening
  · refine displayMore_inj hcs hds ?_
    simpa [displayMore_cons] using (List.cons.inj hafter).2

/-- The two texts agree up to their first marks, in these marks, and behind the words. -/
theorem word_eq_of_displayChars {c d : Condition} {s t : List Char} (hc : c.IsPlain) (hd : d.IsPlain) (hs : Ends s)
    (ht : Ends t) (h : c.displayChars ++ s = d.displayChars ++ t) :
    c.word = d.word ∧ c.opening = d.opening ∧ c.afterWord ++ s = d.afterWord ++ t := by
  rw [displayChars_eq, displayChars_eq, List.append_assoc, List.append_assoc] at h
  obtain ⟨hword, hafter⟩ :=
    Text.append_inj_of_marks hc.word_unmarked hd.word_unmarked (hs.afterWord c) (ht.afterWord d) h
  exact ⟨hword, by rw [opening_eq c hs, opening_eq d ht, hafter], hafter⟩

/-- By induction on the first condition: what is known of its children carries over to it. -/
theorem isKnown_of_isPlain {c : Condition} (hc : c.IsPlain) : IsKnown c := by
  induction hc with
  | @all cs hcs ih =>
      intro d s t hd hs ht h
      obtain ⟨hword, hopening, hafter⟩ := word_eq_of_displayChars (.all hcs) hd hs ht h
      cases hd with
      | all hds =>
          obtain ⟨rfl, hrest⟩ := children_inj ih hds hopening hafter
          exact ⟨rfl, hrest⟩
      | @any ds _ => exact absurd hword (word_all_ne_any cs ds)
      | property => exact absurd hopening (opening_all_ne_property cs _ _)
  | @any cs hcs ih =>
      intro d s t hd hs ht h
      obtain ⟨hword, hopening, hafter⟩ := word_eq_of_displayChars (.any hcs) hd hs ht h
      cases hd with
      | @all ds _ => exact absurd hword.symm (word_all_ne_any ds cs)
      | any hds =>
          rw [opening_any, opening_any] at hopening
          rw [afterWord_any, afterWord_any] at hafter
          obtain ⟨rfl, hrest⟩ := children_inj ih hds hopening hafter
          exact ⟨rfl, hrest⟩
      | property =>
          rw [opening_any] at hopening
          exact absurd hopening (opening_all_ne_property cs _ _)
  | property hne hname hvalues =>
      intro d s t hd hs ht h
      obtain ⟨hword, hopening, hafter⟩ := word_eq_of_displayChars (.property hne hname hvalues) hd hs ht h
      cases hd with
      | @all ds _ => exact absurd hopening.symm (opening_all_ne_property ds _ _)
      | @any ds _ =>
          rw [opening_any] at hopening
          exact absurd hopening.symm (opening_all_ne_property ds _ _)
      | property hne' _ hvalues' =>
          obtain ⟨rfl, hrest⟩ := values_inj hne hne' hvalues hvalues' hs ht (List.cons.inj hafter).2
          obtain rfl := String.toList_inj.1 hword
          exact ⟨rfl, hrest⟩

/-- Plain conditions that are displayed alike are the same. -/
theorem display_injective {c d : Condition} (hc : c.IsPlain) (hd : d.IsPlain) (h : c.display = d.display) : c = d := by
  have hchars : c.displayChars ++ [] = d.displayChars ++ [] := by
    rw [List.append_nil, List.append_nil]
    exact String.ofList_injective h
  exact (isKnown_of_isPlain hc hd ends_nil ends_nil hchars).1

/-- A disjunction of one child, put together from a key, and a test whose name begins with a blank. -/
def nestedKey : Condition := .all [.any [ofKey " half = top|"], .property " a" [""]]

/-- The same with its parts spelled out. -/
def nestedTests : Condition := .all [.any [.property "half" ["top", ""]], .property " a" [""]]

theorem isPlain_nestedTests : nestedTests.IsPlain :=
  .all (List.forall_mem_cons.2 ⟨.any (List.forall_mem_singleton.2 (.property (by decide) (by decide) (by decide))),
    List.forall_mem_singleton.2 (.property (by decide) (by decide) (by decide))⟩)

theorem isPlain_nestedKey : nestedKey.IsPlain := by
  have hkey : ofKey " half = top|" = .property "half" ["top", ""] := by decide +kernel
  rw [nestedKey, hkey]
  exact isPlain_nestedTests

theorem display_injective_nested :
    nestedKey.IsPlain ∧ nestedTests.IsPlain ∧ nestedKey.display = nestedTests.display ∧ nestedKey = nestedTests := by
  have hdisplay : nestedKey.display = nestedTests.display := by decide +kernel
  exact ⟨isPlain_nestedKey, isPlain_nestedTests, hdisplay,
    display_injective isPlain_nestedKey isPlain_nestedTests hdisplay⟩

/-- With a comma in a value, two tests are displayed as one is. -/
example : (Condition.all [.property "a" ["1, b=2"]]).display =
    (Condition.all [.property "a" ["1"], .property "b" ["2"]]).display := by decide +kernel

end Condition

end BlockModel
