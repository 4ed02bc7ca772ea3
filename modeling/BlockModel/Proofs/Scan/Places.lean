import BlockModel.Proofs.Scan.Typed

/-! Lists with a fixed number of places. As many items are read as the list has, up to the number of places;
an item after the last place makes the text fail, whatever it is. That failure is one of the grammar and not
of the shape, so it has a relation of its own. -/

namespace BlockModel.Scan

variable {α β γ : Type} {v v' : View} {t : List UInt8} {l : List LogLine}

/-- From every cursor with the view the plan fails. -/
def Fails (p : Scan α) (v : View) : Prop :=
  ∀ c : Cursor, c.view = v → ∃ e c', p.run .document c = (.error e, c')

theorem Fails.refuse (place : Place) (fault : GrammarFault) (v : View) :
    Fails (Scan.refuse place fault : Scan α) v :=
  fun c _ => ⟨_, c, rfl⟩

theorem Fails.bind {p : Scan β} (h : Fails p v) (k : β → Scan α) : Fails (p >>= k) v := by
  intro c hc
  obtain ⟨e, c', hrun⟩ := h c hc
  exact ⟨e, c', run_bind_error hrun⟩

theorem Gives.bind_fails {p : Scan β} {k : β → Scan α} {b : β} (hp : Gives p v (.ok b) v')
    (hk : Fails (k b) v') : Fails (p >>= k) v := by
  intro c hc
  obtain ⟨c', hrun, hc'⟩ := hp c hc
  rw [run_bind_ok hrun]
  exact hk c' hc'

/-- Whatever the inside comes to, a close that fails makes the whole fail. -/
theorem Gives.enclosed_fails {inside : Scan α} {close : Scan Unit} {r : Except DataFault α}
    (hinside : Gives inside v r v') (hclose : Fails close v') : Fails (Scan.enclosed inside close) v := by
  intro c hc
  cases r with
  | ok a =>
      obtain ⟨c', hrun, hc'⟩ := hinside c hc
      obtain ⟨e, c'', hrun'⟩ := hclose c' hc'
      exact ⟨e, c'', by rw [run, hrun]; simp only [hrun']⟩
  | error fault =>
      obtain ⟨e, c', hrun, -⟩ := hinside c hc
      rw [run, hrun]
      simp only
      split
      · exact ⟨_, _, rfl⟩
      · exact ⟨_, _, rfl⟩

theorem Fails.runOn {p : Scan α} {octets : List UInt8} (h : Fails p ⟨octets, []⟩) :
    ∃ e c, p.runOn .document octets = (.error e, c) :=
  h (.ofOctets octets) rfl

theorem gives_place?_end (first : Bool) (item : Scan α) {w : List UInt8} (hw : Blanks w) :
    Gives (place? first item) ⟨w ++ Octet.closeList :: t, l⟩ (.ok none) ⟨Octet.closeList :: t, l⟩ := by
  refine (gives_hasItem_end first hw).bind_ok ?_
  simp only [Bool.false_eq_true, if_false]
  exact .pure none _

/-- An item, once it is known that there is one. -/
theorem gives_place?_item {first : Bool} {item : Scan α} {u s : List UInt8} {j : Json}
    {r : Except DataFault α × List LogLine}
    (hhas : Gives (hasItem first) ⟨u, l⟩ (.ok true) ⟨s ++ t, l⟩) (hitem : ReadsAs item j r)
    (hj : Spells .exact (.value j) s) (ht : Follows t) :
    Gives (place? first item) ⟨u, l⟩ (some <$> r.1) ⟨t, l ++ r.2⟩ := by
  refine hhas.bind_ok ?_
  simp only [if_true]
  exact (hitem [] s t l blanks_nil hj ht).map some

/-- What a place of a list gives, from the item that stands there. -/
def readPlace (f : Json → Except DataFault α × List LogLine) : Option Json → Except DataFault (Option α) × List LogLine
  | none => (.ok none, [])
  | some j => (some <$> (f j).1, (f j).2)

section Place

variable {p : Scan α} {f : Json → Except DataFault α × List LogLine} {js : List Json} {s : List UInt8}

/-- The first place is read, and the text goes on behind its item, where there may be more. -/
theorem gives_place?_first (hp : ∀ j ∈ js, ReadsAs p j (f j)) (hjs : Spells .exact (.items js) s) :
    ∃ rest, Spells .exact (.moreItems (js.drop 1)) rest ∧
      Gives (place? true p) ⟨s ++ Octet.closeList :: t, l⟩ (readPlace f js[0]?).1
        ⟨rest ++ Octet.closeList :: t, l ++ (readPlace f js[0]?).2⟩ := by
  cases hjs with
  | noItems hw =>
      refine ⟨[], .endItems blanks_nil, ?_⟩
      rw [List.getElem?_nil, readPlace, List.append_nil]
      exact gives_place?_end true p hw
  | @items j js w s r hw hj hjs =>
      refine ⟨r, hjs, ?_⟩
      simp only [List.append_assoc]
      exact gives_place?_item (gives_hasItem_first hw hj.form) (hp j List.mem_cons_self) hj (hjs.follows_moreItems t)

theorem gives_place?_next {n : Nat} (hp : ∀ j ∈ js, ReadsAs p j (f j))
    (hjs : Spells .exact (.moreItems (js.drop n)) s) :
    ∃ rest, Spells .exact (.moreItems (js.drop (n + 1))) rest ∧
      Gives (place? false p) ⟨s ++ Octet.closeList :: t, l⟩ (readPlace f js[n]?).1
        ⟨rest ++ Octet.closeList :: t, l ++ (readPlace f js[n]?).2⟩ := by
  have hmem : ∀ j ∈ js.drop n, ReadsAs p j (f j) := fun j hj => hp j (List.mem_of_mem_drop hj)
  rw [← List.head?_drop, ← List.tail_drop]
  generalize js.drop n = js at hjs hmem ⊢
  cases hjs with
  | endItems hw =>
      refine ⟨[], .endItems blanks_nil, ?_⟩
      rw [List.head?_nil, readPlace, List.append_nil]
      exact gives_place?_end false p hw
  | @moreItems j js w w' s r hw hw' hj hjs =>
      refine ⟨r, hjs, ?_⟩
      simp only [List.append_assoc, List.cons_append]
      exact gives_place?_item (gives_hasItem_comma hw hw' hj.form) (hmem j List.mem_cons_self) hj
        (hjs.follows_moreItems t)

end Place

theorem fails_closePlaces {j : Json} {js : List Json} {rest : List UInt8}
    (h : Spells .exact (.moreItems (j :: js)) rest) :
    Fails closePlaces ⟨rest ++ Octet.closeList :: t, l⟩ := by
  cases h with
  | @moreItems _ _ w w' s r hw hw' hj _ =>
      obtain ⟨b, hb, hpeek⟩ := gives_peekPastBlanks_value (t := r ++ Octet.closeList :: t) (l := l) hw' hj.form
      simp only [List.append_assoc, List.cons_append]
      refine (gives_peekPastBlanks hw (by decide)).bind_fails ?_
      simp only [if_neg (by decide : Octet.comma ≠ Octet.closeList), if_true]
      refine (Gives.skip _ _).bind_fails ?_
      refine (hpeek.attempt_ok.bind_ok (.pure (some b) _)).bind_fails ?_
      simp only [if_neg (ne_of_kind? (by decide : kind? Octet.closeList = none) hb)]
      exact .refuse _ _ _

section Ends

variable {inside : Scan α} {s rest : List UInt8} {r : Except DataFault α} {l' : List LogLine}

/-- All items were in the places. -/
theorem gives_inPlaces (hrest : Spells .exact (.moreItems []) rest)
    (hinside : Gives inside ⟨s ++ Octet.closeList :: t, l⟩ r ⟨rest ++ Octet.closeList :: t, l'⟩) :
    Gives (inPlaces inside) ⟨Octet.openList :: (s ++ [Octet.closeList]) ++ t, l⟩ r ⟨t, l'⟩ := by
  rw [List.cons_append, List.append_assoc, List.singleton_append]
  cases hrest with
  | endItems hw => exact (Gives.skip _ _).bind_ok (hinside.enclosed (gives_closePlaces hw))

/-- There is an item behind the last place. -/
theorem fails_inPlaces {js : List Json} (hrest : Spells .exact (.moreItems js) rest) (hmore : js ≠ [])
    (hinside : Gives inside ⟨s ++ Octet.closeList :: t, l⟩ r ⟨rest ++ Octet.closeList :: t, l'⟩) :
    Fails (inPlaces inside) ⟨Octet.openList :: (s ++ [Octet.closeList]) ++ t, l⟩ := by
  rw [List.cons_append, List.append_assoc, List.singleton_append]
  cases js with
  | nil => exact absurd rfl hmore
  | cons j js => exact (Gives.skip _ _).bind_fails (hinside.enclosed_fails (fails_closePlaces hrest))

end Ends

/-- What a list with two places gives. -/
def readPair (f : Json → Except DataFault α × List LogLine) (g : Json → Except DataFault β × List LogLine) :
    List Json → Except DataFault (Option α × Option β) × List LogLine
  | [] => (.ok (none, none), [])
  | [j] => ((fun a => (some a, none)) <$> (f j).1, (f j).2)
  | j :: k :: _ => ((do let a ← (f j).1; let b ← (g k).1; pure (some a, some b)), (f j).2 ++ (g k).2)

theorem readPair_eq_readPlace (f : Json → Except DataFault α × List LogLine)
    (g : Json → Except DataFault β × List LogLine) (js : List Json) :
    readPair f g js = ((do let a ← (readPlace f js[0]?).1; let b ← (readPlace g js[1]?).1; pure (a, b)),
      (readPlace f js[0]?).2 ++ (readPlace g js[1]?).2) := by
  rcases js with _ | ⟨j, _ | ⟨k, js⟩⟩
  · rfl
  · simp only [readPair, readPlace, List.getElem?_cons_zero, List.getElem?_cons_succ, List.getElem?_nil,
      List.append_nil]
    cases (f j).1 <;> rfl
  · simp only [readPair, readPlace, List.getElem?_cons_zero, List.getElem?_cons_succ]
    cases (f j).1 with
    | error fault => rfl
    | ok a => cases (g k).1 <;> rfl

/-- The plan of a list with two places, without its brackets. -/
def pair (p : Scan α) (q : Scan β) (h : Option α → Option β → γ) : Scan γ := do
  let a ← place? true p
  let b ← place? false q
  pure (h a b)

section Pair

variable {p : Scan α} {q : Scan β} {f : Json → Except DataFault α × List LogLine}
  {g : Json → Except DataFault β × List LogLine} {js : List Json} {s : List UInt8}

/-- Both places are read, and the text goes on behind the second item. -/
theorem gives_pair (hp : ∀ j ∈ js, ReadsAs p j (f j)) (hq : ∀ j ∈ js, ReadsAs q j (g j))
    (hjs : Spells .exact (.items js) s) (h : Option α → Option β → γ) :
    ∃ rest, Spells .exact (.moreItems (js.drop 2)) rest ∧
      Gives (pair p q h) ⟨s ++ Octet.closeList :: t, l⟩ ((fun r => h r.1 r.2) <$> (readPair f g js).1)
        ⟨rest ++ Octet.closeList :: t, l ++ (readPair f g js).2⟩ := by
  obtain ⟨r, hr, hfirst⟩ := gives_place?_first (t := t) (l := l) hp hjs
  obtain ⟨r', hr', hsecond⟩ := gives_place?_next (t := t) (l := l ++ (readPlace f js[0]?).2) hq hr
  refine ⟨r', hr', ?_⟩
  rw [readPair_eq_readPlace, ← List.append_assoc, map_bind]
  refine hfirst.bind fun a _ => ?_
  rw [map_bind]
  exact hsecond.bind fun b _ => .pure (h a b) _

/-- A list of at most two items is read through. -/
theorem readsList_pair (hp : ∀ j ∈ js, ReadsAs p j (f j)) (hq : ∀ j ∈ js, ReadsAs q j (g j))
    (hlength : js.length ≤ 2) (h : Option α → Option β → γ) :
    ReadsList (inPlaces (pair p q h)) js ((fun r => h r.1 r.2) <$> (readPair f g js).1, (readPair f g js).2) := by
  intro s t l hjs
  obtain ⟨rest, hrest, hpair⟩ := gives_pair (t := t) (l := l) hp hq hjs h
  rw [List.drop_eq_nil_of_le hlength] at hrest
  exact gives_inPlaces hrest hpair

/-- Any longer list fails. -/
theorem fails_pair (hp : ∀ j ∈ js, ReadsAs p j (f j)) (hq : ∀ j ∈ js, ReadsAs q j (g j))
    (hlength : 2 < js.length) (hjs : Spells .exact (.items js) s) (h : Option α → Option β → γ) :
    Fails (inPlaces (pair p q h)) ⟨Octet.openList :: (s ++ [Octet.closeList]) ++ t, l⟩ := by
  obtain ⟨rest, hrest, hpair⟩ := gives_pair (t := t) (l := l) hp hq hjs h
  exact fails_inPlaces hrest (mt List.drop_eq_nil_iff.1 (Nat.not_le.2 hlength)) hpair

end Pair

end BlockModel.Scan
