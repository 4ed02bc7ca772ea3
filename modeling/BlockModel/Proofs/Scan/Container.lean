import BlockModel.Json.Decode
import BlockModel.Proofs.Json.Form
import BlockModel.Proofs.Scan.Number

/-! Lists and objects are read as they are spelled. A reader of values is followed by what it makes of a
value, a result with the lines it reports; when its reading of every item is known, so is the reading of
a list, whatever blanks stand between. The same holds of objects, whose members are read one after
another into a state. -/

namespace BlockModel

theorem follows_nil : Follows [] := fun b hb => absurd hb (Option.not_mem_none b)

theorem follows_cons {b : UInt8} (t : List UInt8) (hdigit : Octet.isDigit b = false) (hpoint : b ≠ Octet.point)
    (hmark : Scan.isExponentMark b = false) : Follows (b :: t) := by
  intro b' hb'
  obtain rfl := Option.some.inj hb'
  exact ⟨hdigit, hpoint, hmark⟩

theorem follows_blanks {w t : List UInt8} (hw : Blanks w) (ht : Follows t) : Follows (w ++ t) := by
  cases w with
  | nil => exact ht
  | cons b w =>
      have hb := hw b (by simp)
      simp only [Octet.isBlank, Bool.or_eq_true, beq_iff_eq] at hb
      rcases hb with ((rfl | rfl) | rfl) | rfl <;>
        exact follows_cons _ (by decide) (by decide) (by decide)

theorem follows_comma (t : List UInt8) : Follows (Octet.comma :: t) :=
  follows_cons t (by decide) (by decide) (by decide)

theorem follows_closeList (t : List UInt8) : Follows (Octet.closeList :: t) :=
  follows_cons t (by decide) (by decide) (by decide)

theorem follows_closeObject (t : List UInt8) : Follows (Octet.closeObject :: t) :=
  follows_cons t (by decide) (by decide) (by decide)

theorem Spells.follows_moreItems {leaves : Leaves} {js : List Json} {r : List UInt8}
    (h : Spells leaves (.moreItems js) r) (t : List UInt8) : Follows (r ++ Octet.closeList :: t) := by
  cases h with
  | endItems hw => exact follows_blanks hw (follows_closeList t)
  | moreItems hw _ _ _ =>
      rw [List.append_assoc]
      exact follows_blanks hw (follows_comma _)

theorem Spells.follows_moreMembers {leaves : Leaves} {ms : List (String × Json)} {r : List UInt8}
    (h : Spells leaves (.moreMembers ms) r) (t : List UInt8) : Follows (r ++ Octet.closeObject :: t) := by
  cases h with
  | endMembers hw => exact follows_blanks hw (follows_closeObject t)
  | moreMembers hw _ _ _ _ _ _ =>
      rw [List.append_assoc]
      exact follows_blanks hw (follows_comma _)

namespace Scan

variable {α σ : Type} {t : List UInt8} {l : List LogLine}

/-- Every spelling of the value, after blanks and before what may follow it, is read as the result with
the lines reported on the way. -/
def ReadsAs (p : Scan α) (j : Json) (r : Except DataFault α × List LogLine) : Prop :=
  ∀ w s t l, Blanks w → Spells .exact (.value j) s → Follows t →
    Gives p ⟨w ++ (s ++ t), l⟩ r.1 ⟨t, l ++ r.2⟩

theorem gives_peekPastBlanks_value {w : List UInt8} (hw : Blanks w) {j : Json} {s : List UInt8}
    (hj : Spells .form (.value j) s) :
    ∃ b, kind? b = some j.kind ∧ Gives peekPastBlanks ⟨w ++ (s ++ t), l⟩ (.ok (some b)) ⟨s ++ t, l⟩ := by
  obtain ⟨b, r, rfl, hb⟩ := hj.kind?_head
  exact ⟨b, hb, gives_peekPastBlanks hw (not_isBlank_of_kind? hb)⟩

/-- The first octet of a value, which is then still ahead. -/
theorem gives_valueStart_value {w : List UInt8} (hw : Blanks w) {j : Json} {s : List UInt8}
    (hj : Spells .form (.value j) s) :
    ∃ b r, s = b :: r ∧ kind? b = some j.kind ∧
      Gives valueStart ⟨w ++ (s ++ t), l⟩ (.ok b) ⟨s ++ t, l⟩ := by
  obtain ⟨b, r, rfl, hb⟩ := hj.kind?_head
  exact ⟨b, r, rfl, hb, gives_valueStart hw (not_isBlank_of_kind? hb)⟩

/-- What comes of the items of a list, up to the first that is refused. -/
def readEach (f : Json → Except DataFault α × List LogLine) :
    List Json → Except DataFault (List α) × List LogLine
  | [] => (.ok [], [])
  | j :: rest =>
    match f j with
    | (.ok a, log) => ((readEach f rest).1.map (a :: ·), log ++ (readEach f rest).2)
    | (.error fault, log) => (.error fault, log)

theorem readEach_silent (f : Json → Except DataFault α) (js : List Json) :
    readEach (fun j => (f j, [])) js = (Json.each f js, []) := by
  induction js with
  | nil => rfl
  | cons j rest ih =>
      rw [readEach, Json.each, ih]
      cases f j with
      | ok a => cases Json.each f rest <;> rfl
      | error fault => rfl

/-- What stands in front of an item or a member: blanks, and a comma unless it is the first one. -/
inductive Gap : Bool → List UInt8 → Prop where
  | first {w : List UInt8} (hw : Blanks w) : Gap true w
  | next {w w' : List UInt8} (hw : Blanks w) (hw' : Blanks w') : Gap false (w ++ Octet.comma :: w')

theorem gives_hasItem_end (first : Bool) {w : List UInt8} (hw : Blanks w) :
    Gives (hasItem first) ⟨w ++ Octet.closeList :: t, l⟩ (.ok false) ⟨Octet.closeList :: t, l⟩ := by
  refine (gives_peekPastBlanks hw (by decide)).bind_ok ?_
  simp only [if_true]
  exact .pure false _

/-- There is an item wherever something else than the end of the list stands behind the gap. -/
theorem gives_hasItem {first : Bool} {gap : List UInt8} {b : UInt8} (hgap : Gap first gap)
    (hb : Octet.isBlank b = false) (hclose : b ≠ Octet.closeList) :
    Gives (hasItem first) ⟨gap ++ b :: t, l⟩ (.ok true) ⟨b :: t, l⟩ := by
  cases hgap with
  | first hw =>
      refine (gives_peekPastBlanks hw hb).bind_ok ?_
      simp only [if_neg hclose, if_true]
      exact .pure true _
  | next hw hw' =>
      rw [List.append_assoc, List.cons_append]
      refine (gives_peekPastBlanks hw (by decide)).bind_ok ?_
      simp only [if_neg (by decide : Octet.comma ≠ Octet.closeList), Bool.false_eq_true, if_false, if_true]
      refine (Gives.skip _ _).bind_ok ((gives_peekPastBlanks hw' hb).bind_ok ?_)
      simp only [if_neg hclose]
      exact .pure true _

theorem gives_hasItem_value {first : Bool} {gap s : List UInt8} {j : Json} (hgap : Gap first gap)
    (hj : Spells .form (.value j) s) : Gives (hasItem first) ⟨gap ++ (s ++ t), l⟩ (.ok true) ⟨s ++ t, l⟩ := by
  obtain ⟨b, r, rfl, hb⟩ := hj.kind?_head
  exact gives_hasItem hgap (not_isBlank_of_kind? hb) (ne_of_kind? (by decide : kind? Octet.closeList = none) hb)

theorem gives_hasItem_first {w : List UInt8} (hw : Blanks w) {j : Json} {s : List UInt8}
    (hj : Spells .form (.value j) s) : Gives (hasItem true) ⟨w ++ (s ++ t), l⟩ (.ok true) ⟨s ++ t, l⟩ :=
  gives_hasItem_value (.first hw) hj

theorem gives_hasItem_comma {w w' : List UInt8} (hw : Blanks w) (hw' : Blanks w') {j : Json} {s : List UInt8}
    (hj : Spells .form (.value j) s) :
    Gives (hasItem false) ⟨w ++ Octet.comma :: (w' ++ (s ++ t)), l⟩ (.ok true) ⟨s ++ t, l⟩ := by
  have hhas := gives_hasItem_value (t := t) (l := l) (.next hw hw') hj
  rwa [List.append_assoc, List.cons_append] at hhas

/-- One round of reading the items of a list. -/
def itemRound (item : Scan α) (sofar : List α) : Scan (List α ⊕ List α) := do
  if ← hasItem sofar.isEmpty then do
    let a ← item
    pure (.inl (a :: sofar))
  else pure (.inr sofar)

theorem items_eq (item : Scan α) : items item = List.reverse <$> loop [] (itemRound item) := rfl

section Items

variable {item : Scan α} {f : Json → Except DataFault α × List LogLine}

/-- A round that reads an item, and the items after it. -/
theorem gives_itemLoop {sofar : List α} {u s r : List UInt8} {j : Json} {js : List Json}
    (hhas : Gives (hasItem sofar.isEmpty) ⟨u, l⟩ (.ok true) ⟨s ++ (r ++ Octet.closeList :: t), l⟩)
    (hless : (r ++ Octet.closeList :: t).length < u.length) (hitem : ReadsAs item j (f j))
    (hj : Spells .exact (.value j) s) (hjs : Spells .exact (.moreItems js) r)
    (hrest : ∀ a l, Gives (loop (a :: sofar) (itemRound item)) ⟨r ++ Octet.closeList :: t, l⟩
      ((readEach f js).1.map fun as => as.reverse ++ a :: sofar)
      ⟨Octet.closeList :: t, l ++ (readEach f js).2⟩) :
    Gives (loop sofar (itemRound item)) ⟨u, l⟩
      ((readEach f (j :: js)).1.map fun as => as.reverse ++ sofar)
      ⟨Octet.closeList :: t, l ++ (readEach f (j :: js)).2⟩ := by
  have hread := hitem [] s _ l blanks_nil hj (hjs.follows_moreItems t)
  rw [List.nil_append] at hread
  rw [readEach]
  cases hf : f j with
  | mk res log =>
  rw [hf] at hread
  cases res with
  | error fault =>
      have hround : Gives (itemRound item sofar) ⟨u, l⟩ (.error fault) ⟨t, l⟩ := by
        refine hhas.bind_ok ?_
        simp only [if_true]
        exact hread.bind_error
      exact hround.loop_error
  | ok a =>
      have hround : Gives (itemRound item sofar) ⟨u, l⟩ (.ok (.inl (a :: sofar)))
          ⟨r ++ Octet.closeList :: t, l ++ log⟩ := by
        refine hhas.bind_ok ?_
        simp only [if_true]
        exact hread.bind_ok (.pure _ _)
      have hrest := hrest a (l ++ log)
      rw [List.append_assoc] at hrest
      have hmap : ((readEach f js).1.map (a :: ·)).map (fun as => as.reverse ++ sofar) =
          (readEach f js).1.map fun as => as.reverse ++ a :: sofar := by
        cases (readEach f js).1 <;> simp [Except.map]
      rw [hmap]
      exact hround.loop_next hless hrest

/-- The items after the first, from the comma or the close on. -/
theorem gives_moreItems {js : List Json} (hitem : ∀ j ∈ js, ReadsAs item j (f j)) {r : List UInt8}
    (hjs : Spells .exact (.moreItems js) r) {sofar : List α} (hsofar : sofar.isEmpty = false) :
    Gives (loop sofar (itemRound item)) ⟨r ++ Octet.closeList :: t, l⟩
      ((readEach f js).1.map fun as => as.reverse ++ sofar)
      ⟨Octet.closeList :: t, l ++ (readEach f js).2⟩ := by
  induction js generalizing r sofar l with
  | nil =>
      cases hjs with
      | endItems hw =>
          refine Gives.loop_last ((gives_hasItem_end _ hw).bind_ok ?_)
          simp only [readEach, List.append_nil]
          exact .pure _ _
  | cons j js ih =>
      cases hjs with
      | @moreItems _ _ w w' s r hw hw' hj hjs =>
          have hhas := gives_hasItem_comma (t := r ++ Octet.closeList :: t) (l := l) hw hw' hj.form
          rw [← hsofar] at hhas
          simp only [List.append_assoc, List.cons_append]
          refine gives_itemLoop hhas ?_ (hitem j (by simp)) hj hjs fun a l =>
            ih (fun j hj => hitem j (by simp [hj])) hjs rfl
          simp only [List.length_append, List.length_cons]
          omega

theorem gives_items {js : List Json} (hitem : ∀ j ∈ js, ReadsAs item j (f j)) {s : List UInt8}
    (hjs : Spells .exact (.items js) s) :
    Gives (items item) ⟨s ++ Octet.closeList :: t, l⟩ (readEach f js).1
      ⟨Octet.closeList :: t, l ++ (readEach f js).2⟩ := by
  have hloop : Gives (loop [] (itemRound item)) ⟨s ++ Octet.closeList :: t, l⟩
      ((readEach f js).1.map fun as => as.reverse ++ [])
      ⟨Octet.closeList :: t, l ++ (readEach f js).2⟩ := by
    cases hjs with
    | noItems hw =>
        refine Gives.loop_last ((gives_hasItem_end _ hw).bind_ok ?_)
        simp only [readEach, List.append_nil]
        exact .pure _ _
    | @items j js w s r hw hj hjs =>
        have hhas := gives_hasItem_first (t := r ++ Octet.closeList :: t) (l := l) hw hj.form
        simp only [List.append_assoc]
        refine gives_itemLoop hhas ?_ (hitem j (by simp)) hj hjs fun a l =>
          gives_moreItems (fun j hj => hitem j (by simp [hj])) hjs rfl
        obtain ⟨b, s', rfl, -⟩ := hj.form.kind?_head
        simp only [List.length_append, List.length_cons]
        omega
  have hreverse : List.reverse <$> ((readEach f js).1.map fun as => as.reverse ++ []) = (readEach f js).1 := by
    cases (readEach f js).1 <;> simp [Except.map, Functor.map]
  rw [items_eq, ← hreverse]
  exact hloop.map List.reverse

end Items

theorem gives_closeList : Gives closeList ⟨Octet.closeList :: t, l⟩ (.ok ()) ⟨t, l⟩ := by
  refine (gives_peekPastBlanks blanks_nil (by decide)).bind_ok ?_
  simp only [if_true]
  exact .skip _ t

theorem gives_closePlaces {w : List UInt8} (hw : Blanks w) :
    Gives closePlaces ⟨w ++ Octet.closeList :: t, l⟩ (.ok ()) ⟨t, l⟩ := by
  refine (gives_peekPastBlanks hw (by decide)).bind_ok ?_
  simp only [if_true]
  exact .skip _ t

theorem gives_closeObject : Gives closeObject ⟨Octet.closeObject :: t, l⟩ (.ok ()) ⟨t, l⟩ := by
  refine (gives_peekPastBlanks blanks_nil (by decide)).bind_ok ?_
  simp only [if_true]
  exact .skip _ t

theorem gives_inList {inside : Scan α} {s : List UInt8} {r : Except DataFault α} {l' : List LogLine}
    (hinside : Gives inside ⟨s ++ Octet.closeList :: t, l⟩ r ⟨Octet.closeList :: t, l'⟩) :
    Gives (inList inside) ⟨Octet.openList :: (s ++ [Octet.closeList]) ++ t, l⟩ r ⟨t, l'⟩ := by
  rw [List.cons_append, List.append_assoc, List.singleton_append]
  exact (Gives.skip _ _).bind_ok (hinside.enclosed gives_closeList)

theorem gives_inObject {inside : Scan α} {s : List UInt8} {r : Except DataFault α} {l' : List LogLine}
    (hinside : Gives inside ⟨s ++ Octet.closeObject :: t, l⟩ r ⟨Octet.closeObject :: t, l'⟩) :
    Gives (inObject inside) ⟨Octet.openObject :: (s ++ [Octet.closeObject]) ++ t, l⟩ r ⟨t, l'⟩ := by
  rw [List.cons_append, List.append_assoc, List.singleton_append]
  exact (Gives.skip _ _).bind_ok (hinside.enclosed gives_closeObject)

/-- What comes of the members of an object, read one after another into a state. -/
def readMembers (g : σ → String → Json → Except DataFault σ × List LogLine) :
    σ → List (String × Json) → Except DataFault σ × List LogLine
  | s, [] => (.ok s, [])
  | s, (key, j) :: rest =>
    match g s key j with
    | (.ok s', log) => ((readMembers g s' rest).1, log ++ (readMembers g s' rest).2)
    | (.error fault, log) => (.error fault, log)

/-- What a reader does with a member whose key was read, from the colon on. -/
def ReadsMember (member : Scan σ) (j : Json) (r : Except DataFault σ × List LogLine) : Prop :=
  ∀ w1 w2 s t l, Blanks w1 → Blanks w2 → Spells .exact (.value j) s → Follows t →
    Gives member ⟨w1 ++ Octet.colon :: (w2 ++ (s ++ t)), l⟩ r.1 ⟨t, l ++ r.2⟩

theorem gives_colon {w : List UInt8} (hw : Blanks w) :
    Gives colon ⟨w ++ Octet.colon :: t, l⟩ (.ok ()) ⟨t, l⟩ := by
  refine (gives_peekPastBlanks hw (by decide)).bind_ok ?_
  simp only [if_true]
  exact .skip _ t

/-- The colon, and then the value. -/
theorem ReadsAs.readsMember {value : Scan α} {j : Json} {r : Except DataFault α × List LogLine}
    (hvalue : ReadsAs value j r) (g : α → σ) :
    ReadsMember (do colon; let a ← value; pure (g a)) j (g <$> r.1, r.2) := by
  intro w1 w2 s t l hw1 hw2 hj ht
  exact (gives_colon hw1).bind_ok ((hvalue w2 s t l hw2 hj ht).map g)

theorem gives_hasMember_end (first : Bool) {w : List UInt8} (hw : Blanks w) :
    Gives (hasMember first) ⟨w ++ Octet.closeObject :: t, l⟩ (.ok false) ⟨Octet.closeObject :: t, l⟩ := by
  refine (gives_peekPastBlanks hw (by decide)).bind_ok ?_
  simp only [if_true]
  exact .pure false _

theorem exact_string_head {key : String} {k : List UInt8} (hk : Leaves.exact.string key k) :
    ∃ r, k = Octet.quote :: r := by
  obtain ⟨body, -, rfl⟩ := hk
  exact ⟨_, rfl⟩

/-- There is a member wherever a key begins behind the gap. -/
theorem gives_hasMember_quote {first : Bool} {gap r : List UInt8} (hgap : Gap first gap) :
    Gives (hasMember first) ⟨gap ++ Octet.quote :: r, l⟩ (.ok true) ⟨Octet.quote :: r, l⟩ := by
  cases hgap with
  | first hw =>
      refine (gives_peekPastBlanks hw (by decide)).bind_ok ?_
      simp only [if_neg (by decide : Octet.quote ≠ Octet.closeObject), if_true]
      exact .pure true _
  | next hw hw' =>
      rw [List.append_assoc, List.cons_append]
      refine (gives_peekPastBlanks hw (by decide)).bind_ok ?_
      simp only [if_neg (by decide : Octet.comma ≠ Octet.closeObject), Bool.false_eq_true, if_false, if_true]
      refine (Gives.skip _ _).bind_ok ((gives_peekPastBlanks hw' (by decide)).bind_ok ?_)
      simp only [if_true]
      exact .pure true _

theorem gives_hasMember {first : Bool} {gap k : List UInt8} {key : String} (hgap : Gap first gap)
    (hk : Leaves.exact.string key k) :
    Gives (hasMember first) ⟨gap ++ (k ++ t), l⟩ (.ok true) ⟨k ++ t, l⟩ := by
  obtain ⟨r, rfl⟩ := exact_string_head hk
  exact gives_hasMember_quote hgap

theorem gives_hasMember_first {w : List UInt8} (hw : Blanks w) {key : String} {k : List UInt8}
    (hk : Leaves.exact.string key k) :
    Gives (hasMember true) ⟨w ++ (k ++ t), l⟩ (.ok true) ⟨k ++ t, l⟩ :=
  gives_hasMember (.first hw) hk

theorem gives_hasMember_comma {w w' : List UInt8} (hw : Blanks w) (hw' : Blanks w') {key : String}
    {k : List UInt8} (hk : Leaves.exact.string key k) :
    Gives (hasMember false) ⟨w ++ Octet.comma :: (w' ++ (k ++ t)), l⟩ (.ok true) ⟨k ++ t, l⟩ := by
  have hhas := gives_hasMember (t := t) (l := l) (.next hw hw') hk
  rwa [List.append_assoc, List.cons_append] at hhas

/-- One round of reading the members of an object. -/
def memberRound (member : σ → String → Scan σ) (state : Bool × σ) : Scan (Bool × σ ⊕ σ) := do
  if ← hasMember state.1 then do
    let k ← quoted
    let s ← member state.2 k
    pure (.inl (false, s))
  else pure (.inr state.2)

theorem members_eq (init : σ) (member : σ → String → Scan σ) :
    members init member = loop (true, init) (memberRound member) := rfl

section Members

variable {member : σ → String → Scan σ} {g : σ → String → Json → Except DataFault σ × List LogLine}

/-- A round that reads a member, and the members after it. -/
theorem gives_memberLoop {first : Bool} {state : σ} {u k w1 w2 s r : List UInt8} {key : String} {j : Json}
    {ms : List (String × Json)}
    (hhas : Gives (hasMember first) ⟨u, l⟩ (.ok true)
      ⟨k ++ (w1 ++ Octet.colon :: (w2 ++ (s ++ (r ++ Octet.closeObject :: t)))), l⟩)
    (hless : (r ++ Octet.closeObject :: t).length < u.length)
    (hmember : ReadsMember (member state key) j (g state key j)) (hk : Leaves.exact.string key k)
    (hw1 : Blanks w1) (hw2 : Blanks w2) (hj : Spells .exact (.value j) s)
    (hms : Spells .exact (.moreMembers ms) r)
    (hrest : ∀ state l, Gives (loop (false, state) (memberRound member)) ⟨r ++ Octet.closeObject :: t, l⟩
      (readMembers g state ms).1 ⟨Octet.closeObject :: t, l ++ (readMembers g state ms).2⟩) :
    Gives (loop (first, state) (memberRound member)) ⟨u, l⟩ (readMembers g state ((key, j) :: ms)).1
      ⟨Octet.closeObject :: t, l ++ (readMembers g state ((key, j) :: ms)).2⟩ := by
  have hread := hmember w1 w2 s _ l hw1 hw2 hj (hms.follows_moreMembers t)
  unfold readMembers
  cases hg : g state key j with
  | mk res log =>
  rw [hg] at hread
  cases res with
  | error fault =>
      have hround : Gives (memberRound member (first, state)) ⟨u, l⟩ (.error fault) ⟨t, l⟩ := by
        refine hhas.bind_ok ?_
        simp only [if_true]
        exact (gives_quoted hk).bind_ok hread.bind_error
      exact hround.loop_error
  | ok state' =>
      have hround : Gives (memberRound member (first, state)) ⟨u, l⟩ (.ok (.inl (false, state')))
          ⟨r ++ Octet.closeObject :: t, l ++ log⟩ := by
        refine hhas.bind_ok ?_
        simp only [if_true]
        exact (gives_quoted hk).bind_ok (hread.bind_ok (.pure _ _))
      have hrest := hrest state' (l ++ log)
      rw [List.append_assoc] at hrest
      exact hround.loop_next hless hrest

theorem gives_moreMembers {ms : List (String × Json)}
    (hmember : ∀ m ∈ ms, ∀ state, ReadsMember (member state m.1) m.2 (g state m.1 m.2)) {r : List UInt8}
    (hms : Spells .exact (.moreMembers ms) r) (state : σ) :
    Gives (loop (false, state) (memberRound member)) ⟨r ++ Octet.closeObject :: t, l⟩ (readMembers g state ms).1
      ⟨Octet.closeObject :: t, l ++ (readMembers g state ms).2⟩ := by
  induction ms generalizing r state l with
  | nil =>
      cases hms with
      | endMembers hw =>
          refine Gives.loop_last ((gives_hasMember_end _ hw).bind_ok ?_)
          simp only [readMembers, List.append_nil]
          exact .pure _ _
  | cons m ms ih =>
      cases hms with
      | @moreMembers key j _ w w' k w1 w2 s r hw hw' hk hw1 hw2 hj hms =>
          simp only [List.append_assoc, List.cons_append]
          refine gives_memberLoop (gives_hasMember_comma hw hw' hk) ?_ (hmember (key, j) (by simp) state) hk
            hw1 hw2 hj hms fun state l => ih (fun m hm => hmember m (by simp [hm])) hms state
          simp only [List.length_append, List.length_cons]
          omega

theorem gives_members {ms : List (String × Json)}
    (hmember : ∀ m ∈ ms, ∀ state, ReadsMember (member state m.1) m.2 (g state m.1 m.2)) {s : List UInt8}
    (hms : Spells .exact (.members ms) s) (init : σ) :
    Gives (members init member) ⟨s ++ Octet.closeObject :: t, l⟩ (readMembers g init ms).1
      ⟨Octet.closeObject :: t, l ++ (readMembers g init ms).2⟩ := by
  rw [members_eq]
  cases hms with
  | noMembers hw =>
      refine Gives.loop_last ((gives_hasMember_end _ hw).bind_ok ?_)
      simp only [readMembers, List.append_nil]
      exact .pure _ _
  | @members key j ms w k w1 w2 s r hw hk hw1 hw2 hj hms =>
      simp only [List.append_assoc, List.cons_append]
      refine gives_memberLoop (gives_hasMember_first hw hk) ?_ (hmember (key, j) (by simp) init) hk hw1 hw2 hj
        hms fun state l => gives_moreMembers (fun m hm => hmember m (by simp [hm])) hms state
      simp only [List.length_append, List.length_cons]
      omega

end Members

end Scan

end BlockModel
