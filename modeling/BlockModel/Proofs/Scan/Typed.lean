import BlockModel.Proofs.Json.Decode
import BlockModel.Proofs.Scan.Container

/-! Values of a kind that is asked for. On a list or an object the reader for that kind goes to work; every
other value is refused, by the same fault as JSON that was read whole. Objects whose members each add
something to what was gathered before are read into a list. -/

namespace BlockModel.Scan

variable {α : Type} {t : List UInt8} {l : List LogLine}

/-- A reader that begins at the bracket of a list. -/
def ReadsList (p : Scan α) (js : List Json) (r : Except DataFault α × List LogLine) : Prop :=
  ∀ s t l, Spells .exact (.items js) s →
    Gives p ⟨Octet.openList :: (s ++ [Octet.closeList]) ++ t, l⟩ r.1 ⟨t, l ++ r.2⟩

/-- A reader that begins at the brace of an object. -/
def ReadsObject (p : Scan α) (ms : List (String × Json)) (r : Except DataFault α × List LogLine) : Prop :=
  ∀ s t l, Spells .exact (.members ms) s →
    Gives p ⟨Octet.openObject :: (s ++ [Octet.closeObject]) ++ t, l⟩ r.1 ⟨t, l ++ r.2⟩

theorem ReadsList.map {β : Type} {p : Scan α} {js : List Json} {r : Except DataFault α × List LogLine}
    (h : ReadsList p js r) (f : α → β) : ReadsList (f <$> p) js (f <$> r.1, r.2) :=
  fun s t l hs => (h s t l hs).map f

theorem ReadsObject.map {β : Type} {p : Scan α} {ms : List (String × Json)}
    {r : Except DataFault α × List LogLine} (h : ReadsObject p ms r) (f : α → β) :
    ReadsObject (f <$> p) ms (f <$> r.1, r.2) :=
  fun s t l hs => (h s t l hs).map f

theorem readsList_items {item : Scan α} {f : Json → Except DataFault α × List LogLine} {js : List Json}
    (hitem : ∀ j ∈ js, ReadsAs item j (f j)) : ReadsList (inList (items item)) js (readEach f js) :=
  fun _ _ _ hs => gives_inList (gives_items hitem hs)

theorem readsObject_refused (ms : List (String × Json)) (place : Place) (fault : DataFault) :
    ReadsObject (inObject (refuseData place fault : Scan α)) ms (.error fault, []) := by
  intro s t l _
  rw [List.append_nil]
  exact gives_inObject (.refuseData place fault)

theorem readsList_refused (js : List Json) (place : Place) (fault : DataFault) :
    ReadsList (inList (refuseData place fault : Scan α)) js (.error fault, []) := by
  intro s t l _
  rw [List.append_nil]
  exact gives_inList (.refuseData place fault)

/-- A value of another kind is found as what it is. What is then left does not matter. -/
theorem gives_mismatch {j : Json} {b : UInt8} {r : List UInt8} (hj : Spells .exact (.value j) (b :: r))
    (hb : kind? b = some j.kind) (ht : Follows t) (expected : String) (v : View) :
    Gives (mismatch expected b : Scan α) ⟨b :: r ++ t, l⟩ (j.refused expected) v := by
  have hfound : ∃ v', Gives (otherKind b) ⟨b :: r ++ t, l⟩ (.ok j.found) v' := by
    rw [otherKind, hb]
    cases j with
    | null =>
        cases hj with
        | null => exact ⟨_, gives_nullWord.bind_ok (.pure _ _)⟩
    | bool x =>
        have hword := gives_boolWord (t := t) (l := l) x
        generalize hs : b :: r = s at hj
        cases hj with
        | bool x => exact ⟨_, hword.bind_ok (.pure _ _)⟩
    | number n =>
        generalize hs : b :: r = s at hj
        cases hj with
        | number hn =>
            obtain ⟨x, hx, hvalue⟩ := hn
            subst hs
            exact ⟨_, (gives_number hx hvalue (ht.ends _ _)).map _⟩
    | str str =>
        cases hj with
        | str hs => exact ⟨_, (gives_quoted hs).map _⟩
    | list js => exact ⟨_, .pure _ _⟩
    | object ms => exact ⟨_, .pure _ _⟩
  obtain ⟨v', hfound⟩ := hfound
  exact hfound.bind_ok (.refuseData _ _)

section Expected

variable {value onList onObject : Scan α} {j : Json} {r : Except DataFault α × List LogLine} {expected : String}

theorem readsAs_expectList (hlist : ∀ js, j = .list js → ReadsList value js r)
    (hother : j.kind ≠ .list → r = (j.refused expected, [])) : ReadsAs (expectList expected value) j r := by
  intro w s t l hw hj ht
  obtain ⟨b, u, rfl, hb, hstart⟩ := gives_valueStart_value (t := t) (l := l) hw hj.form
  refine hstart.bind_ok ?_
  rw [hb]
  by_cases hkind : j.kind = .list
  · rw [if_pos (congrArg some hkind)]
    cases j with
    | list js =>
        generalize hs : b :: u = s at hj
        cases hj with
        | list hjs => exact hlist js rfl _ t l hjs
    | _ => cases hkind
  · rw [if_neg fun h => hkind (Option.some.inj h), hother hkind]
    exact gives_mismatch hj hb ht expected _

theorem readsAs_expectObject (hobject : ∀ ms, j = .object ms → ReadsObject value ms r)
    (hother : j.kind ≠ .object → r = (j.refused expected, [])) :
    ReadsAs (expectObject expected value) j r := by
  intro w s t l hw hj ht
  obtain ⟨b, u, rfl, hb, hstart⟩ := gives_valueStart_value (t := t) (l := l) hw hj.form
  refine hstart.bind_ok ?_
  rw [hb]
  by_cases hkind : j.kind = .object
  · rw [if_pos (congrArg some hkind)]
    cases j with
    | object ms =>
        generalize hs : b :: u = s at hj
        cases hj with
        | object hms => exact hobject ms rfl _ t l hms
    | _ => cases hkind
  · rw [if_neg fun h => hkind (Option.some.inj h), hother hkind]
    exact gives_mismatch hj hb ht expected _

theorem readsAs_expectRecord (hlist : ∀ js, j = .list js → ReadsList onList js r)
    (hobject : ∀ ms, j = .object ms → ReadsObject onObject ms r)
    (hother : j.kind ≠ .list → j.kind ≠ .object → r = (j.refused expected, [])) :
    ReadsAs (expectRecord expected onList onObject) j r := by
  intro w s t l hw hj ht
  obtain ⟨b, u, rfl, hb, hstart⟩ := gives_valueStart_value (t := t) (l := l) hw hj.form
  have hmismatch := gives_mismatch (α := α) (l := l) hj hb ht expected ⟨t, l ++ []⟩
  refine hstart.bind_ok ?_
  rw [hb]
  cases j with
  | list js =>
      generalize hs : b :: u = s at hj
      cases hj with
      | list hjs => exact hlist js rfl _ t l hjs
  | object ms =>
      generalize hs : b :: u = s at hj
      cases hj with
      | object hms => exact hobject ms rfl _ t l hms
  | _ =>
      rw [hother (by simp [Json.kind]) (by simp [Json.kind])]
      exact hmismatch

end Expected

theorem readsAs_optional_null (value : Scan α) : ReadsAs (optional value) .null (.ok none, []) := by
  intro w s t l hw hj _
  cases hj with
  | null =>
      refine (gives_peekPastBlanks hw (by decide)).bind_ok ?_
      rw [List.append_nil]
      exact gives_nullWord.bind_ok (.pure _ _)

theorem readsAs_optional {value : Scan α} {j : Json} {r : Except DataFault α × List LogLine}
    (hnull : j.kind ≠ .null) (h : ReadsAs value j r) : ReadsAs (optional value) j (some <$> r.1, r.2) := by
  intro w s t l hw hj ht
  obtain ⟨b, hb, hpeek⟩ := gives_peekPastBlanks_value (t := t) (l := l) hw hj.form
  refine hpeek.bind_ok ?_
  rw [Option.bind_some, hb, if_neg fun h => hnull (Option.some.inj h)]
  exact (h [] s t l blanks_nil hj ht).map some

/-- Gathering with the latest first, as a reader does. -/
theorem readMembers_gather (f : String → Json → Except DataFault (List α)) (sofar : List α)
    (ms : List (String × Json)) :
    readMembers (fun sofar key j => ((fun as => as.reverse ++ sofar) <$> f key j, [])) sofar ms =
      ((fun as => as.reverse ++ sofar) <$> gatherMembers f ms, []) := by
  induction ms generalizing sofar with
  | nil => rfl
  | cons m rest ih =>
      obtain ⟨key, j⟩ := m
      rw [readMembers, gatherMembers]
      cases f key j with
      | error fault => rfl
      | ok as =>
          show ((readMembers _ (as.reverse ++ sofar) rest).1, _ ++ (readMembers _ _ rest).2) = _
          rw [ih]
          cases gatherMembers f rest with
          | error fault => rfl
          | ok more =>
              simp only [Functor.map, Except.map, bind, Except.bind, pure, Except.pure, List.reverse_append,
                List.append_assoc, List.append_nil]

/-- Members that are gathered with the latest first, put in order in the end. -/
theorem gives_gathered {β : Type} (g : List α → β) {member : List α → String → Scan (List α)}
    {f : String → Json → Except DataFault (List α)} {ms : List (String × Json)} {s : List UInt8}
    (hmember : ∀ m ∈ ms, ∀ sofar,
      ReadsMember (member sofar m.1) m.2 ((fun as => as.reverse ++ sofar) <$> f m.1 m.2, []))
    (hms : Spells .exact (.members ms) s) :
    Gives (do let reversed ← members [] member; pure (g reversed.reverse)) ⟨s ++ Octet.closeObject :: t, l⟩
      (g <$> gatherMembers f ms) ⟨Octet.closeObject :: t, l⟩ := by
  have hmembers := gives_members (t := t) (l := l)
    (g := fun sofar key j => ((fun as => as.reverse ++ sofar) <$> f key j, [])) hmember hms []
  rw [readMembers_gather] at hmembers
  have hreverse : (fun reversed => g reversed.reverse) <$> ((fun as => as.reverse ++ []) <$> gatherMembers f ms) =
      g <$> gatherMembers f ms := by
    cases gatherMembers f ms <;> simp [Functor.map, Except.map]
  rw [← hreverse]
  rw [List.append_nil] at hmembers
  exact hmembers.map fun reversed => g reversed.reverse

end BlockModel.Scan
