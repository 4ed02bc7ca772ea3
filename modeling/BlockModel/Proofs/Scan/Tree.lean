import BlockModel.Proofs.Scan.Typed
import BlockModel.Scan.Tree

/-! A document is read to the value that it spells. As many lists and objects may lie in each other as there
is room for; with that much room the tree that is read is the one that was spelled. -/

namespace BlockModel.Scan

variable {α : Type}

theorem gives_treeWith {onList onObject : Scan Json} {j : Json} {w s t : List UInt8} {l : List LogLine}
    (hlist : ∀ js, j = .list js → ReadsList onList js (.ok j, []))
    (hobject : ∀ ms, j = .object ms → ReadsObject onObject ms (.ok j, [])) (hw : Blanks w)
    (hj : Spells .exact (.value j) s) (ht : EndsBefore s t) :
    Gives (treeWith onList onObject) ⟨w ++ (s ++ t), l⟩ (.ok j) ⟨t, l⟩ := by
  obtain ⟨b, r, hs, hb, hstart⟩ := gives_valueStart_value (t := t) (l := l) hw hj.form
  refine hstart.bind_ok ?_
  rw [hb]
  cases hj with
  | null => exact gives_nullWord.bind_ok (.pure _ _)
  | bool x => exact (gives_boolWord x).bind_ok (.pure _ _)
  | number hn =>
      obtain ⟨x, rfl, hvalue⟩ := hn
      have hends := ht x rfl
      rw [hs]
      exact (gives_number hs hvalue hends).map Json.number
  | str hstr => exact (gives_quoted hstr).map Json.str
  | list hjs =>
      have hread := hlist _ rfl _ t l hjs
      rwa [List.append_nil] at hread
  | object hms =>
      have hread := hobject _ rfl _ t l hms
      rwa [List.append_nil] at hread

/-- One member of an object, kept with its key. -/
def treeMember (value : Scan Json) (sofar : List (String × Json)) (key : String) :
    Scan (List (String × Json)) := do
  colon
  let v ← value
  pure ((key, v) :: sofar)

theorem readsObject_treeMembers {value : Scan Json} {ms : List (String × Json)}
    (hvalue : ∀ m ∈ ms, ReadsAs value m.2 (.ok m.2, [])) :
    ReadsObject (inObject (treeMembers value)) ms (.ok ms, []) := by
  intro s t l hms
  have hmember : ∀ m ∈ ms, ∀ sofar, ReadsMember (treeMember value sofar m.1) m.2
      ((fun as => as.reverse ++ sofar) <$> .ok [(m.1, m.2)], []) :=
    fun m hm sofar => (hvalue m hm).readsMember fun v => (m.1, v) :: sofar
  have hgathered := gives_gathered (t := t) (l := l) id (f := fun key j => .ok [(key, j)]) hmember hms
  rw [gatherMembers_pair] at hgathered
  rw [List.append_nil]
  exact gives_inObject hgathered

/-- A value is read in front of whatever does not go on with it. -/
theorem gives_tree {room : Nat} {j : Json} {w s t : List UInt8} {l : List LogLine} (hroom : j.nesting ≤ room)
    (hw : Blanks w) (hj : Spells .exact (.value j) s) (ht : EndsBefore s t) :
    Gives (tree room) ⟨w ++ (s ++ t), l⟩ (.ok j) ⟨t, l⟩ := by
  induction room generalizing j w s t l with
  | zero =>
      refine gives_treeWith ?_ ?_ hw hj ht <;> rintro inside rfl
      · exact absurd hroom (Json.not_nesting_list_le_zero inside)
      · exact absurd hroom (Json.not_nesting_object_le_zero inside)
  | succ room ih =>
      have hinside : ∀ {j : Json}, j.nesting ≤ room → ReadsAs (tree room) j (.ok j, []) := by
        intro j hroom w s t l hw hj ht
        rw [List.append_nil]
        exact ih hroom hw hj (ht.endsBefore s)
      refine gives_treeWith ?_ ?_ hw hj ht
      · rintro js rfl
        have hitem : ∀ j ∈ js, ReadsAs (tree room) j (.ok j, []) :=
          fun j hj => hinside (Json.nesting_list_le_iff.1 hroom j hj)
        have hitems := readsList_items (f := fun j => (.ok j, [])) hitem
        rw [readEach_silent, each_ok] at hitems
        exact hitems.map Json.list
      · rintro ms rfl
        have hmembers := readsObject_treeMembers fun m hm => hinside (Json.nesting_object_le_iff.1 hroom m hm)
        exact hmembers.map Json.object

theorem readsAs_tree {room : Nat} {j : Json} (hroom : j.nesting ≤ room) :
    ReadsAs (tree room) j (.ok j, []) := by
  intro w s t l hw hj ht
  rw [List.append_nil]
  exact gives_tree hroom hw hj (ht.endsBefore s)

theorem gives_document {p : Scan α} {j : Json} {r : Except DataFault α × List LogLine} (h : ReadsAs p j r)
    {octets : List UInt8} (hspelled : j.SpelledBy octets) :
    Gives (document p) ⟨octets, []⟩ r.1 ⟨[], r.2⟩ := by
  obtain ⟨w, s, w', hw, hj, hw', rfl⟩ := hspelled
  have hfollows : Follows w' := by
    have h := follows_blanks hw' follows_nil
    rwa [List.append_nil] at h
  have hread := h w s w' [] hw hj hfollows
  have hend : Gives endOfDocument ⟨w', [] ++ r.2⟩ (.ok ()) ⟨[], r.2⟩ :=
    (gives_peekPastBlanks_nil hw').bind_ok (.pure _ _)
  cases hr : r.1 with
  | ok a =>
      rw [hr] at hread
      exact hread.bind_ok (hend.bind_ok (.pure a _))
  | error fault =>
      rw [hr] at hread
      exact hread.bind_error

theorem Gives.runOn_ok {p : Scan α} {octets : List UInt8} {a : α} {v : View}
    (h : Gives p ⟨octets, []⟩ (.ok a) v) :
    ∃ c, p.runOn .document octets = (.ok a, c) ∧ c.view = v :=
  h (.ofOctets octets) rfl

theorem Gives.runOn_error {p : Scan α} {octets : List UInt8} {fault : DataFault} {v : View}
    (h : Gives p ⟨octets, []⟩ (.error fault) v) :
    ∃ e c, p.runOn .document octets = (.error e, c) ∧ e.cause = .data fault :=
  h (.ofOctets octets) rfl

/-- Saying where a fault is makes no difference to what is read. -/
theorem mapError_eq_ok_iff {ε ε' : Type} (g : ε → ε') {x : Except ε α} {a : α} :
    x.mapError g = .ok a ↔ x = .ok a := by
  cases x with
  | ok b =>
      show Except.ok b = Except.ok a ↔ _
      rw [Except.ok.injEq, Except.ok.injEq]
  | error e =>
      constructor
      · intro h
        cases h
      · intro h
        cases h

theorem exists_ok_of_isSome {ε : Type} {x : Except ε α} (h : x.toOption.isSome = true) : ∃ a, x = .ok a := by
  cases x with
  | ok a => exact ⟨a, rfl⟩
  | error e => cases h

/-- A document gives what its value is read as: the same value, or a refusal where there is one. -/
theorem document_eq_ok_iff {p : Scan α} {j : Json} {r : Except DataFault α × List LogLine}
    (h : ReadsAs p j r) {octets : List UInt8} (hspelled : j.SpelledBy octets) (a : α) :
    ((document p).runOn .document octets).1 = .ok a ↔ r.1 = .ok a := by
  have hgives := gives_document h hspelled
  cases hr : r.1 with
  | ok b =>
      rw [hr] at hgives
      obtain ⟨c, hrun, -⟩ := hgives.runOn_ok
      rw [hrun, Except.ok.injEq, Except.ok.injEq]
  | error fault =>
      rw [hr] at hgives
      obtain ⟨e, c, hrun, -⟩ := hgives.runOn_error
      rw [hrun]
      simp only [reduceCtorEq]

end BlockModel.Scan

namespace BlockModel

/-- A document spells one value only: it is read as each value that it spells. -/
theorem Json.SpelledBy.unique {t u : Json} {octets : List UInt8} (ht : t.SpelledBy octets)
    (hu : u.SpelledBy octets) : t = u := by
  have hreadt := Scan.document_eq_ok_iff (Scan.readsAs_tree (Nat.le_max_left t.nesting u.nesting)) ht t
  have hreadu := Scan.document_eq_ok_iff (Scan.readsAs_tree (Nat.le_max_right t.nesting u.nesting)) hu u
  exact Except.ok.inj ((hreadt.2 rfl).symm.trans (hreadu.2 rfl))

end BlockModel
