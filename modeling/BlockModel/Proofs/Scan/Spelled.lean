import BlockModel.Documents
import BlockModel.Proofs.Scan.Container
import BlockModel.Proofs.Scan.Numeral
import BlockModel.Proofs.Scan.Quoted
import BlockModel.Proofs.Scan.Tree

/-! A value that was read is spelled by the text in front of where reading left off. The readers of lists and
objects are taken apart with the reader of their items or members as a hypothesis, and a tree follows by
induction on how many lists and objects may be open. -/

namespace BlockModel

namespace Numeral

variable {x : Numeral} {b : UInt8}

theorem mem_octets : b ∈ x.octets ↔ (x.negative = true ∧ b = Octet.minus) ∨ b ∈ x.whole.octets ∨
    b ∈ fractionOctets x.fraction ∨ b ∈ exponentOctets x.exponent := by
  rw [octets, List.mem_append, List.mem_append, List.mem_append, signOctets]
  cases x.negative <;> simp

/-- The mark of an exponent stands nowhere else. -/
theorem exponent_eq_none_iff : x.exponent = none ↔ ∀ b ∈ x.octets, Scan.isExponentMark b = false := by
  constructor
  · intro hnone b hb
    rw [mem_octets, hnone] at hb
    rcases hb with ⟨-, rfl⟩ | hb | hb | hb
    · decide
    · exact Bool.eq_false_iff.2 fun hmark =>
        absurd (x.whole.isDigit b hb) (by rw [isDigit_of_isExponentMark hmark]; decide)
    · cases hfraction : x.fraction with
      | none =>
          rw [hfraction] at hb
          cases hb
      | some ds =>
          rw [hfraction, fractionOctets, List.mem_cons] at hb
          rcases hb with rfl | hb
          · decide
          · exact Bool.eq_false_iff.2 fun hmark =>
              absurd (ds.isDigit b hb) (by rw [isDigit_of_isExponentMark hmark]; decide)
    · cases hb
  · intro hall
    cases hexponent : x.exponent with
    | none => rfl
    | some e =>
        have hmark := hall e.mark (mem_octets.2 (by rw [hexponent, exponentOctets, ExponentPart.octets]; simp))
        rw [e.isMark] at hmark
        cases hmark

/-- The point of a fraction stands nowhere else. -/
theorem fraction_eq_none_iff : x.fraction = none ↔ Octet.point ∉ x.octets := by
  have hdigits : ∀ ds : Digits, Octet.point ∉ ds.octets := fun ds hb =>
    absurd (ds.isDigit _ hb) (by decide)
  constructor
  · intro hnone hb
    rw [mem_octets, hnone] at hb
    rcases hb with ⟨-, hminus⟩ | hb | hb | hb
    · exact absurd hminus (by decide)
    · exact hdigits x.whole hb
    · cases hb
    · cases hexponent : x.exponent with
      | none =>
          rw [hexponent] at hb
          cases hb
      | some e =>
          rw [hexponent, exponentOctets, ExponentPart.octets, List.mem_cons, List.mem_append] at hb
          rcases hb with hmark | hsign | hb
          · exact ne_point_of_isExponentMark e.isMark hmark.symm
          · exact (ExponentPart.eq_of_mem_signOctets hsign).elim (by decide) (by decide)
          · exact hdigits e.digits hb
  · intro hpoint
    cases hfraction : x.fraction with
    | none => rfl
    | some ds => exact absurd (mem_octets.2 (by rw [hfraction, fractionOctets]; simp)) hpoint

end Numeral

/-- Whether a text goes on with a numeral is a matter of how the numeral is written. -/
theorem Ends.endsBefore {x : Numeral} {t : List UInt8} (h : Ends x.fraction x.exponent t) :
    EndsBefore x.octets t := by
  intro y hy b hb
  obtain ⟨hdigit, hrest⟩ := h b hb
  rw [Numeral.exponent_eq_none_iff, Numeral.fraction_eq_none_iff, ← hy,
    ← Numeral.exponent_eq_none_iff, ← Numeral.fraction_eq_none_iff] at hrest
  exact ⟨hdigit, hrest⟩

/-- Only a number can be gone on with. -/
theorem Spells.endsBefore {j : Json} {s : List UInt8} (h : Spells .exact (.value j) s) (hkind : j.kind ≠ .number)
    (t : List UInt8) : EndsBefore s t := by
  intro x hx
  obtain ⟨b, r, hb, hnumber⟩ := x.kind?_head
  obtain ⟨b', r', hs, hkind'⟩ := h.form.kind?_head
  rw [hx, hs] at hb
  obtain ⟨rfl, -⟩ := List.cons.inj hb
  rw [hnumber] at hkind'
  exact absurd (Option.some.inj hkind').symm hkind

namespace Scan

variable {α σ : Type} {supply : Supply} {c c' : Cursor} {first : Bool}

theorem ok_hasItem_false (h : (hasItem first).run supply c = (.ok false, c')) :
    ∃ w t, Blanks w ∧ c.rest = w ++ Octet.closeList :: t ∧ c'.rest = Octet.closeList :: t := by
  obtain ⟨b?, d, hpeek, h⟩ := ok_bind h
  cases b? with
  | none => exact absurd h not_ok_refuse
  | some b =>
      obtain ⟨w, t, hw, hrest, hd, -⟩ := ok_peekPastBlanks_some hpeek
      simp only at h
      split at h
      · rename_i hclose
        obtain ⟨-, rfl⟩ := ok_pure h
        subst hclose
        exact ⟨w, t, hw, hrest, hd⟩
      · split at h
        · obtain ⟨hfalse, -⟩ := ok_pure h
          cases hfalse
        · split at h
          · obtain ⟨u, d', hskip, h⟩ := ok_bind h
            obtain ⟨b?, d'', hpeek', h⟩ := ok_bind h
            cases b? with
            | none => exact absurd h not_ok_refuse
            | some b =>
                simp only at h
                split at h
                · exact absurd h not_ok_refuse
                · obtain ⟨hfalse, -⟩ := ok_pure h
                  cases hfalse
          · exact absurd h not_ok_refuse

/-- There was an item, so what stands behind the gap is no blank and does not end the list. -/
theorem ok_hasItem_true (h : (hasItem first).run supply c = (.ok true, c')) :
    ∃ gap b, Gap first gap ∧ c.rest = gap ++ c'.rest ∧ c'.rest.head? = some b ∧ Octet.isBlank b = false ∧
      b ≠ Octet.closeList := by
  obtain ⟨b?, d, hpeek, h⟩ := ok_bind h
  cases b? with
  | none => exact absurd h not_ok_refuse
  | some b =>
      obtain ⟨w, t, hw, hrest, hd, hb⟩ := ok_peekPastBlanks_some hpeek
      simp only at h
      split at h
      · obtain ⟨htrue, -⟩ := ok_pure h
        cases htrue
      · rename_i hclose
        split at h
        · rename_i hfirst
          obtain ⟨-, rfl⟩ := ok_pure h
          subst hfirst
          exact ⟨w, b, .first hw, by rw [hrest, hd], congrArg List.head? hd, hb, hclose⟩
        · rename_i hfirst
          rw [Bool.not_eq_true] at hfirst
          split at h
          · rename_i hcomma
            obtain ⟨u, d', hskip, h⟩ := ok_bind h
            obtain ⟨b?, d'', hpeek', h⟩ := ok_bind h
            cases b? with
            | none => exact absurd h not_ok_refuse
            | some b' =>
                obtain ⟨w', t', hw', hrest', hd', hb'⟩ := ok_peekPastBlanks_some hpeek'
                simp only at h
                split at h
                · exact absurd h not_ok_refuse
                · rename_i hclose'
                  obtain ⟨-, rfl⟩ := ok_pure h
                  refine ⟨w ++ Octet.comma :: w', b', hfirst ▸ .next hw hw', ?_, congrArg List.head? hd', hb',
                    hclose'⟩
                  rw [ok_skip hskip, hd, List.tail_cons] at hrest'
                  rw [hrest, hrest', hcomma, hd', List.append_assoc, List.cons_append]
          · exact absurd h not_ok_refuse

theorem ok_closeList {t : List UInt8} {u : Unit} (h : closeList.run supply c = (.ok u, c'))
    (hrest : c.rest = Octet.closeList :: t) : c'.rest = t := by
  obtain ⟨b?, d, hpeek, h⟩ := ok_bind h
  obtain ⟨rfl, hd⟩ := ok_peekPastBlanks_of_head hpeek hrest (by decide)
  simp only [if_true] at h
  rw [ok_skip h, hd, List.tail_cons]

/-- A value stands at the front of a text, perhaps after blanks, and what is behind it does not go on with it.
At most so many lists and objects lie in each other in it. -/
structure Stands (room : Nat) (j : Json) (u t : List UInt8) : Prop where
  nesting_le : j.nesting ≤ room
  spelled : ∃ w s, Blanks w ∧ Spells .exact (.value j) s ∧ EndsBefore s t ∧ u = w ++ (s ++ t)

/-- The inside of a list from its start on, or after an item. -/
def itemsFrom (first : Bool) (js : List Json) : Phrase := if first then .items js else .moreItems js

theorem spells_itemsFrom_nil {leaves : Leaves} {w : List UInt8} (hw : Blanks w) :
    Spells leaves (itemsFrom first []) w := by
  cases first with
  | true => exact .noItems hw
  | false => exact .endItems hw

theorem Gap.spells_itemsFrom {leaves : Leaves} {gap w s r : List UInt8} {j : Json} {js : List Json}
    (hgap : Gap first gap) (hw : Blanks w) (hj : Spells leaves (.value j) s) (hjs : Spells leaves (.moreItems js) r) :
    Spells leaves (itemsFrom first (j :: js)) (gap ++ (w ++ (s ++ r))) := by
  cases hgap with
  | @first w0 hw0 =>
      rw [← List.append_assoc]
      exact .items (List.forall_mem_append.2 ⟨hw0, hw⟩) hj hjs
  | @next w0 w1 hw0 hw1 =>
      rw [List.append_assoc, List.cons_append, ← List.append_assoc w1]
      exact .moreItems hw0 (List.forall_mem_append.2 ⟨hw1, hw⟩) hj hjs

theorem ok_itemRound_inl {item : Scan α} {sofar sofar' : List α}
    (h : (itemRound item sofar).run supply c = (.ok (.inl sofar'), c')) :
    ∃ d a, (hasItem sofar.isEmpty).run supply c = (.ok true, d) ∧ item.run supply d = (.ok a, c') ∧
      sofar' = a :: sofar := by
  obtain ⟨has, d, hhas, h⟩ := ok_bind h
  cases has with
  | false =>
      obtain ⟨hinr, -⟩ := ok_pure h
      cases hinr
  | true =>
      obtain ⟨a, d', ha, h⟩ := ok_bind h
      obtain ⟨hsofar, rfl⟩ := ok_pure h
      exact ⟨d, a, hhas, ha, Sum.inl.inj hsofar⟩

theorem ok_itemRound_inr {item : Scan α} {sofar as : List α}
    (h : (itemRound item sofar).run supply c = (.ok (.inr as), c')) :
    (hasItem sofar.isEmpty).run supply c = (.ok false, c') ∧ as = sofar := by
  obtain ⟨has, d, hhas, h⟩ := ok_bind h
  cases has with
  | true =>
      obtain ⟨a, d', -, h⟩ := ok_bind h
      obtain ⟨hinl, -⟩ := ok_pure h
      cases hinl
  | false =>
      obtain ⟨has, rfl⟩ := ok_pure h
      exact ⟨hhas, Sum.inr.inj has⟩

theorem ok_itemLoop {item : Scan Json} {room : Nat}
    (hitem : ∀ c j c', item.run supply c = (.ok j, c') → Stands room j c.rest c'.rest) {sofar js : List Json}
    (h : (loop sofar (itemRound item)).run supply c = (.ok js, c')) :
    ∃ more r t, js = more.reverse ++ sofar ∧ (∀ j ∈ more, j.nesting ≤ room) ∧
      Spells .exact (itemsFrom sofar.isEmpty more) r ∧ c.rest = r ++ Octet.closeList :: t ∧
      c'.rest = Octet.closeList :: t := by
  refine ok_loop (P := fun sofar c js c' => ∃ more r t, js = more.reverse ++ sofar ∧
    (∀ j ∈ more, j.nesting ≤ room) ∧ Spells .exact (itemsFrom sofar.isEmpty more) r ∧
    c.rest = r ++ Octet.closeList :: t ∧ c'.rest = Octet.closeList :: t) ?_ ?_ h
  · intro sofar c js c' h
    obtain ⟨hhas, rfl⟩ := ok_itemRound_inr h
    obtain ⟨w, t, hw, hrest, hrest'⟩ := ok_hasItem_false hhas
    exact ⟨[], w, t, rfl, List.forall_mem_nil _, spells_itemsFrom_nil hw, hrest, hrest'⟩
  · rintro sofar c sofar' d js c' h ⟨more, r, t, rfl, hnesting, hmore, hrest, hrest'⟩
    obtain ⟨d', j, hhas, hj, rfl⟩ := ok_itemRound_inl h
    obtain ⟨gap, b, hgap, hrest0, -⟩ := ok_hasItem_true hhas
    obtain ⟨hle, w, s, hw, hs, -, hrest1⟩ := hitem _ _ _ hj
    refine ⟨j :: more, gap ++ (w ++ (s ++ r)), t, ?_, List.forall_mem_cons.2 ⟨hle, hnesting⟩,
      hgap.spells_itemsFrom hw hs hmore, ?_, hrest'⟩
    · rw [List.reverse_cons, List.append_assoc, List.singleton_append]
    · rw [hrest0, hrest1, hrest]
      simp only [List.append_assoc]

/-- A list that was read stands there from its bracket on. -/
theorem ok_inList_items {item : Scan Json} {room : Nat}
    (hitem : ∀ c j c', item.run supply c = (.ok j, c') → Stands room j c.rest c'.rest) {js : List Json}
    (h : (inList (items item)).run supply c = (.ok js, c')) (hopen : c.rest.head? = some Octet.openList) :
    ∃ s, Spells .exact (.value (.list js)) s ∧ (Json.list js).nesting ≤ room + 1 ∧ c.rest = s ++ c'.rest := by
  obtain ⟨u, d, hskip, h⟩ := ok_bind h
  obtain ⟨d', hinside, hclose⟩ := ok_enclosed h
  obtain ⟨reversed, hloop, rfl⟩ := ok_map hinside
  obtain ⟨more, r, t, rfl, hnesting, hmore, hrest, hrest'⟩ := ok_itemLoop hitem hloop
  rw [List.append_nil, List.reverse_reverse]
  refine ⟨Octet.openList :: (r ++ [Octet.closeList]), .list hmore, Json.nesting_list_le_iff.2 hnesting, ?_⟩
  rw [ok_skip_of_head hskip hopen, hrest, ok_closeList hclose hrest', List.cons_append, List.append_assoc,
    List.singleton_append]

theorem ok_hasMember_false (h : (hasMember first).run supply c = (.ok false, c')) :
    ∃ w t, Blanks w ∧ c.rest = w ++ Octet.closeObject :: t ∧ c'.rest = Octet.closeObject :: t := by
  obtain ⟨b?, d, hpeek, h⟩ := ok_bind h
  cases b? with
  | none => exact absurd h not_ok_refuse
  | some b =>
      obtain ⟨w, t, hw, hrest, hd, -⟩ := ok_peekPastBlanks_some hpeek
      simp only at h
      split at h
      · rename_i hclose
        obtain ⟨-, rfl⟩ := ok_pure h
        subst hclose
        exact ⟨w, t, hw, hrest, hd⟩
      · split at h
        · split at h
          · obtain ⟨hfalse, -⟩ := ok_pure h
            cases hfalse
          · exact absurd h not_ok_refuse
        · split at h
          · obtain ⟨u, d', hskip, h⟩ := ok_bind h
            obtain ⟨b?, d'', hpeek', h⟩ := ok_bind h
            cases b? with
            | none => exact absurd h not_ok_refuse
            | some b =>
                simp only at h
                split at h
                · obtain ⟨hfalse, -⟩ := ok_pure h
                  cases hfalse
                · split at h <;> exact absurd h not_ok_refuse
          · exact absurd h not_ok_refuse

theorem ok_hasMember_true (h : (hasMember first).run supply c = (.ok true, c')) :
    ∃ gap, Gap first gap ∧ c.rest = gap ++ c'.rest ∧ c'.rest.head? = some Octet.quote := by
  obtain ⟨b?, d, hpeek, h⟩ := ok_bind h
  cases b? with
  | none => exact absurd h not_ok_refuse
  | some b =>
      obtain ⟨w, t, hw, hrest, hd, -⟩ := ok_peekPastBlanks_some hpeek
      simp only at h
      split at h
      · obtain ⟨htrue, -⟩ := ok_pure h
        cases htrue
      · split at h
        · rename_i hfirst
          split at h
          · rename_i hquote
            obtain ⟨-, rfl⟩ := ok_pure h
            exact ⟨w, hfirst ▸ .first hw, by rw [hrest, hd], by rw [hd, hquote]; rfl⟩
          · exact absurd h not_ok_refuse
        · rename_i hfirst
          rw [Bool.not_eq_true] at hfirst
          split at h
          · rename_i hcomma
            obtain ⟨u, d', hskip, h⟩ := ok_bind h
            obtain ⟨b?, d'', hpeek', h⟩ := ok_bind h
            cases b? with
            | none => exact absurd h not_ok_refuse
            | some b' =>
                obtain ⟨w', t', hw', hrest', hd', -⟩ := ok_peekPastBlanks_some hpeek'
                simp only at h
                split at h
                · rename_i hquote
                  obtain ⟨-, rfl⟩ := ok_pure h
                  refine ⟨w ++ Octet.comma :: w', hfirst ▸ .next hw hw', ?_, by rw [hd', hquote]; rfl⟩
                  rw [ok_skip hskip, hd, List.tail_cons] at hrest'
                  rw [hrest, hrest', hcomma, hd', List.append_assoc, List.cons_append]
                · split at h <;> exact absurd h not_ok_refuse
          · exact absurd h not_ok_refuse

theorem ok_colon {u : Unit} (h : colon.run supply c = (.ok u, c')) :
    ∃ w, Blanks w ∧ c.rest = w ++ Octet.colon :: c'.rest := by
  obtain ⟨b?, d, hpeek, h⟩ := ok_bind h
  cases b? with
  | none => exact absurd h not_ok_refuse
  | some b =>
      obtain ⟨w, t, hw, hrest, hd, -⟩ := ok_peekPastBlanks_some hpeek
      simp only at h
      split at h
      · rename_i hcolon
        rw [ok_skip h, hd, List.tail_cons]
        exact ⟨w, hw, by rw [hrest, hcolon]⟩
      · exact absurd h not_ok_refuse

theorem ok_closeObject {t : List UInt8} {u : Unit} (h : closeObject.run supply c = (.ok u, c'))
    (hrest : c.rest = Octet.closeObject :: t) : c'.rest = t := by
  obtain ⟨b?, d, hpeek, h⟩ := ok_bind h
  obtain ⟨rfl, hd⟩ := ok_peekPastBlanks_of_head hpeek hrest (by decide)
  simp only [if_true] at h
  rw [ok_skip h, hd, List.tail_cons]

/-- The inside of an object from its start on, or after a member. -/
def membersFrom (first : Bool) (ms : List (String × Json)) : Phrase :=
  if first then .members ms else .moreMembers ms

theorem spells_membersFrom_nil {leaves : Leaves} {w : List UInt8} (hw : Blanks w) :
    Spells leaves (membersFrom first []) w := by
  cases first with
  | true => exact .noMembers hw
  | false => exact .endMembers hw

theorem Gap.spells_membersFrom {leaves : Leaves} {gap k w1 w2 s r : List UInt8} {key : String} {j : Json}
    {ms : List (String × Json)} (hgap : Gap first gap) (hk : leaves.string key k) (hw1 : Blanks w1)
    (hw2 : Blanks w2) (hj : Spells leaves (.value j) s) (hms : Spells leaves (.moreMembers ms) r) :
    Spells leaves (membersFrom first ((key, j) :: ms))
      (gap ++ (k ++ (w1 ++ Octet.colon :: (w2 ++ (s ++ r))))) := by
  cases hgap with
  | first hw => exact .members hw hk hw1 hw2 hj hms
  | next hw hw' =>
      rw [List.append_assoc, List.cons_append]
      exact .moreMembers hw hw' hk hw1 hw2 hj hms

/-- A key, the colon and the value of a member that was read. -/
theorem ok_treeMember {value : Scan Json} {room : Nat}
    (hvalue : ∀ c j c', value.run supply c = (.ok j, c') → Stands room j c.rest c'.rest)
    {sofar ms : List (String × Json)} {key : String}
    (h : (treeMember value sofar key).run supply c = (.ok ms, c')) :
    ∃ j w1 w2 s, ms = (key, j) :: sofar ∧ j.nesting ≤ room ∧ Blanks w1 ∧ Blanks w2 ∧
      Spells .exact (.value j) s ∧ c.rest = w1 ++ Octet.colon :: (w2 ++ (s ++ c'.rest)) := by
  obtain ⟨u, d, hcolon, h⟩ := ok_bind h
  obtain ⟨j, d', hj, h⟩ := ok_bind h
  obtain ⟨rfl, rfl⟩ := ok_pure h
  obtain ⟨w1, hw1, hrest⟩ := ok_colon hcolon
  obtain ⟨hle, w2, s, hw2, hs, -, hrest'⟩ := hvalue _ _ _ hj
  exact ⟨j, w1, w2, s, rfl, hle, hw1, hw2, hs, by rw [hrest, hrest']⟩

/-- The gap in front of a member and its key, once it is known that there is one. -/
theorem ok_hasMember_quoted {key : String} {d : Cursor} (hhas : (hasMember first).run supply c = (.ok true, d))
    (hkey : quoted.run supply d = (.ok key, c')) :
    ∃ gap k, Gap first gap ∧ Leaves.exact.string key k ∧ c.rest = gap ++ (k ++ c'.rest) := by
  obtain ⟨gap, hgap, hrest, hquote⟩ := ok_hasMember_true hhas
  obtain ⟨k, hk, hrest'⟩ := ok_quoted_of_quote hkey hquote
  exact ⟨gap, k, hgap, hk, by rw [hrest, hrest']⟩

theorem ok_memberRound_inl {member : σ → String → Scan σ} {state state' : Bool × σ}
    (h : (memberRound member state).run supply c = (.ok (.inl state'), c')) :
    ∃ gap k key d s, Gap state.1 gap ∧ Leaves.exact.string key k ∧ c.rest = gap ++ (k ++ d.rest) ∧
      (member state.2 key).run supply d = (.ok s, c') ∧ state' = (false, s) := by
  obtain ⟨has, d, hhas, h⟩ := ok_bind h
  cases has with
  | false =>
      obtain ⟨hinr, -⟩ := ok_pure h
      cases hinr
  | true =>
      obtain ⟨key, d', hkey, h⟩ := ok_bind h
      obtain ⟨s, d'', hmember, h⟩ := ok_bind h
      obtain ⟨hstate, rfl⟩ := ok_pure h
      obtain ⟨gap, k, hgap, hk, hrest⟩ := ok_hasMember_quoted hhas hkey
      exact ⟨gap, k, key, d', s, hgap, hk, hrest, hmember, Sum.inl.inj hstate⟩

theorem ok_memberRound_inr {member : σ → String → Scan σ} {state : Bool × σ} {s : σ}
    (h : (memberRound member state).run supply c = (.ok (.inr s), c')) :
    (hasMember state.1).run supply c = (.ok false, c') ∧ s = state.2 := by
  obtain ⟨has, d, hhas, h⟩ := ok_bind h
  cases has with
  | true =>
      obtain ⟨k, d', -, h⟩ := ok_bind h
      obtain ⟨s', d'', -, h⟩ := ok_bind h
      obtain ⟨hinl, -⟩ := ok_pure h
      cases hinl
  | false =>
      obtain ⟨hs, rfl⟩ := ok_pure h
      exact ⟨hhas, Sum.inr.inj hs⟩

theorem ok_memberLoop {value : Scan Json} {room : Nat}
    (hvalue : ∀ c j c', value.run supply c = (.ok j, c') → Stands room j c.rest c'.rest)
    {state : Bool × List (String × Json)} {ms : List (String × Json)}
    (h : (loop state (memberRound (treeMember value))).run supply c = (.ok ms, c')) :
    ∃ more r t, ms = more.reverse ++ state.2 ∧ (∀ m ∈ more, m.2.nesting ≤ room) ∧
      Spells .exact (membersFrom state.1 more) r ∧ c.rest = r ++ Octet.closeObject :: t ∧
      c'.rest = Octet.closeObject :: t := by
  refine ok_loop (P := fun state c ms c' => ∃ more r t, ms = more.reverse ++ state.2 ∧
    (∀ m ∈ more, m.2.nesting ≤ room) ∧ Spells .exact (membersFrom state.1 more) r ∧
    c.rest = r ++ Octet.closeObject :: t ∧ c'.rest = Octet.closeObject :: t) ?_ ?_ h
  · intro state c ms c' h
    obtain ⟨hhas, rfl⟩ := ok_memberRound_inr h
    obtain ⟨w, t, hw, hrest, hrest'⟩ := ok_hasMember_false hhas
    exact ⟨[], w, t, rfl, List.forall_mem_nil _, spells_membersFrom_nil hw, hrest, hrest'⟩
  · rintro state c state' d ms c' h ⟨more, r, t, rfl, hnesting, hmore, hrest, hrest'⟩
    obtain ⟨gap, k, key, d', sofar, hgap, hk, hrest0, hmember, rfl⟩ := ok_memberRound_inl h
    obtain ⟨j, w1, w2, s, rfl, hle, hw1, hw2, hs, hrest1⟩ := ok_treeMember hvalue hmember
    refine ⟨(key, j) :: more, gap ++ (k ++ (w1 ++ Octet.colon :: (w2 ++ (s ++ r)))), t, ?_,
      List.forall_mem_cons.2 ⟨hle, hnesting⟩, hgap.spells_membersFrom hk hw1 hw2 hs hmore, ?_, hrest'⟩
    · rw [List.reverse_cons, List.append_assoc, List.singleton_append]
    · rw [hrest0, hrest1, hrest]
      simp only [List.append_assoc, List.cons_append]

/-- An object that was read stands there from its brace on. -/
theorem ok_inObject_treeMembers {value : Scan Json} {room : Nat}
    (hvalue : ∀ c j c', value.run supply c = (.ok j, c') → Stands room j c.rest c'.rest)
    {ms : List (String × Json)} (h : (inObject (treeMembers value)).run supply c = (.ok ms, c'))
    (hopen : c.rest.head? = some Octet.openObject) :
    ∃ s, Spells .exact (.value (.object ms)) s ∧ (Json.object ms).nesting ≤ room + 1 ∧
      c.rest = s ++ c'.rest := by
  obtain ⟨u, d, hskip, h⟩ := ok_bind h
  obtain ⟨d', hinside, hclose⟩ := ok_enclosed h
  obtain ⟨reversed, hloop, rfl⟩ := ok_map hinside
  obtain ⟨more, r, t, rfl, hnesting, hmore, hrest, hrest'⟩ := ok_memberLoop hvalue hloop
  rw [List.append_nil, List.reverse_reverse]
  refine ⟨Octet.openObject :: (r ++ [Octet.closeObject]), .object hmore, Json.nesting_object_le_iff.2 hnesting, ?_⟩
  rw [ok_skip_of_head hskip hopen, hrest, ok_closeObject hclose hrest', List.cons_append, List.append_assoc,
    List.singleton_append]

/-- The first octet of the values of a kind, where they have one in common. -/
def Kind.first? : Kind → Option UInt8
  | .null => some (Octet.ofChar 'n')
  | .bool b => some (Octet.ofChar (if b then 't' else 'f'))
  | .number => none
  | .string => some Octet.quote
  | .list => some Octet.openList
  | .object => some Octet.openObject

theorem eq_of_kind? {b first : UInt8} {k : Kind} (h : kind? b = some k) (hfirst : k.first? = some first) :
    b = first := by
  have hall : ∀ n < 256, ∀ k ∈ kind? (.ofNat n), ∀ first ∈ k.first?, UInt8.ofNat n = first := by
    decide +kernel
  have hb := hall b.toNat b.toNat_lt k
  rw [UInt8.ofNat_toNat] at hb
  exact hb h first hfirst

/-- An object was asked for, and one begins behind the blanks. -/
theorem ok_expectObject {value : Scan α} {expected : String} {a : α}
    (h : (expectObject expected value).run supply c = (.ok a, c')) :
    ∃ w r, Blanks w ∧ c.rest = w ++ Octet.openObject :: r := by
  obtain ⟨b, d, hstart, h⟩ := ok_bind h
  obtain ⟨w, r, hw, hrest, -⟩ := ok_valueStart hstart
  split at h
  · rename_i hkind
    rw [eq_of_kind? hkind rfl] at hrest
    exact ⟨w, r, hw, hrest⟩
  · obtain ⟨found, d', -, h⟩ := ok_bind h
    exact absurd h not_ok_refuseData

/-- What a value is read as where its lists and objects are. -/
theorem ok_treeWith {onList onObject : Scan Json} {room : Nat}
    (hlist : ∀ c j c', onList.run supply c = (.ok j, c') → c.rest.head? = some Octet.openList →
      ∃ js s, j = .list js ∧ Spells .exact (.value j) s ∧ j.nesting ≤ room ∧ c.rest = s ++ c'.rest)
    (hobject : ∀ c j c', onObject.run supply c = (.ok j, c') → c.rest.head? = some Octet.openObject →
      ∃ ms s, j = .object ms ∧ Spells .exact (.value j) s ∧ j.nesting ≤ room ∧ c.rest = s ++ c'.rest)
    {j : Json} (h : (treeWith onList onObject).run supply c = (.ok j, c')) : Stands room j c.rest c'.rest := by
  obtain ⟨b, d, hstart, h⟩ := ok_bind h
  obtain ⟨w, r, hw, hrest, hd, -⟩ := ok_valueStart hstart
  have hhead : d.rest.head? = some b := by rw [hd]; rfl
  -- Whatever stands there stands there after the blanks.
  have hstands : ∀ {s}, Spells .exact (.value j) s → j.nesting ≤ room → EndsBefore s c'.rest →
      d.rest = s ++ c'.rest → Stands room j c.rest c'.rest :=
    fun hs hle hends hd' => ⟨hle, w, _, hw, hs, hends, by rw [hrest, ← hd, hd']⟩
  cases hkind : kind? b with
  | none =>
      rw [hkind] at h
      exact absurd h not_ok_refuse
  | some k =>
      rw [hkind] at h
      cases k with
      | null =>
          obtain ⟨u, d', hword, h⟩ := ok_bind h
          obtain ⟨rfl, rfl⟩ := ok_pure h
          obtain rfl := eq_of_kind? hkind rfl
          exact hstands .null (Nat.zero_le _) (Spells.null.endsBefore (by simp [Json.kind]) _)
            (ok_skip_word hword hd)
      | bool x =>
          obtain ⟨u, d', hword, h⟩ := ok_bind h
          obtain ⟨rfl, rfl⟩ := ok_pure h
          obtain rfl := eq_of_kind? hkind rfl
          refine hstands (.bool x) (Nat.zero_le _) ((Spells.bool x).endsBefore (by simp [Json.kind]) _) ?_
          rw [ok_skip_word hword hd]
          cases x <;> rfl
      | number =>
          obtain ⟨n, hnumber, rfl⟩ := ok_map h
          obtain ⟨x, hvalue, hends, hd'⟩ := ok_number hnumber hhead
          exact hstands (.number ⟨x, rfl, hvalue⟩) (Nat.zero_le _) hends.endsBefore hd'
      | string =>
          obtain ⟨str, hquoted, rfl⟩ := ok_map h
          rw [eq_of_kind? hkind rfl] at hhead
          obtain ⟨s, hs, hd'⟩ := ok_quoted_of_quote hquoted hhead
          exact hstands (.str hs) (Nat.zero_le _) ((Spells.str hs).endsBefore (by simp [Json.kind]) _) hd'
      | list =>
          rw [eq_of_kind? hkind rfl] at hhead
          obtain ⟨js, s, rfl, hs, hle, hd'⟩ := hlist _ _ _ h hhead
          exact hstands hs hle (hs.endsBefore (by simp [Json.kind]) _) hd'
      | object =>
          rw [eq_of_kind? hkind rfl] at hhead
          obtain ⟨ms, s, rfl, hs, hle, hd'⟩ := hobject _ _ _ h hhead
          exact hstands hs hle (hs.endsBefore (by simp [Json.kind]) _) hd'

/-- A tree that was read stands there. -/
theorem ok_tree {room : Nat} {j : Json} (h : (tree room).run supply c = (.ok j, c')) :
    Stands room j c.rest c'.rest := by
  induction room generalizing j c c' with
  | zero => exact ok_treeWith (fun _ _ _ h => absurd h not_ok_refuse) (fun _ _ _ h => absurd h not_ok_refuse) h
  | succ room ih =>
      refine ok_treeWith ?_ ?_ h
      · intro c j c' h hopen
        obtain ⟨js, hlist, rfl⟩ := ok_map h
        obtain ⟨s, hs, hle, hrest⟩ := ok_inList_items (fun _ _ _ h => ih h) hlist hopen
        exact ⟨js, s, rfl, hs, hle, hrest⟩
      · intro c j c' h hopen
        obtain ⟨ms, hobject, rfl⟩ := ok_map h
        obtain ⟨s, hs, hle, hrest⟩ := ok_inObject_treeMembers (fun _ _ _ h => ih h) hobject hopen
        exact ⟨ms, s, rfl, hs, hle, hrest⟩

/-- Behind the value of a document that was read stand blanks and nothing else. -/
theorem ok_document {p : Scan α} {a : α} (h : (document p).run supply c = (.ok a, c')) :
    ∃ d, p.run supply c = (.ok a, d) ∧ Blanks d.rest := by
  obtain ⟨b, d, hp, h⟩ := ok_bind h
  obtain ⟨u, d', hend, h⟩ := ok_bind h
  obtain ⟨rfl, -⟩ := ok_pure h
  obtain ⟨b?, d'', hpeek, hend⟩ := ok_bind hend
  cases b? with
  | some b => exact absurd hend not_ok_refuse
  | none =>
      obtain ⟨w, hw, hrest, hnone, -⟩ := ok_peekPastBlanks hpeek
      rw [List.head?_eq_none_iff.1 hnone.symm, List.append_nil] at hrest
      exact ⟨d, hp, by rw [hrest]; exact hw⟩

end Scan

/-- A document that was read spells a value, and comes in the canonical form of that. -/
theorem Json.spelledBy_of_read {octets : List UInt8} {j : Json} (h : Json.read octets = .ok j) :
    ∃ t : Json, t.SpelledBy octets ∧ t.nesting ≤ Scan.greatestNesting ∧ j = t.canonical := by
  rcases hrun : (Scan.document (canonical <$> Scan.tree Scan.greatestNesting)).runOn .document octets with ⟨e | a, c⟩
  · rw [Json.read, hrun] at h
    cases h
  · rw [Json.read, hrun] at h
    obtain rfl := Except.ok.inj h
    obtain ⟨d, hvalue, hblanks⟩ := Scan.ok_document hrun
    obtain ⟨t, htree, rfl⟩ := Scan.ok_map hvalue
    obtain ⟨hle, w, s, hw, hs, -, hrest⟩ := Scan.ok_tree htree
    exact ⟨t, ⟨w, s, d.rest, hw, hs, hblanks, hrest⟩, hle, rfl⟩

/-- A document is read exactly if it spells a value that does not nest too deeply. -/
theorem Json.read_eq_ok_iff {octets : List UInt8} {j : Json} :
    Json.read octets = .ok j ↔
      ∃ t : Json, t.SpelledBy octets ∧ t.nesting ≤ Scan.greatestNesting ∧ j = t.canonical := by
  refine ⟨spelledBy_of_read, ?_⟩
  rintro ⟨t, ht, hnesting, rfl⟩
  have hreads : Scan.ReadsAs (canonical <$> Scan.tree Scan.greatestNesting) t (.ok t.canonical, []) :=
    fun w s r l hw hj hr => (Scan.readsAs_tree hnesting w s r l hw hj hr).map canonical
  exact (Scan.document_eq_ok_iff hreads ht t.canonical).2 rfl

end BlockModel
