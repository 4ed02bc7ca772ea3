import BlockModel.Proofs.Scan.Spelled
import BlockModel.Scan.Skip

/-! A value that was skipped has the form of one. What is still open while a value is skipped is a stack, so the
statement for a state is about all that is left: the rest of the innermost list or object up to its close, then the
rest of the one around it, and so on. Each round takes a piece from the front of that. -/

namespace BlockModel.Scan

variable {supply : Supply} {c c' : Cursor}

theorem ok_skipExponentRest {u : Unit} (h : skipExponentRest.run supply c = (.ok u, c')) :
    ∃ (sign : Option Bool) (ds : Digits), c.rest = ExponentPart.signOctets sign ++ (ds.octets ++ c'.rest) := by
  obtain ⟨down, d, hsign, h⟩ := ok_bind h
  obtain ⟨sign, -, hrest⟩ := ok_exponentSign hsign
  obtain ⟨b?, d', hnext, h⟩ := ok_bind h
  cases b? with
  | none => exact absurd h not_ok_refuse
  | some b =>
      simp only at h
      split at h
      · rename_i hdigit
        obtain ⟨more, hdigits, -⟩ := ok_map h
        obtain ⟨hmore, hisDigit, -⟩ := ok_digits hdigits
        refine ⟨sign, ⟨b :: more, List.cons_ne_nil _ _, List.forall_mem_cons.2 ⟨hdigit, hisDigit⟩⟩, ?_⟩
        rw [hrest, (ok_next_some hnext).1, hmore, List.cons_append]
      · exact absurd h not_ok_refuse

theorem ok_skip_skipExponentRest {b : UInt8} (hmark : isExponentMark b = true) {u : Unit}
    (h : (do skip; skipExponentRest : Scan Unit).run supply c = (.ok u, c')) (hhead : c.rest.head? = some b) :
    ∃ e : ExponentPart, c.rest = e.octets ++ c'.rest := by
  obtain ⟨u', d, hskip, h⟩ := ok_bind h
  obtain ⟨sign, ds, hrest⟩ := ok_skipExponentRest h
  refine ⟨⟨b, hmark, sign, ds⟩, ?_⟩
  rw [ok_skip_of_head hskip hhead, hrest, ExponentPart.octets, List.cons_append, List.append_assoc]

theorem ok_skipExponentOrEnd {u : Unit} (h : skipExponentOrEnd.run supply c = (.ok u, c')) :
    ∃ e, c.rest = Numeral.exponentOctets e ++ c'.rest := by
  obtain ⟨b?, d, hpeek, h⟩ := ok_bind h
  obtain ⟨hb, hrest⟩ := ok_peek hpeek
  rw [← hrest]
  cases b? with
  | none =>
      obtain ⟨-, rfl⟩ := ok_pure h
      exact ⟨none, rfl⟩
  | some b =>
      simp only at h
      split at h
      · rename_i hmark
        obtain ⟨e, he⟩ := ok_skip_skipExponentRest hmark h hb.symm
        exact ⟨some e, he⟩
      · obtain ⟨-, rfl⟩ := ok_pure h
        exact ⟨none, rfl⟩

theorem ok_skipAfterWhole {u : Unit} (h : skipAfterWhole.run supply c = (.ok u, c')) :
    ∃ f e, c.rest = Numeral.fractionOctets f ++ (Numeral.exponentOctets e ++ c'.rest) := by
  obtain ⟨b?, d, hpeek, h⟩ := ok_bind h
  obtain ⟨hb, hrest⟩ := ok_peek hpeek
  rw [← hrest]
  cases b? with
  | none =>
      obtain ⟨-, rfl⟩ := ok_pure h
      exact ⟨none, none, rfl⟩
  | some b =>
      simp only at h
      split at h
      · rename_i hpoint
        obtain ⟨u', d0, hskip, h⟩ := ok_bind h
        obtain ⟨ds, d1, hdigits, h⟩ := ok_bind h
        obtain ⟨hds, hisDigit, -⟩ := ok_digits hdigits
        split at h
        · exact absurd h not_ok_refuse
        · rename_i hempty
          obtain ⟨e, he⟩ := ok_skipExponentOrEnd h
          refine ⟨some ⟨ds, by simpa using hempty, hisDigit⟩, e, ?_⟩
          rw [ok_skip_of_head hskip hb.symm, hds, he, hpoint, Numeral.fractionOctets, List.cons_append]
      · split at h
        · rename_i hmark
          obtain ⟨e, he⟩ := ok_skip_skipExponentRest hmark h hb.symm
          exact ⟨none, some e, he⟩
        · obtain ⟨-, rfl⟩ := ok_pure h
          exact ⟨none, none, rfl⟩

theorem ok_skipUnsigned {u : Unit} (negative : Bool) (h : skipUnsigned.run supply c = (.ok u, c')) :
    ∃ x : Numeral, x.negative = negative ∧
      c.rest = x.whole.octets ++
        (Numeral.fractionOctets x.fraction ++ (Numeral.exponentOctets x.exponent ++ c'.rest)) := by
  obtain ⟨b?, d, hnext, h⟩ := ok_bind h
  cases b? with
  | none => exact absurd h not_ok_refuse
  | some first =>
      obtain ⟨hrest, -⟩ := ok_next_some hnext
      simp only at h
      split at h
      · rename_i hfirst
        subst hfirst
        have hzero : ∀ {d : Cursor}, d.rest = c.rest.tail → skipAfterWhole.run supply d = (.ok u, c') →
            ∃ x : Numeral, x.negative = negative ∧ c.rest = x.whole.octets ++
              (Numeral.fractionOctets x.fraction ++ (Numeral.exponentOctets x.exponent ++ c'.rest)) := by
          intro d hd h
          obtain ⟨f, e, hafter⟩ := ok_skipAfterWhole h
          refine ⟨⟨negative, ⟨[Octet.zero], List.cons_ne_nil _ _, List.forall_mem_singleton.2 (by decide)⟩, f, e,
            fun _ => rfl⟩, rfl, ?_⟩
          rw [hrest, List.tail_cons] at hd
          rw [hrest, ← hd, hafter]
          rfl
        obtain ⟨b?, d', hpeek, h⟩ := ok_bind h
        obtain ⟨-, hrest'⟩ := ok_peek hpeek
        have hd' : d'.rest = c.rest.tail := by rw [hrest', hrest, List.tail_cons]
        cases b? with
        | none => exact hzero hd' h
        | some b =>
            simp only at h
            split at h
            · exact absurd h not_ok_refuse
            · exact hzero hd' h
      · rename_i hfirst
        split at h
        · rename_i hdigit
          obtain ⟨more, d', hdigits, h⟩ := ok_bind h
          obtain ⟨hmore, hisDigit, -⟩ := ok_digits hdigits
          obtain ⟨f, e, hafter⟩ := ok_skipAfterWhole h
          refine ⟨⟨negative, ⟨first :: more, List.cons_ne_nil _ _, List.forall_mem_cons.2 ⟨hdigit, hisDigit⟩⟩, f, e,
            fun hzero => absurd (Option.some.inj hzero) hfirst⟩, rfl, ?_⟩
          rw [hrest, hmore, hafter, List.cons_append]
        · exact absurd h not_ok_refuse

theorem ok_skipNumber {b : UInt8} {u : Unit} (h : (skipNumber b).run supply c = (.ok u, c'))
    (hb : c.rest.head? = some b) : ∃ x : Numeral, c.rest = x.octets ++ c'.rest := by
  rw [skipNumber] at h
  split at h
  · rename_i hminus
    obtain ⟨u', d, hskip, h⟩ := ok_bind h
    obtain ⟨x, hnegative, hrest⟩ := ok_skipUnsigned true h
    refine ⟨x, ?_⟩
    rw [ok_skip_of_head hskip hb, hminus, hrest, Numeral.octets, hnegative]
    simp only [Numeral.signOctets, if_true, List.cons_append, List.nil_append, List.append_assoc]
  · obtain ⟨x, hnegative, hrest⟩ := ok_skipUnsigned false h
    refine ⟨x, ?_⟩
    rw [hrest, Numeral.octets, hnegative]
    simp only [Numeral.signOctets, Bool.false_eq_true, if_false, List.nil_append, List.append_assoc]

/-- A round that goes on has taken plain octets and an escape. -/
theorem ok_skipStringRound_inl (h : (skipStringRound ()).run supply c = (.ok (.inl ()), c')) :
    ∃ run r, (∀ b ∈ run, Octet.isPlain b = true) ∧ c.rest = run ++ Octet.backslash :: (r ++ c'.rest) ∧
      ∀ body, StringForm body → StringForm (Octet.backslash :: (r ++ body)) := by
  obtain ⟨run, d, htake, h⟩ := ok_bind h
  obtain ⟨hrest, hrun, -⟩ := ok_takeWhile htake
  obtain ⟨b?, d', hpeek, h⟩ := ok_bind h
  obtain ⟨hb, hd'⟩ := ok_peek hpeek
  cases b? with
  | none => exact absurd h not_ok_refuse
  | some b =>
      simp only at h
      split at h
      · obtain ⟨u, d'', -, h⟩ := ok_bind h
        cases (ok_pure h).1
      · split at h
        · rename_i hbackslash
          obtain ⟨u, d0, hskip, h⟩ := ok_bind h
          obtain ⟨letter, d1, hletter, h⟩ := ok_bind h
          have hfront : c.rest = run ++ Octet.backslash :: letter :: d1.rest := by
            rw [hrest, ← hd', ok_skip_of_head hskip hb.symm, hbackslash, (ok_inString hletter).1]
          split at h
          · rename_i hu
            obtain ⟨n, d2, hhex, h⟩ := ok_bind h
            obtain ⟨-, rfl⟩ := ok_pure h
            obtain ⟨digits, hdigits, hd1⟩ := ok_fourHex hhex
            refine ⟨run, letter :: digits, hrun, by rw [hfront, hd1, List.cons_append], fun body hbody => ?_⟩
            rw [hu]
            exact .hex hdigits hbody
          · split at h
            · rename_i hescaped
              obtain ⟨-, rfl⟩ := ok_pure h
              obtain ⟨octet, hoctet⟩ := Option.isSome_iff_exists.1 hescaped
              obtain ⟨m, hmem, rfl, -⟩ := mem_shortEscapes hoctet
              exact ⟨run, [_], hrun, hfront, fun body hbody => .short hmem hbody⟩
            · exact absurd h not_ok_refuse
        · exact absurd h not_ok_refuse

/-- The last round has taken plain octets and the closing quote. -/
theorem ok_skipStringRound_inr (h : (skipStringRound ()).run supply c = (.ok (.inr ()), c')) :
    ∃ run, (∀ b ∈ run, Octet.isPlain b = true) ∧ c.rest = run ++ Octet.quote :: c'.rest := by
  obtain ⟨run, d, htake, h⟩ := ok_bind h
  obtain ⟨hrest, hrun, -⟩ := ok_takeWhile htake
  obtain ⟨b?, d', hpeek, h⟩ := ok_bind h
  obtain ⟨hb, hd'⟩ := ok_peek hpeek
  cases b? with
  | none => exact absurd h not_ok_refuse
  | some b =>
      simp only at h
      split at h
      · rename_i hquote
        obtain ⟨u, d'', hskip, h⟩ := ok_bind h
        obtain ⟨-, rfl⟩ := ok_pure h
        exact ⟨run, hrun, by rw [hrest, ← hd', ok_skip_of_head hskip hb.symm, hquote]⟩
      · split at h
        · obtain ⟨u, d0, -, h⟩ := ok_bind h
          obtain ⟨letter, d1, -, h⟩ := ok_bind h
          split at h
          · obtain ⟨n, d2, -, h⟩ := ok_bind h
            cases (ok_pure h).1
          · split at h
            · cases (ok_pure h).1
            · exact absurd h not_ok_refuse
        · exact absurd h not_ok_refuse

theorem ok_skipStringLoop {u : Unit} (h : (loop () skipStringRound).run supply c = (.ok u, c')) :
    ∃ body, StringForm body ∧ c.rest = body ++ Octet.quote :: c'.rest := by
  refine ok_loop (P := fun _ c _ c' => ∃ body, StringForm body ∧ c.rest = body ++ Octet.quote :: c'.rest) ?_ ?_ h
  · intro _ c _ c' hlast
    obtain ⟨run, hrun, hrest⟩ := ok_skipStringRound_inr hlast
    refine ⟨run, ?_, hrest⟩
    have hform := StringForm.append_of_plain hrun .nil
    rwa [List.append_nil] at hform
  · rintro _ c _ d _ c' hnext ⟨body, hbody, hrest'⟩
    obtain ⟨run, r, hrun, hrest, hform⟩ := ok_skipStringRound_inl hnext
    refine ⟨run ++ Octet.backslash :: (r ++ body), (hform body hbody).append_of_plain hrun, ?_⟩
    rw [hrest, hrest']
    simp only [List.append_assoc, List.cons_append]

/-- A string that was skipped has the form of one. -/
theorem ok_skipQuoted {u : Unit} (h : skipQuoted.run supply c = (.ok u, c'))
    (hquote : c.rest.head? = some Octet.quote) : ∃ k, Leaves.form.string "" k ∧ c.rest = k ++ c'.rest := by
  obtain ⟨u', d, hskip, h⟩ := ok_bind h
  obtain ⟨body, hbody, hrest⟩ := ok_skipStringLoop h
  refine ⟨inQuotes body, ⟨body, hbody, rfl⟩, ?_⟩
  rw [ok_skip_of_head hskip hquote, hrest, inQuotes, List.cons_append, List.append_assoc, List.singleton_append]

/-- The octets that skipping has still to take from a state on. -/
inductive Completes : SkipState → List UInt8 → Prop where
  | done : Completes (.after []) []
  | before {opened : List Enclosure} {w s r : List UInt8} {j : Json} (hw : Blanks w)
      (hj : Spells .form (.value j) s) (hr : Completes (.after opened) r) : Completes (.before opened) (w ++ (s ++ r))
  | items {others : List Enclosure} {s r : List UInt8} {js : List Json} (hjs : Spells .form (.items js) s)
      (hr : Completes (.after others) r) : Completes (.within .list others) (s ++ Octet.closeList :: r)
  | members {others : List Enclosure} {s r : List UInt8} {ms : List (String × Json)}
      (hms : Spells .form (.members ms) s) (hr : Completes (.after others) r) :
      Completes (.within .object others) (s ++ Octet.closeObject :: r)
  | moreItems {others : List Enclosure} {s r : List UInt8} {js : List Json} (hjs : Spells .form (.moreItems js) s)
      (hr : Completes (.after others) r) : Completes (.after (.list :: others)) (s ++ Octet.closeList :: r)
  | moreMembers {others : List Enclosure} {s r : List UInt8} {ms : List (String × Json)}
      (hms : Spells .form (.moreMembers ms) s) (hr : Completes (.after others) r) :
      Completes (.after (.object :: others)) (s ++ Octet.closeObject :: r)

/-- What the head of a value is, with the state behind it: a value without parts, or an opening. -/
inductive IsHead (opened : List Enclosure) : List UInt8 → SkipState → Prop where
  | leaf {s : List UInt8} {j : Json} (hj : Spells .form (.value j) s) : IsHead opened s (.after opened)
  | list : IsHead opened [Octet.openList] (.within .list opened)
  | object : IsHead opened [Octet.openObject] (.within .object opened)

theorem IsHead.value {opened : List Enclosure} {s r : List UInt8} {state : SkipState} (h : IsHead opened s state)
    (hr : Completes state r) :
    ∃ j t r', Spells .form (.value j) t ∧ Completes (.after opened) r' ∧ s ++ r = t ++ r' := by
  cases h with
  | leaf hj => exact ⟨_, _, _, hj, hr, rfl⟩
  | list =>
      cases hr with
      | items hjs hr =>
          refine ⟨_, _, _, .list hjs, hr, ?_⟩
          simp only [List.cons_append, List.nil_append, List.append_assoc]
  | object =>
      cases hr with
      | members hms hr =>
          refine ⟨_, _, _, .object hms, hr, ?_⟩
          simp only [List.cons_append, List.nil_append, List.append_assoc]

theorem ok_skipHead {opened : List Enclosure} {state : SkipState}
    (h : (skipHead opened).run supply c = (.ok state, c')) :
    ∃ w s, Blanks w ∧ IsHead opened s state ∧ c.rest = w ++ (s ++ c'.rest) := by
  obtain ⟨b, d, hstart, h⟩ := ok_bind h
  obtain ⟨w, r, hw, hrest, hd, -⟩ := ok_valueStart hstart
  have hhead : d.rest.head? = some b := by rw [hd]; rfl
  rw [← hd] at hrest
  cases hkind : kind? b with
  | none =>
      rw [hkind] at h
      exact absurd h not_ok_refuse
  | some k =>
      rw [hkind] at h
      cases k with
      | null =>
          obtain ⟨u, d', hword, h⟩ := ok_bind h
          obtain ⟨rfl, rfl⟩ := ok_pure h
          obtain rfl := eq_of_kind? hkind rfl
          exact ⟨w, _, hw, .leaf .null, by rw [hrest, ok_skip_word hword hd]; rfl⟩
      | bool x =>
          obtain ⟨u, d', hword, h⟩ := ok_bind h
          obtain ⟨rfl, rfl⟩ := ok_pure h
          obtain rfl := eq_of_kind? hkind rfl
          refine ⟨w, _, hw, .leaf (.bool x), ?_⟩
          rw [hrest, ok_skip_word hword hd]
          cases x <;> rfl
      | number =>
          obtain ⟨u, d', hnumber, h⟩ := ok_bind h
          obtain ⟨rfl, rfl⟩ := ok_pure h
          obtain ⟨x, hx⟩ := ok_skipNumber hnumber hhead
          exact ⟨w, x.octets, hw, .leaf (.number (n := .int 0) ⟨x, rfl⟩), by rw [hrest, hx]⟩
      | string =>
          obtain ⟨u, d', hquoted, h⟩ := ok_bind h
          obtain ⟨rfl, rfl⟩ := ok_pure h
          rw [eq_of_kind? hkind rfl] at hhead
          obtain ⟨k, hk, hd'⟩ := ok_skipQuoted hquoted hhead
          exact ⟨w, k, hw, .leaf (.str hk), by rw [hrest, hd']⟩
      | list =>
          obtain ⟨u, d', hskip, h⟩ := ok_bind h
          obtain ⟨rfl, rfl⟩ := ok_pure h
          rw [eq_of_kind? hkind rfl] at hhead
          exact ⟨w, _, hw, .list, by rw [hrest, ok_skip_of_head hskip hhead]; rfl⟩
      | object =>
          obtain ⟨u, d', hskip, h⟩ := ok_bind h
          obtain ⟨rfl, rfl⟩ := ok_pure h
          rw [eq_of_kind? hkind rfl] at hhead
          exact ⟨w, _, hw, .object, by rw [hrest, ok_skip_of_head hskip hhead]; rfl⟩

theorem ok_skipKey {u : Unit} (h : skipKey.run supply c = (.ok u, c')) :
    ∃ w k w1, Blanks w ∧ Leaves.form.string "" k ∧ Blanks w1 ∧
      c.rest = w ++ (k ++ (w1 ++ Octet.colon :: c'.rest)) := by
  obtain ⟨b?, d, hpeek, h⟩ := ok_bind h
  cases b? with
  | none => exact absurd h not_ok_refuse
  | some b =>
      obtain ⟨w, t, hw, hrest, hd, -⟩ := ok_peekPastBlanks_some hpeek
      simp only at h
      split at h
      · rename_i hquote
        obtain ⟨u', d', hquoted, h⟩ := ok_bind h
        obtain ⟨k, hk, hd'⟩ := ok_skipQuoted hquoted (by rw [hd, hquote]; rfl)
        obtain ⟨w1, hw1, hrest'⟩ := ok_colon h
        exact ⟨w, k, w1, hw, hk, hw1, by rw [hrest, ← hd, hd', hrest']⟩
      · exact absurd h not_ok_refuse

namespace Completes

variable {opened others : List Enclosure} {state : SkipState} {u w : List UInt8}

/-- A close in front of what is left around it. -/
theorem close {innermost : Enclosure} (hw : Blanks w) (hu : Completes (.after others) u) :
    Completes (.within innermost others) (w ++ innermost.close :: u) ∧
      Completes (.after (innermost :: others)) (w ++ innermost.close :: u) := by
  cases innermost with
  | list => exact ⟨.items (.noItems hw) hu, .moreItems (.endItems hw) hu⟩
  | object => exact ⟨.members (.noMembers hw) hu, .moreMembers (.endMembers hw) hu⟩

theorem head {s : List UInt8} (hw : Blanks w) (hs : IsHead opened s state) (hu : Completes state u) :
    Completes (.before opened) (w ++ (s ++ u)) := by
  obtain ⟨j, t, r, hj, hr, heq⟩ := hs.value hu
  rw [heq]
  exact .before hw hj hr

/-- The first item of a list. -/
theorem firstItem {w' s : List UInt8} (hw : Blanks w) (hw' : Blanks w') (hs : IsHead (.list :: others) s state)
    (hu : Completes state u) : Completes (.within .list others) (w ++ (w' ++ (s ++ u))) := by
  obtain ⟨j, t, r, hj, hr, heq⟩ := hs.value hu
  cases hr with
  | @moreItems _ more r js hjs hr =>
      have hitems := Spells.items (List.forall_mem_append.2 ⟨hw, hw'⟩) hj hjs
      have h := items hitems hr
      rw [heq]
      simpa only [List.append_assoc] using h

theorem comma (hw : Blanks w) (hu : Completes (.before (.list :: others)) u) :
    Completes (.after (.list :: others)) (w ++ Octet.comma :: u) := by
  cases hu with
  | before hw' hj hr =>
      cases hr with
      | moreItems hjs hr =>
          have h := moreItems (.moreItems hw hw' hj hjs) hr
          simpa only [List.append_assoc, List.cons_append] using h

section Key

variable {w' k w1 : List UInt8} (hw : Blanks w) (hw' : Blanks w') (hk : Leaves.form.string "" k) (hw1 : Blanks w1)
  (hu : Completes (.before (.object :: others)) u)
include hw hw' hk hw1 hu

theorem firstKey : Completes (.within .object others) (w ++ (w' ++ (k ++ (w1 ++ Octet.colon :: u)))) := by
  cases hu with
  | before hw2 hj hr =>
      cases hr with
      | moreMembers hms hr =>
          have h := members (.members (List.forall_mem_append.2 ⟨hw, hw'⟩) hk hw1 hw2 hj hms) hr
          simpa only [List.append_assoc, List.cons_append] using h

theorem nextKey :
    Completes (.after (.object :: others)) (w ++ Octet.comma :: (w' ++ (k ++ (w1 ++ Octet.colon :: u)))) := by
  cases hu with
  | before hw2 hj hr =>
      cases hr with
      | moreMembers hms hr =>
          have h := moreMembers (.moreMembers hw hw' hk hw1 hw2 hj hms) hr
          simpa only [List.append_assoc, List.cons_append] using h

end Key

end Completes

section Rounds

variable {opened others : List Enclosure} {innermost : Enclosure} {state : SkipState} {u : List UInt8}

theorem ok_skipRound_before (h : (skipRound (.before opened)).run supply c = (.ok (.inl state), c'))
    (hu : Completes state u) : ∃ s, c.rest = s ++ c'.rest ∧ Completes (.before opened) (s ++ u) := by
  obtain ⟨state', d, hhead, h⟩ := ok_bind h
  obtain ⟨hstate, rfl⟩ := ok_pure h
  obtain rfl := Sum.inl.inj hstate
  obtain ⟨w, s, hw, hs, hrest⟩ := ok_skipHead hhead
  refine ⟨w ++ s, by rw [hrest, List.append_assoc], ?_⟩
  rw [List.append_assoc]
  exact .head hw hs hu

/-- The close of what is innermost, behind blanks. -/
theorem ok_skip_close {d : Cursor} {w : List UInt8} (hw : Blanks w) (hrest : c.rest = w ++ d.rest)
    (hhead : d.rest.head? = some innermost.close)
    (h : (do skip; pure (.inl (.after others)) : Scan (SkipState ⊕ Unit)).run supply d = (.ok (.inl state), c'))
    (hu : Completes state u) :
    ∃ s, c.rest = s ++ c'.rest ∧ Completes (.within innermost others) (s ++ u) ∧
      Completes (.after (innermost :: others)) (s ++ u) := by
  obtain ⟨v, d', hskip, h⟩ := ok_bind h
  obtain ⟨hstate, rfl⟩ := ok_pure h
  obtain rfl := Sum.inl.inj hstate
  refine ⟨w ++ [innermost.close], ?_, ?_⟩
  · rw [hrest, ok_skip_of_head hskip hhead, List.append_assoc, List.singleton_append]
  · rw [List.append_assoc, List.singleton_append]
    exact Completes.close hw hu

theorem ok_skipRound_within (h : (skipRound (.within innermost others)).run supply c = (.ok (.inl state), c'))
    (hu : Completes state u) : ∃ s, c.rest = s ++ c'.rest ∧ Completes (.within innermost others) (s ++ u) := by
  obtain ⟨b?, d, hpeek, h⟩ := ok_bind h
  cases b? with
  | none => exact absurd h not_ok_refuse
  | some b =>
      obtain ⟨w, t, hw, hrest, hd, -⟩ := ok_peekPastBlanks_some hpeek
      rw [← hd] at hrest
      simp only at h
      split at h
      · rename_i hclose
        obtain ⟨s, hs, hcompletes, -⟩ := ok_skip_close hw hrest (by rw [hd, hclose]; rfl) h hu
        exact ⟨s, hs, hcompletes⟩
      · cases innermost with
        | list =>
            obtain ⟨state', d', hhead, h⟩ := ok_bind h
            obtain ⟨hstate, rfl⟩ := ok_pure h
            obtain rfl := Sum.inl.inj hstate
            obtain ⟨w', s, hw', hs, hrest'⟩ := ok_skipHead hhead
            refine ⟨w ++ (w' ++ s), by rw [hrest, hrest']; simp only [List.append_assoc], ?_⟩
            simp only [List.append_assoc]
            exact .firstItem hw hw' hs hu
        | object =>
            obtain ⟨v, d', hkey, h⟩ := ok_bind h
            obtain ⟨hstate, rfl⟩ := ok_pure h
            obtain rfl := Sum.inl.inj hstate
            obtain ⟨w', k, w1, hw', hk, hw1, hrest'⟩ := ok_skipKey hkey
            refine ⟨w ++ (w' ++ (k ++ (w1 ++ [Octet.colon]))), ?_, ?_⟩
            · rw [hrest, hrest']
              simp only [List.append_assoc, List.singleton_append]
            · simp only [List.append_assoc, List.singleton_append]
              exact .firstKey hw hw' hk hw1 hu

theorem ok_skipRound_after (h : (skipRound (.after (innermost :: others))).run supply c = (.ok (.inl state), c'))
    (hu : Completes state u) :
    ∃ s, c.rest = s ++ c'.rest ∧ Completes (.after (innermost :: others)) (s ++ u) := by
  obtain ⟨b?, d, hpeek, h⟩ := ok_bind h
  cases b? with
  | none => exact absurd h not_ok_refuse
  | some b =>
      obtain ⟨w, t, hw, hrest, hd, -⟩ := ok_peekPastBlanks_some hpeek
      rw [← hd] at hrest
      simp only at h
      split at h
      · rename_i hclose
        obtain ⟨s, hs, -, hcompletes⟩ := ok_skip_close hw hrest (by rw [hd, hclose]; rfl) h hu
        exact ⟨s, hs, hcompletes⟩
      · split at h
        · rename_i hcomma
          obtain ⟨v, d', hskip, h⟩ := ok_bind h
          have hhead : d.rest.head? = some Octet.comma := by rw [hd, hcomma]; rfl
          rw [ok_skip_of_head hskip hhead] at hrest
          cases innermost with
          | list =>
              obtain ⟨hstate, rfl⟩ := ok_pure h
              obtain rfl := Sum.inl.inj hstate
              refine ⟨w ++ [Octet.comma], by rw [hrest, List.append_assoc, List.singleton_append], ?_⟩
              rw [List.append_assoc, List.singleton_append]
              exact .comma hw hu
          | object =>
              obtain ⟨v', d'', hkey, h⟩ := ok_bind h
              obtain ⟨hstate, rfl⟩ := ok_pure h
              obtain rfl := Sum.inl.inj hstate
              obtain ⟨w', k, w1, hw', hk, hw1, hrest'⟩ := ok_skipKey hkey
              refine ⟨w ++ Octet.comma :: (w' ++ (k ++ (w1 ++ [Octet.colon]))), ?_, ?_⟩
              · rw [hrest, hrest']
                simp only [List.append_assoc, List.cons_append, List.nil_append]
              · simp only [List.append_assoc, List.cons_append, List.nil_append]
                exact .nextKey hw hw' hk hw1 hu
        · exact absurd h not_ok_refuse

/-- A round that goes on takes a piece in front of what skipping has still to take behind it. -/
theorem ok_skipRound {state' : SkipState} (h : (skipRound state').run supply c = (.ok (.inl state), c'))
    (hu : Completes state u) : ∃ s, c.rest = s ++ c'.rest ∧ Completes state' (s ++ u) := by
  cases state' with
  | before opened => exact ok_skipRound_before h hu
  | within innermost others => exact ok_skipRound_within h hu
  | after opened =>
      cases opened with
      | nil => cases (ok_pure h).1
      | cons innermost others => exact ok_skipRound_after h hu

end Rounds

/-- The last round takes nothing, since nothing is open any more. -/
theorem ok_skipRound_inr {state : SkipState} {v : Unit} (h : (skipRound state).run supply c = (.ok (.inr v), c')) :
    state = .after [] ∧ c' = c := by
  cases state with
  | before opened =>
      obtain ⟨state, d, -, h⟩ := ok_bind h
      cases (ok_pure h).1
  | within innermost others =>
      obtain ⟨b?, d, -, h⟩ := ok_bind h
      cases b? with
      | none => exact absurd h not_ok_refuse
      | some b =>
          simp only at h
          split at h
          · obtain ⟨v, d', -, h⟩ := ok_bind h
            cases (ok_pure h).1
          · cases innermost <;> obtain ⟨v, d', -, h⟩ := ok_bind h <;> cases (ok_pure h).1
  | after opened =>
      cases opened with
      | nil => exact ⟨rfl, (ok_pure h).2⟩
      | cons innermost others =>
          obtain ⟨b?, d, -, h⟩ := ok_bind h
          cases b? with
          | none => exact absurd h not_ok_refuse
          | some b =>
              simp only at h
              split at h
              · obtain ⟨v, d', -, h⟩ := ok_bind h
                cases (ok_pure h).1
              · split at h
                · obtain ⟨v, d', -, h⟩ := ok_bind h
                  cases innermost with
                  | list => cases (ok_pure h).1
                  | object =>
                      obtain ⟨v', d'', -, h⟩ := ok_bind h
                      cases (ok_pure h).1
                · exact absurd h not_ok_refuse

/-- A value that was skipped stands there, by its form, perhaps behind blanks. -/
theorem ok_skipValue {v : Unit} (h : skipValue.run supply c = (.ok v, c')) :
    ∃ w s j, Blanks w ∧ Spells .form (.value j) s ∧ c.rest = w ++ (s ++ c'.rest) := by
  have hloop : ∃ u, Completes (.before []) u ∧ c.rest = u ++ c'.rest := by
    refine ok_loop (P := fun state c _ c' => ∃ u, Completes state u ∧ c.rest = u ++ c'.rest) ?_ ?_ h
    · intro state c _ c' hlast
      obtain ⟨rfl, rfl⟩ := ok_skipRound_inr hlast
      exact ⟨[], .done, rfl⟩
    · rintro state c state' d _ c' hnext ⟨u, hu, hrest⟩
      obtain ⟨s, hs, hcompletes⟩ := ok_skipRound hnext hu
      exact ⟨s ++ u, hcompletes, by rw [hs, hrest, List.append_assoc]⟩
  obtain ⟨u, hu, hrest⟩ := hloop
  cases hu with
  | @before _ w s r j hw hj hr =>
      cases hr with
      | done =>
          rw [List.append_nil] at hrest
          exact ⟨w, s, j, hw, hj, by rw [hrest, List.append_assoc]⟩

end BlockModel.Scan
