import BlockModel.Proofs.Scan.Cut
import BlockModel.Proofs.Scan.WholeNumber

/-! Values at a cut. A number that is cut off may be a number still, but a shorter one: of a whole number in range a
whole number in range is left. Every other value ends with a mark or word of its own, so it is missed where it is cut
off; and a list in its brackets is taken wherever they stand, whatever follows. -/

namespace BlockModel.Scan

variable {α : Type} {inside : Bool} {c c' d d' : Cursor} {q : List UInt8}

/-- What is made of a number that was read. -/
def ofNumber (range : IntRange) : JsonNumber → Scan Int
  | .int n => if range.holds n then pure n else refuseData .here (.wrongValue (.int n) range.name)
  | .float x => refuseData .here (.wrongType (.float x) range.name)

theorem ok_ofNumber {range : IntRange} {number : JsonNumber} {n : Int}
    (h : (ofNumber range number).run .document c = (.ok n, c')) : number = .int n ∧ range.holds n = true := by
  cases number with
  | float x => exact absurd h not_ok_refuseData
  | int m =>
      rw [ofNumber] at h
      split at h
      · rename_i hholds
        obtain ⟨rfl, -⟩ := ok_pure h
        exact ⟨rfl, hholds⟩
      · exact absurd h not_ok_refuseData

theorem withstands_ofNumber (range : IntRange) (number : JsonNumber) : Withstands inside (ofNumber range number) := by
  cases number with
  | int n => exact .ite (.pure n) (.refuseData _ _)
  | float x => exact .refuseData _ _

/-- What is left of a whole number in range is one too. -/
theorem withstands_int {range : IntRange} (hzero : range.holds 0 = true) : Withstands inside (int range) := by
  show Withstands inside (valueStart >>= fun b =>
    if kind? b = some .number then number b >>= ofNumber range else mismatch range.name b)
  refine .valueStart_at fun b c d q hrest hhead => ?_
  by_cases hkind : kind? b = some .number
  · rw [if_pos hkind]
    have h : Curtailed inside q ((number b).run .document c) ((number b).run .document d) :=
      Withstands.regular (.number b) c d q hrest
    refine h.bind (fun x c1 d1 _ => withstands_ofNumber range x c1 d1 q) ?_
    intro x c1 y d1 hc hd hnone hspent e c2 n d2 he hn
    -- The whole has a number in range here, and the front has one that is a front of it.
    obtain ⟨rfl, hholds⟩ := ok_ofNumber hn
    obtain ⟨x', hx, -, hcx⟩ := ok_number hc hhead
    obtain ⟨y', hy, -, hdy⟩ := ok_number hd (by rw [hrest, List.head?_append, hhead]; rfl)
    rw [hnone, List.append_nil] at hcx
    rw [hrest, hcx] at hdy
    have hlength := congrArg List.length hdy
    rw [List.length_append, List.length_append] at hlength
    obtain ⟨t, ht⟩ := List.prefix_of_prefix_length_le (List.prefix_append x'.octets q)
      (hdy ▸ List.prefix_append y'.octets d1.rest) (by omega)
    obtain ⟨m, hm, hbetween⟩ := Numeral.int_of_front hy ht.symm
    rw [hx] at hm
    obtain rfl := Option.some.inj hm
    rw [ofNumber, if_pos (IntRange.holds_between hzero hholds hbetween)] at he
    cases he
  · rw [if_neg hkind]
    exact Withstands.mismatch range.name b c d q hrest

theorem needsMore_tree (room : Nat) : NeedsMore inside (tree room) := by
  cases room with
  | zero => exact needsMore_valueStart _
  | succ room => exact needsMore_valueStart _

/-- Trees at the same place are of the same kind. -/
theorem kind_eq_of_stands {room : Nat} {j j' : Json} {u t q : List UInt8} (hj : Stands room j u [])
    (hj' : Stands room j' (u ++ q) t) : j.kind = j'.kind := by
  obtain ⟨-, w, s, hw, hs, -, rfl⟩ := hj
  obtain ⟨-, w', s', hw', hs', -, heq⟩ := hj'
  obtain ⟨b, r, rfl, hkind⟩ := hs.form.kind?_head
  obtain ⟨b', r', rfl, hkind'⟩ := hs'.form.kind?_head
  have htakes : Takes valueStart (w ++ (b :: r ++ []) ++ q) b (b :: (r ++ q)) := by
    have h := takes_valueStart (t := r ++ q) hw (not_isBlank_of_kind? hkind)
    simpa only [List.append_assoc, List.cons_append, List.nil_append, List.append_nil] using h
  have htakes' : Takes valueStart (w' ++ (b' :: r' ++ t)) b' (b' :: (r' ++ t)) :=
    takes_valueStart hw' (not_isBlank_of_kind? hkind')
  obtain ⟨c, hrun, -⟩ := htakes (.ofOctets _) rfl
  obtain ⟨c', hrun', -⟩ := htakes' (.ofOctets (w ++ (b :: r ++ []) ++ q)) heq
  rw [hrun] at hrun'
  obtain rfl : b = b' := by
    cases hrun'
    rfl
  exact Option.some.inj (hkind.symm.trans hkind')

/-- A tree that is no number knows its own end, so it stands in front of anything else too. -/
theorem stands_append {room : Nat} {j : Json} {u : List UInt8} (h : Stands room j u []) (hkind : j.kind ≠ .number)
    (q : List UInt8) : Stands room j (u ++ q) q := by
  obtain ⟨hle, w, s, hw, hs, -, rfl⟩ := h
  refine ⟨hle, w, s, hw, hs, hs.endsBefore hkind q, ?_⟩
  rw [List.append_nil, List.append_assoc]

section Judged

variable {k : Json → Scan α} {judge : Json → Option α} {fault : DataFault}
  (hk : ∀ j, k j = (judge j).elim (refuseData .enclosing fault) pure) (hnumber : ∀ n, judge (.number n) = none)
include hk hnumber

/-- Where one tree is refused and another is not, they differ, and the other is no number. -/
theorem ne_of_judged {j j' : Json} {e : Failure} {a : α} (he : (k j).run .document c = (.error e, c'))
    (ha : (k j').run .document d = (.ok a, d')) : j' ≠ j ∧ ∀ n, j' ≠ .number n := by
  rw [hk] at he ha
  cases hj' : judge j' with
  | none =>
      rw [hj'] at ha
      exact absurd ha not_ok_refuseData
  | some b =>
      constructor
      · rintro rfl
        rw [hj'] at he
        cases he
      · rintro n rfl
        rw [hnumber] at hj'
        cases hj'

/-- What is no number is taken up to its own end, so a front of it that is whole is the same tree. -/
theorem withstands_judged (room : Nat) : Withstands inside (tree room >>= k) := by
  intro c d q hrest
  have htree : Curtailed inside q ((tree room).run .document c) ((tree room).run .document d) :=
    Withstands.regular (.tree room) c d q hrest
  refine htree.bind (fun j c1 d1 _ hrest1 => ?_) ?_
  · rw [hk]
    cases judge j with
    | none => exact Withstands.refuseData _ _ c1 d1 q hrest1
    | some a => exact Withstands.pure a c1 d1 q hrest1
  · intro j c1 j' d1 hc hd hnone _ e c2 a d2 he ha
    obtain ⟨hne, hother⟩ := ne_of_judged hk hnumber he ha
    have hj : Stands room j c.rest [] := hnone ▸ ok_tree hc
    have hj' : Stands room j' (c.rest ++ q) d1.rest := hrest ▸ ok_tree hd
    have hkind : j.kind ≠ .number := by
      intro hnumber
      rw [kind_eq_of_stands hj hj'] at hnumber
      cases j' with
      | number n => exact hother n rfl
      | null | bool | str | list | object => cases hnumber
    obtain ⟨d', hrun, -⟩ := takes_tree_iff.2 (stands_append hj hkind q) d hrest
    rw [hd] at hrun
    cases hrun
    exact absurd rfl hne

end Judged

theorem Reads.sparesAtEnd {m : Means} {limit : Nat} {P : α → Prop} {part : Part} {p r : Scan α}
    (hearly : m.early → inside = false) (h : Reads m limit part P p r) (hpart : part.spared = true) :
    SparesAtEnd inside p := by
  induction h with
  | pure | lastPlace => exact .pure _
  | refused _ hspared =>
      obtain rfl := hearly (hspared hpart)
      exact .regular (.refuseData rfl rfl _)
  | report _ line _ ih => exact .bind (.regular (.report line)) fun _ => ih hpart
  | before _ _ ih ihk => exact .bind (ih hpart) fun b => ihk b rfl
  | mono _ _ ih => exact ih hpart
  | tree _ room => exact (needsMore_tree room).sparesAtEnd
  | skipValue => exact .regular .skipValue
  | string | bool | start => exact (needsMore_valueStart _).sparesAtEnd
  | int => exact (needsMore_valueStart _).sparesAtEnd
  | optional _ ih =>
      refine .bind (.regular .peekPastBlanks) fun b? => .ite (.regular (.bind .nullWord fun _ => .pure _)) ?_
      exact .map (ih hpart) _
  | judged room => exact ((needsMore_tree room).bind _).sparesAtEnd
  | items => exact ((needsMore_itemRound _).loop.bind _).sparesAtEnd
  | place | firstPlace => exact ((needsMore_place? _).bind _).sparesAtEnd
  | members => exact ((needsMore_memberRound _).loop.bind _).sparesAtEnd
  | mismatch | tooDeep | boolWord | quoted | inList | inPlaces | inObject | colon | apply => cases hpart

/-- Readers withstand a cut, if those of an `apply` do. Inside of an `apply` none refuses a shape early. -/
theorem Reads.withstands {m : Means} {limit : Nat} {P : α → Prop} {part : Part} {p r : Scan α}
    (hearly : m.early → inside = false)
    (happlied : ∀ {β : Type} (p : Scan β), m.applied p → Withstands true p ∧ SparesAtEnd true p)
    (h : Reads m limit part P p r) : Withstands inside p := by
  induction h with
  | pure | lastPlace => exact .pure _
  | refused => exact .refuseData _ _
  | report _ line _ ih => exact .bind_settled (.regular (.report line)) (.report line) fun _ => ih
  | before _ hk ih ihk => exact .bind ih ihk fun b => (hk b).sparesAtEnd hearly rfl
  | mono _ _ ih => exact ih
  | tree _ room => exact .regular (.tree room)
  | skipValue => exact .regular .skipValue
  | string => exact .string
  | bool => exact .bool
  | int _ _ hzero => exact withstands_int hzero
  | optional h ih => exact .optional ih (h.sparesAtEnd hearly rfl)
  | judged room hk hnumber => exact withstands_judged hk hnumber room
  | start _ _ ih => exact .valueStart ih
  | mismatch b => exact .mismatch _ b
  | tooDeep => exact .regular .tooDeep
  | boolWord => exact .regular (.boolWord _)
  | quoted => exact .regular .quoted
  | inList _ h ih => exact .inList ih (h.sparesAtEnd hearly rfl)
  | inPlaces _ _ h ih => exact .inPlaces ih (h.sparesAtEnd hearly rfl)
  | inObject _ h ih => exact .inObject ih (h.sparesAtEnd hearly rfl)
  | items hitem ih => exact .items ih (hitem.advances trivial)
  | place _ _ hk ih ihk => exact .bind (.place? ih _) ihk fun b? => (hk b?).sparesAtEnd hearly rfl
  | firstPlace _ hnone _ _ _ ih =>
      -- A string knows its end, so what is missing behind it is missing in the whole too.
      refine .bind_settled (.place? .string true) (.place? .string true) fun s? => ?_
      cases s? with
      | none => exact hnone ▸ .refuseData _ _
      | some s => exact ih s
  | members _ _ _ ih ihk => exact .bind_leaving (.members ih _) (leavesSome_members _ _) ihk
  | colon h ih => exact .bind (.regular .colon) (fun _ => ih) fun _ => h.sparesAtEnd hearly rfl
  | apply hp hk ih =>
      obtain ⟨hcut, hend⟩ := happlied _ hp
      have hkend := fun b => (hk b).sparesAtEnd hearly rfl
      exact .bind (.regular .colon) (fun _ => .bind (.payload hcut) ih hkend) fun _ => .bind (.payload hend) hkend

/-- The items of a list are over where its bracket stands. -/
theorem exists_close_of_items {item : Scan α} {as : List α} (h : (items item).run .document c = (.ok as, c')) :
    ∃ t, c'.rest = Octet.closeList :: t := by
  obtain ⟨reversed, hloop, -⟩ := ok_map h
  refine ok_loop (P := fun _ _ _ c' => ∃ t, c'.rest = Octet.closeList :: t) ?_ (fun _ _ _ _ _ _ _ h => h) hloop
  intro sofar c as c' hlast
  obtain ⟨w, t, -, -, hrest⟩ := ok_hasItem_false (ok_itemRound_inr hlast).1
  exact ⟨t, hrest⟩

namespace Withstands

variable {p : Scan α} {a : α} {s t : List UInt8} {b : UInt8}

/-- What is taken up to an octet is taken wherever the same stands in front of that octet. -/
theorem takes_before (hp : Withstands inside p) (h : p.run .document c = (.ok a, c')) (hc : c.rest = s ++ b :: t)
    (hc' : c'.rest = b :: t) (t' : List UInt8) : Takes p (s ++ b :: t') a (b :: t') := by
  have hsplit : ∀ q : List UInt8, s ++ b :: q = (s ++ [b]) ++ q := fun q => by
    rw [List.append_assoc, List.singleton_append]
  -- The front that ends with that octet is a front of both.
  have hfront := hp { c with rest := s ++ [b] } c t (hc.trans (hsplit t))
  rw [h] at hfront
  rcases hcut : p.run .document { c with rest := s ++ [b] } with ⟨e | a', c1⟩ <;> rw [hcut] at hfront
  · cases hfront with
    | spent _ hspent _ =>
        rw [hc', List.length_cons] at hspent
        exact absurd hspent (Nat.not_succ_le_self _)
  · cases hfront with
    | spent _ hspent _ =>
        rw [hc', List.length_cons] at hspent
        exact absurd hspent (Nat.not_succ_le_self _)
    | same hrest =>
        have hone : c1.rest = [b] := List.append_cancel_right (hrest.symm.trans hc')
        intro d hd
        have hwhole := hp { c with rest := s ++ [b] } d t' (hd.trans (hsplit t'))
        rw [hcut] at hwhole
        rcases hrun : p.run .document d with ⟨e | a', d'⟩ <;> rw [hrun] at hwhole
        · cases hwhole with
          | spent hnone _ _ => exact absurd (hone.symm.trans hnone) (List.cons_ne_nil _ _)
        · cases hwhole with
          | spent hnone _ _ => exact absurd (hone.symm.trans hnone) (List.cons_ne_nil _ _)
          | same hrest' =>
              rw [hone] at hrest'
              exact ⟨d', rfl, hrest'⟩

/-- A list that was read is taken with its brackets wherever it stands. -/
theorem takes_list (hp : Withstands inside p)
    (hclosed : ∀ c a c', p.run .document c = (.ok a, c') → ∃ t, c'.rest = Octet.closeList :: t) {expected : String}
    (h : (Scan.expectList expected (Scan.inList p)).run .document c = (.ok a, c')) :
    ∃ s, c.rest = s ++ c'.rest ∧ ∀ t, Takes (Scan.expectList expected (Scan.inList p)) (s ++ t) a t := by
  obtain ⟨b, c1, hstart, h⟩ := ok_bind h
  obtain ⟨w, r, hw, hrest, hc1, hb⟩ := ok_valueStart hstart
  split at h
  · rename_i hkind
    obtain ⟨u, c2, hskip, h⟩ := ok_bind h
    obtain ⟨c3, hinside, hclose⟩ := ok_enclosed h
    obtain ⟨t, hc3⟩ := hclosed _ _ _ hinside
    obtain ⟨s, hc2, -⟩ := Cursor.Reaches.of_run hinside
    rw [hc3] at hc2
    have hr : r = s ++ Octet.closeList :: t := by rw [← hc2, ok_skip hskip, hc1, List.tail_cons]
    refine ⟨w ++ b :: (s ++ [Octet.closeList]), ?_, fun t' => ?_⟩
    · rw [hrest, hr, ok_closeList hclose hc3]
      simp only [List.append_assoc, List.cons_append, List.nil_append]
    · have hlist : Takes (Scan.inList p) (b :: (s ++ Octet.closeList :: t')) a t' :=
        (Takes.skip _ _).bind ((hp.takes_before hinside hc2 hc3 t').enclosed (.of_gives fun _ => gives_closeList))
      have htakes : Takes (Scan.expectList expected (Scan.inList p)) (w ++ b :: (s ++ Octet.closeList :: t')) a t' := by
        refine (takes_valueStart hw hb).bind ?_
        rw [if_pos hkind]
        exact hlist
      simpa only [List.append_assoc, List.cons_append, List.nil_append] using htakes
  · obtain ⟨found, c2, -, h⟩ := ok_bind h
    exact absurd h not_ok_refuseData

end Withstands

end BlockModel.Scan
