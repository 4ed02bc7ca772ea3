import BlockModel.Proofs.Scan.Reads
import BlockModel.Proofs.Scan.Skipped

/-! The form of what plans take. A plan that ends with a value has taken a piece from the front of the octets, and
which form this piece has is a relation between what is left before and what is left behind it. There is one rule for
each way to build a plan, so a reader that is made of readers of values takes a value itself, whichever of them it
uses, and also where it keeps nothing of what it read. -/

namespace BlockModel.Scan

variable {α β σ : Type} {b : UInt8} {P Q R : List UInt8 → List UInt8 → Prop} {u t r w : List UInt8} {first : Bool}

/-- Wherever the plan ends with a value, what is left before it and behind it are in a relation. -/
def Consumes (R : List UInt8 → List UInt8 → Prop) (p : Scan α) : Prop :=
  ∀ supply c a c', p.run supply c = (.ok a, c') → R c.rest c'.rest

/-- What is taken is a value by its form, perhaps behind blanks. -/
def ByValue (u t : List UInt8) : Prop :=
  ∃ w s j, Blanks w ∧ Spells .form (.value j) s ∧ u = w ++ (s ++ t)

/-- What is taken is a list by its form, perhaps behind blanks. -/
def ByList (u t : List UInt8) : Prop :=
  ∃ w s js, Blanks w ∧ Spells .form (.value (.list js)) s ∧ u = w ++ (s ++ t)

/-- What is taken is a value by its form, where it begins with an octet. -/
def ByValueFrom (b : UInt8) (u t : List UInt8) : Prop :=
  u.head? = some b → ∃ s j, Spells .form (.value j) s ∧ u = s ++ t

/-- What is taken behind a key is a colon and a value by its form. -/
def ByMemberValue (u t : List UInt8) : Prop := ∃ w v, Blanks w ∧ u = w ++ Octet.colon :: v ∧ ByValue v t

/-- What is left inside of a list, from its start on or after an item, and its closing bracket stand in front of a
text. -/
def ItemsBefore (first : Bool) (r u : List UInt8) : Prop :=
  ∃ js s, Spells .form (itemsFrom first js) s ∧ u = s ++ Octet.closeList :: r

/-- What is taken belongs to the inside of a list. -/
def ByItems (first : Bool) (u t : List UInt8) : Prop := ∀ r, ItemsBefore false r t → ItemsBefore first r u

/-- What is left inside of an object and its closing brace stand in front of a text. -/
def MembersBefore (first : Bool) (r u : List UInt8) : Prop :=
  ∃ ms s, Spells .form (membersFrom first ms) s ∧ u = s ++ Octet.closeObject :: r

/-- What is taken belongs to the inside of an object. -/
def ByMembers (first : Bool) (u t : List UInt8) : Prop := ∀ r, MembersBefore false r t → MembersBefore first r u

/-- A value that begins like a list is one. -/
theorem ByValueFrom.exists_list (h : ByValueFrom b u t) (hkind : kind? b = some .list) (hhead : u.head? = some b) :
    ∃ s js, Spells .form (.value (.list js)) s ∧ u = s ++ t := by
  obtain ⟨s, j, hj, rfl⟩ := h hhead
  obtain ⟨b', s', rfl, hkind'⟩ := hj.kind?_head
  obtain rfl := Option.some.inj hhead
  rw [hkind] at hkind'
  cases j with
  | list js => exact ⟨_, js, hj, rfl⟩
  | null | bool | number | str | object => cases hkind'

/-- A value that opens a list closes it. -/
theorem ByValue.closeList_mem (h : ByValue (Octet.openList :: u) t) : Octet.closeList ∈ u := by
  obtain ⟨w, s, j, hw, hj, hvalue⟩ := h
  obtain rfl := blanks_eq_nil hw (congrArg List.head? hvalue.symm) (by decide)
  have hfrom : ByValueFrom Octet.openList (Octet.openList :: u) t := fun _ => ⟨s, j, hj, hvalue⟩
  obtain ⟨s', js, hjs, hlist⟩ := hfrom.exists_list rfl rfl
  cases hjs with
  | @list js s hitems =>
      obtain ⟨-, rfl⟩ := List.cons.inj hlist
      exact List.mem_append_left t (List.mem_append_right s List.mem_cons_self)

theorem ItemsBefore.close (first : Bool) (hw : Blanks w) (r : List UInt8) :
    ItemsBefore first r (w ++ Octet.closeList :: r) := ⟨[], w, spells_itemsFrom_nil hw, rfl⟩

theorem ItemsBefore.item {gap : List UInt8} (hgap : Gap first gap) (hvalue : ByValue u t)
    (h : ItemsBefore false r t) : ItemsBefore first r (gap ++ u) := by
  obtain ⟨w, s, j, hw, hj, rfl⟩ := hvalue
  obtain ⟨js, s', hjs, rfl⟩ := h
  refine ⟨j :: js, gap ++ (w ++ (s ++ s')), hgap.spells_itemsFrom hw hj hjs, ?_⟩
  simp only [List.append_assoc]

/-- Where the bracket stands no item is left. -/
theorem ItemsBefore.eq_of_close (h : ItemsBefore false r (Octet.closeList :: t)) : t = r := by
  obtain ⟨js, s, hjs, heq⟩ := h
  cases hjs with
  | endItems hw =>
      obtain rfl := blanks_eq_nil hw (congrArg List.head? heq.symm) (by decide)
      exact (List.cons.inj heq).2
  | moreItems hw =>
      rw [List.append_assoc] at heq
      obtain rfl := blanks_eq_nil hw (congrArg List.head? heq.symm) (by decide)
      exact absurd (List.cons.inj heq).1 (by decide)

theorem MembersBefore.close (first : Bool) (hw : Blanks w) (r : List UInt8) :
    MembersBefore first r (w ++ Octet.closeObject :: r) := ⟨[], w, spells_membersFrom_nil hw, rfl⟩

theorem MembersBefore.member {gap k : List UInt8} {key : String} (hgap : Gap first gap)
    (hk : Leaves.form.string key k) (hvalue : ByMemberValue u t) (h : MembersBefore false r t) :
    MembersBefore first r (gap ++ (k ++ u)) := by
  obtain ⟨w1, v, hw1, rfl, w2, s, j, hw2, hj, rfl⟩ := hvalue
  obtain ⟨ms, s', hms, rfl⟩ := h
  refine ⟨(key, j) :: ms, gap ++ (k ++ (w1 ++ Octet.colon :: (w2 ++ (s ++ s')))),
    hgap.spells_membersFrom hk hw1 hw2 hj hms, ?_⟩
  simp only [List.append_assoc, List.cons_append]

/-- Where the brace stands no member is left. -/
theorem MembersBefore.eq_of_close (h : MembersBefore false r (Octet.closeObject :: t)) : t = r := by
  obtain ⟨ms, s, hms, heq⟩ := h
  cases hms with
  | endMembers hw =>
      obtain rfl := blanks_eq_nil hw (congrArg List.head? heq.symm) (by decide)
      exact (List.cons.inj heq).2
  | moreMembers hw =>
      rw [List.append_assoc] at heq
      obtain rfl := blanks_eq_nil hw (congrArg List.head? heq.symm) (by decide)
      exact absurd (List.cons.inj heq).1 (by decide)

/-- The end of a list, however one looks at what follows a comma there. -/
theorem ok_closeListLooking {look : Scan (Option UInt8)} {supply : Supply} {c c' : Cursor} {v : Unit}
    (h : (closeListLooking look).run supply c = (.ok v, c')) :
    ∃ w, Blanks w ∧ c.rest = w ++ Octet.closeList :: c'.rest := by
  obtain ⟨b?, d, hpeek, h⟩ := ok_bind h
  cases b? with
  | none => exact absurd h not_ok_refuse
  | some b =>
      obtain ⟨w, t, hw, hrest, hd, -⟩ := ok_peekPastBlanks_some hpeek
      simp only at h
      split at h
      · rename_i hclose
        exact ⟨w, hw, by rw [hrest, ok_skip h, hd, hclose, List.tail_cons]⟩
      · split at h
        · obtain ⟨u, d', -, h⟩ := ok_bind h
          obtain ⟨b?, d'', -, h⟩ := ok_bind h
          cases b? with
          | none => exact absurd h not_ok_refuse
          | some b =>
              simp only at h
              split at h <;> exact absurd h not_ok_refuse
        · exact absurd h not_ok_refuse

theorem exists_blanks_of_closeObject {supply : Supply} {c c' : Cursor} {v : Unit}
    (h : closeObject.run supply c = (.ok v, c')) :
    ∃ w, Blanks w ∧ c.rest = w ++ Octet.closeObject :: c'.rest := by
  obtain ⟨b?, d, hpeek, h⟩ := ok_bind h
  cases b? with
  | none => exact absurd h not_ok_refuse
  | some b =>
      obtain ⟨w, t, hw, hrest, hd, -⟩ := ok_peekPastBlanks_some hpeek
      simp only at h
      split at h
      · rename_i hclose
        exact ⟨w, hw, by rw [hrest, ok_skip h, hd, hclose, List.tail_cons]⟩
      · split at h <;> exact absurd h not_ok_refuse

namespace Consumes

theorem pure {a : α} (h : ∀ u, R u u) : Consumes R (Pure.pure a) := by
  intro supply c a' c' hrun
  obtain ⟨-, rfl⟩ := ok_pure hrun
  exact h _

theorem mono {p : Scan α} (h : Consumes P p) (hPR : ∀ u t, P u t → R u t) : Consumes R p :=
  fun _ _ _ _ hrun => hPR _ _ (h _ _ _ _ hrun)

theorem refuse (place : Place) (fault : GrammarFault) : Consumes R (Scan.refuse place fault : Scan α) :=
  fun _ _ _ _ h => absurd h not_ok_refuse

theorem refuseData (place : Place) (fault : DataFault) : Consumes R (Scan.refuseData place fault : Scan α) :=
  fun _ _ _ _ h => absurd h not_ok_refuseData

theorem tooDeep : Consumes R (Scan.tooDeep : Scan α) := .refuse _ _

theorem bind {p : Scan β} {k : β → Scan α} (hp : Consumes P p) (hk : ∀ b, Consumes Q (k b))
    (hPQ : ∀ u v t, P u v → Q v t → R u t) : Consumes R (p >>= k) := by
  intro supply c a c' hrun
  obtain ⟨b, d, hfirst, hmore⟩ := ok_bind hrun
  exact hPQ _ _ _ (hp _ _ _ _ hfirst) (hk _ _ _ _ _ hmore)

/-- What follows takes nothing. -/
theorem before {p : Scan β} {k : β → Scan α} (hp : Consumes R p) (hk : ∀ b, Consumes Eq (k b)) :
    Consumes R (p >>= k) :=
  .bind hp hk fun _ _ _ hR heq => heq ▸ hR

/-- What comes first takes nothing. -/
theorem after {p : Scan β} {k : β → Scan α} (hp : Consumes Eq p) (hk : ∀ b, Consumes R (k b)) :
    Consumes R (p >>= k) :=
  .bind hp hk fun _ _ _ heq hR => heq.symm ▸ hR

theorem map {p : Scan β} {f : β → α} (hp : Consumes R p) : Consumes R (f <$> p) :=
  .before hp fun _ => .pure fun _ => rfl

theorem ite {condition : Prop} [Decidable condition] {p q : Scan α} (hp : Consumes R p) (hq : Consumes R q) :
    Consumes R (if condition then p else q) := by
  split
  · exact hp
  · exact hq

theorem report (line : LogLine) : Consumes Eq (Scan.report line) := by
  intro supply c a c' hrun
  cases hrun
  rfl

theorem payload {inside : Scan α} (h : Consumes R inside) : Consumes R (Scan.payload inside) := by
  intro supply c a c' hrun
  rw [run] at hrun
  rcases hinside : inside.run supply c with ⟨e | a', d⟩
  · rw [hinside] at hrun
    cases hrun
  · rw [hinside] at hrun
    cases hrun
    exact h _ _ _ _ hinside

theorem items {item : Scan α} (hitem : Consumes ByValue item) : Consumes (ByItems true) (Scan.items item) := by
  refine .map (R := ByItems true) fun supply c as c' hrun => ?_
  refine ok_loop (P := fun sofar c _ c' => ByItems sofar.isEmpty c.rest c'.rest) ?_ ?_ hrun
  · intro sofar c as c' hlast r hr
    obtain ⟨w, t, hw, hrest, hrest'⟩ := ok_hasItem_false (ok_itemRound_inr hlast).1
    rw [hrest'] at hr
    rw [hrest, hr.eq_of_close]
    exact .close _ hw r
  · intro sofar c sofar' d as c' hnext hmore r hr
    obtain ⟨d', a, hhas, ha, rfl⟩ := ok_itemRound_inl hnext
    obtain ⟨gap, b, hgap, hrest, -⟩ := ok_hasItem_true hhas
    rw [hrest]
    exact .item hgap (hitem _ _ _ _ ha) (hmore r hr)

/-- The next place of a list; where there is none the bracket stands, and no further place will be found. -/
theorem place? {item : Scan α} (hitem : Consumes ByValue item) (first : Bool) :
    Consumes (ByItems first) (Scan.place? first item) := by
  intro supply c a? c' hrun r hr
  obtain ⟨has, d, hhas, hrun⟩ := ok_bind hrun
  cases has with
  | true =>
      obtain ⟨a, d', ha, hrun⟩ := ok_bind hrun
      obtain ⟨-, rfl⟩ := ok_pure hrun
      obtain ⟨gap, b, hgap, hrest, -⟩ := ok_hasItem_true hhas
      rw [hrest]
      exact .item hgap (hitem _ _ _ _ ha) hr
  | false =>
      obtain ⟨-, rfl⟩ := ok_pure hrun
      obtain ⟨w, t, hw, hrest, hrest'⟩ := ok_hasItem_false hhas
      rw [hrest'] at hr
      rw [hrest, hr.eq_of_close]
      exact .close _ hw r

/-- Places one after another. -/
theorem places {p : Scan β} {k : β → Scan α} (hp : Consumes (ByItems first) p)
    (hk : ∀ b, Consumes (ByItems false) (k b)) : Consumes (ByItems first) (p >>= k) :=
  .bind hp hk fun _ _ _ hfirst hmore r hr => hfirst r (hmore r hr)

/-- A list in its brackets, whichever way its end is looked for. -/
theorem listLooking {look : Scan (Option UInt8)} {inside : Scan α} (h : Consumes (ByItems true) inside)
    (hkind : kind? b = some .list) :
    Consumes (ByValueFrom b) (do skip; enclosed inside (closeListLooking look)) := by
  intro supply c a c' hrun hhead
  rw [eq_of_kind? hkind rfl] at hhead
  obtain ⟨v, d, hskip, hrun⟩ := ok_bind hrun
  obtain ⟨d', hinside, hclose⟩ := ok_enclosed hrun
  obtain ⟨w, hw, hrest⟩ := ok_closeListLooking hclose
  obtain ⟨js, s, hjs, hd⟩ := h _ _ _ _ hinside c'.rest (hrest ▸ .close false hw _)
  refine ⟨_, .list js, .list hjs, ?_⟩
  rw [ok_skip_of_head hskip hhead, hd, List.cons_append, List.append_assoc, List.singleton_append]

theorem inList {inside : Scan α} (h : Consumes (ByItems true) inside) (hkind : kind? b = some .list) :
    Consumes (ByValueFrom b) (Scan.inList inside) := .listLooking h hkind

theorem inPlaces {inside : Scan α} (h : Consumes (ByItems true) inside) (hkind : kind? b = some .list) :
    Consumes (ByValueFrom b) (Scan.inPlaces inside) := .listLooking h hkind

theorem colon {p : Scan α} (h : Consumes ByValue p) : Consumes ByMemberValue (do Scan.colon; p) := by
  intro supply c a c' hrun
  obtain ⟨v, d, hcolon, hrun⟩ := ok_bind hrun
  obtain ⟨w, hw, hrest⟩ := ok_colon hcolon
  exact ⟨w, d.rest, hw, hrest, h _ _ _ _ hrun⟩

theorem members {member : σ → String → Scan σ} (hmember : ∀ s key, Consumes ByMemberValue (member s key)) (init : σ) :
    Consumes (ByMembers true) (Scan.members init member) := by
  intro supply c s c' hrun
  refine ok_loop (P := fun state c _ c' => ByMembers state.1 c.rest c'.rest) ?_ ?_
    (show (loop (true, init) (memberRound member)).run supply c = (.ok s, c') from hrun)
  · intro state c s c' hlast r hr
    obtain ⟨w, t, hw, hrest, hrest'⟩ := ok_hasMember_false (ok_memberRound_inr hlast).1
    rw [hrest'] at hr
    rw [hrest, hr.eq_of_close]
    exact .close _ hw r
  · intro state c state' d s c' hnext hmore r hr
    obtain ⟨gap, k, key, d', s', hgap, hk, hrest, hvalue, rfl⟩ := ok_memberRound_inl hnext
    rw [hrest]
    exact .member hgap (Leaves.form_string hk) (hmember _ _ _ _ _ _ hvalue) (hmore r hr)

theorem inObject {inside : Scan α} (h : Consumes (ByMembers true) inside) (hkind : kind? b = some .object) :
    Consumes (ByValueFrom b) (Scan.inObject inside) := by
  intro supply c a c' hrun hhead
  rw [eq_of_kind? hkind rfl] at hhead
  obtain ⟨v, d, hskip, hrun⟩ := ok_bind hrun
  obtain ⟨d', hinside, hclose⟩ := ok_enclosed hrun
  obtain ⟨w, hw, hrest⟩ := exists_blanks_of_closeObject hclose
  obtain ⟨ms, s, hms, hd⟩ := h _ _ _ _ hinside c'.rest (hrest ▸ .close false hw _)
  refine ⟨_, .object ms, .object hms, ?_⟩
  rw [ok_skip_of_head hskip hhead, hd, List.cons_append, List.append_assoc, List.singleton_append]

theorem nullWord (hkind : kind? b = some .null) : Consumes (ByValueFrom b) Scan.nullWord := by
  intro supply c a c' hrun hhead
  obtain rfl := eq_of_kind? hkind rfl
  obtain ⟨r, hr⟩ := List.head?_eq_some_iff.1 hhead
  exact ⟨_, .null, .null, by rw [ok_skip_word hrun hr]; rfl⟩

theorem boolWord {x : Bool} (hkind : kind? b = some (.bool x)) : Consumes (ByValueFrom b) (Scan.boolWord x) := by
  intro supply c a c' hrun hhead
  obtain rfl := eq_of_kind? hkind rfl
  obtain ⟨r, hr⟩ := List.head?_eq_some_iff.1 hhead
  refine ⟨_, .bool x, .bool x, ?_⟩
  rw [ok_skip_word hrun hr]
  cases x <;> rfl

theorem number : Consumes (ByValueFrom b) (Scan.number b) := by
  intro supply c n c' hrun hhead
  obtain ⟨x, -, -, hrest⟩ := ok_number hrun hhead
  exact ⟨x.octets, .number n, .number ⟨x, rfl⟩, hrest⟩

theorem quoted (hkind : kind? b = some .string) : Consumes (ByValueFrom b) Scan.quoted := by
  intro supply c str c' hrun hhead
  rw [eq_of_kind? hkind rfl] at hhead
  obtain ⟨s, hs, hrest⟩ := ok_quoted_of_quote hrun hhead
  exact ⟨s, .str str, .str (Leaves.form_string hs), hrest⟩

theorem valueStart {k : UInt8 → Scan α} (hk : ∀ b, Consumes (ByValueFrom b) (k b)) :
    Consumes ByValue (Scan.valueStart >>= k) := by
  intro supply c a c' hrun
  obtain ⟨b, d, hstart, hrun⟩ := ok_bind hrun
  obtain ⟨w, r, hw, hrest, hd, -⟩ := ok_valueStart hstart
  obtain ⟨s, j, hj, hd'⟩ := hk b _ _ _ _ hrun (by rw [hd]; rfl)
  exact ⟨w, s, j, hw, hj, by rw [hrest, ← hd, hd']⟩

theorem mismatch (expected : String) (b : UInt8) : Consumes R (Scan.mismatch expected b : Scan α) := by
  intro supply c a c' hrun
  obtain ⟨found, d, -, hrun⟩ := ok_bind hrun
  exact absurd hrun not_ok_refuseData

theorem expectList {value : Scan α} (h : ∀ b, kind? b = some .list → Consumes (ByValueFrom b) value)
    (expected : String) : Consumes ByList (Scan.expectList expected value) := by
  intro supply c a c' hrun
  obtain ⟨b, d, hstart, hrun⟩ := ok_bind hrun
  obtain ⟨w, r, hw, hrest, hd, -⟩ := ok_valueStart hstart
  split at hrun
  · rename_i hkind
    obtain ⟨s, js, hjs, hd'⟩ := (h b hkind _ _ _ _ hrun).exists_list hkind (by rw [hd]; rfl)
    exact ⟨w, s, js, hw, hjs, by rw [hrest, ← hd, hd']⟩
  · exact (Consumes.mismatch (R := fun _ _ => False) expected b _ _ _ _ hrun).elim

theorem string : Consumes ByValue Scan.string := by
  refine .valueStart fun b => ?_
  split
  · exact .quoted ‹_›
  · exact .mismatch _ b

theorem bool : Consumes ByValue Scan.bool := by
  refine .valueStart fun b => ?_
  split
  · exact .before (.boolWord ‹_›) fun _ => .pure fun _ => rfl
  · exact .mismatch _ b

theorem int (range : IntRange) : Consumes ByValue (Scan.int range) := by
  refine .valueStart fun b => ?_
  split
  · refine .before .number fun n => ?_
    cases n with
    | int n => exact .ite (.pure fun _ => rfl) (.refuseData _ _)
    | float x => exact .refuseData _ _
  · exact .mismatch _ b

theorem optional {value : Scan α} (h : Consumes ByValue value) : Consumes ByValue (Scan.optional value) := by
  intro supply c a? c' hrun
  obtain ⟨b?, d, hpeek, hrun⟩ := ok_bind hrun
  obtain ⟨w, hw, hrest, hb, -⟩ := ok_peekPastBlanks hpeek
  split at hrun
  · rename_i hnull
    obtain ⟨b, rfl, hkind⟩ := Option.bind_eq_some_iff.1 hnull
    have hword : Consumes (ByValueFrom b) (do Scan.nullWord; Pure.pure none : Scan (Option α)) :=
      .before (.nullWord hkind) fun _ => .pure fun _ => rfl
    obtain ⟨s, j, hj, hd⟩ := hword _ _ _ _ hrun hb.symm
    exact ⟨w, s, j, hw, hj, by rw [hrest, hd]⟩
  · obtain ⟨w', s, j, hw', hj, hd⟩ := h.map _ _ _ _ hrun
    exact ⟨w ++ w', s, j, List.forall_mem_append.2 ⟨hw, hw'⟩, hj, by rw [hrest, hd, List.append_assoc]⟩

theorem tree (room : Nat) : Consumes ByValue (Scan.tree room) := by
  intro supply c j c' hrun
  obtain ⟨-, w, s, hw, hs, -, hrest⟩ := ok_tree hrun
  exact ⟨w, s, j, hw, hs.form, hrest⟩

theorem skipValue : Consumes ByValue Scan.skipValue := fun _ _ _ _ hrun => ok_skipValue hrun

end Consumes

/-- The form of what is taken for a part. -/
def Part.Form : Part → List UInt8 → List UInt8 → Prop
  | .value _ => ByValue
  | .opened b => ByValueFrom b
  | .items first => ByItems first
  | .members => ByMembers true
  | .member _ => ByMemberValue
  | .done _ => Eq

/-- Readers take parts by their form, if those of an `apply` take values. -/
theorem Reads.consumes {m : Means} {limit : Nat} {P : α → Prop} {part : Part} {p q : Scan α}
    (happlied : ∀ {β : Type} (p : Scan β), m.applied p → Consumes ByValue p) (h : Reads m limit part P p q) :
    Consumes part.Form p := by
  induction h with
  | pure => exact .pure fun _ => rfl
  | refused => exact .refuseData _ _
  | report _ line _ ih => exact .after (.report line) fun _ => ih
  | before _ _ ih ihk => exact .before ih ihk
  | mono _ _ ih => exact ih
  | tree _ room => exact .tree room
  | skipValue => exact .skipValue
  | string => exact .string
  | bool => exact .bool
  | int => exact .int _
  | optional _ ih => exact .optional ih
  | @judged _ _ judge _ room hk =>
      refine .before (.tree room) fun j => ?_
      rw [hk]
      cases judge j with
      | none => exact .refuseData _ _
      | some a => exact .pure fun _ => rfl
  | start _ _ ih => exact .valueStart ih
  | mismatch b => exact .mismatch _ b
  | tooDeep => exact .tooDeep
  | boolWord hkind => exact .boolWord hkind
  | quoted hkind => exact .quoted hkind
  | inList hkind _ ih => exact .inList ih hkind
  | inPlaces _ hkind _ ih => exact .inPlaces ih hkind
  | inObject hkind _ ih => exact .inObject ih hkind
  | items _ ih => exact .items ih
  | place _ _ _ ih ihk => exact .places (.place? ih _) ihk
  | firstPlace _ hnone _ _ _ ih =>
      refine .places (.place? .string true) fun s? => ?_
      cases s? with
      | none => exact hnone ▸ .refuseData _ _
      | some s => exact ih s
  | lastPlace => exact .pure fun _ _ hr => hr
  | members _ _ _ ih ihk => exact .before (.members ih _) ihk
  | colon _ ih => exact .colon ih
  | apply hp _ ih => exact .colon (.before (.payload (happlied _ hp)) ih)

end BlockModel.Scan
