import BlockModel.Proofs.Scan.Fronts
import BlockModel.Proofs.Scan.Raised

/-! What a reader has read when it refuses a shape. It refuses as soon as it can, so the rest of the value was not
looked at; but everything before was read without fault, and is a front of a value by its form. `RefusesBy` says so of
a plan, with one rule for each way to build one. -/

namespace BlockModel.Scan

variable {α β σ : Type} {supply : Supply} {fault : DataFault} {raised c : Cursor} {entered : Option Cursor} {b : UInt8}
  {first : Bool} {F G R : List UInt8 → List UInt8 → Prop}

/-- Wherever the plan refuses a shape, what was left before it and what is left there are in a relation. -/
def RefusesBy (F : List UInt8 → List UInt8 → Prop) (p : Scan α) : Prop :=
  ∀ supply fault raised entered c, Raises supply (.data fault) raised entered p c → F c.rest raised.rest

/-- The freedom of plans that ask about the grammar alone. -/
def Freedom.grammatical : Freedom := ⟨true, true, false, true⟩

/-- Where the grammar alone is asked about no shape is refused. -/
theorem Regular.not_raises {p : Scan α} (hp : Regular .grammatical p) :
    ¬Raises supply (.data fault) raised entered p c := by
  intro hraises
  obtain ⟨e, c', hrun, hcause, -⟩ := hraises.exists_error
  rcases (hp.permits rfl hrun).cause with ⟨fault', hgrammar⟩ | ⟨hfalse, -⟩ | ⟨reason, -, hsource⟩
  · rw [hcause] at hgrammar
    cases hgrammar
  · cases hfalse
  · rw [hcause] at hsource
    cases hsource

theorem Raises.behind {p : Scan β} {k : β → Scan α} (h : Raises supply (.data fault) raised entered (p >>= k) c)
    (hp : Regular .grammatical p) :
    ∃ b d, p.run supply c = (.ok b, d) ∧ Raises supply (.data fault) raised entered (k b) d := by
  rcases h.of_bind with hfirst | hmore
  · exact absurd hfirst hp.not_raises
  · exact hmore

/-- The front of a value, where it begins with an octet. -/
def ByFrontFrom (b : UInt8) (u v : List UInt8) : Prop := u.head? = some b → ByFront IsValue u v

namespace RefusesBy

theorem mono {p : Scan α} (h : RefusesBy F p) (hFG : ∀ u v, F u v → G u v) : RefusesBy G p :=
  fun _ _ _ _ _ hraises => hFG _ _ (h _ _ _ _ _ hraises)

theorem of_regular {p : Scan α} (hp : Regular .grammatical p) : RefusesBy F p :=
  fun _ _ _ _ _ hraises => absurd hraises hp.not_raises

theorem pure (a : α) : RefusesBy F (Pure.pure a) := .of_regular (.pure a)

theorem refuse (place : Place) (fault : GrammarFault) : RefusesBy F (Scan.refuse place fault : Scan α) := by
  intro supply fault' raised entered c hraises
  cases hraises

theorem refuseData (hF : ∀ u, F u u) (place : Place) (fault : DataFault) :
    RefusesBy F (Scan.refuseData place fault : Scan α) := by
  intro supply fault' raised entered c hraises
  cases hraises
  exact hF _

theorem bind {p : Scan β} {k : β → Scan α} (hp : RefusesBy F p) (hok : Consumes R p) (hk : ∀ b, RefusesBy G (k b))
    (hF : ∀ u t v, R u t → G t v → F u v) : RefusesBy F (p >>= k) := by
  intro supply fault raised entered c hraises
  rcases hraises.of_bind with hfirst | ⟨b, d, hrun, hmore⟩
  · exact hp _ _ _ _ _ hfirst
  · exact hF _ _ _ (hok _ _ _ _ hrun) (hk b _ _ _ _ _ hmore)

/-- Nothing is refused after the first part. -/
theorem before {p : Scan β} {k : β → Scan α} (hp : RefusesBy F p)
    (hk : ∀ b, RefusesBy (fun _ _ => False) (k b)) : RefusesBy F (p >>= k) := by
  intro supply fault raised entered c hraises
  rcases hraises.of_bind with hfirst | ⟨b, d, -, hmore⟩
  · exact hp _ _ _ _ _ hfirst
  · exact (hk b _ _ _ _ _ hmore).elim

theorem map {p : Scan β} (hp : RefusesBy F p) (g : β → α) : RefusesBy F (g <$> p) := hp.before fun _ => .pure _

theorem ite {condition : Prop} [Decidable condition] {p q : Scan α} (hp : RefusesBy F p) (hq : RefusesBy F q) :
    RefusesBy F (if condition then p else q) := by
  split
  · exact hp
  · exact hq

theorem tooDeep : RefusesBy F (Scan.tooDeep : Scan α) := .refuse _ _

/-- What comes first refuses nothing, and takes what it takes. -/
theorem after {p : Scan β} {k : β → Scan α} (hp : RefusesBy (fun _ _ => False) p) (hok : Consumes R p)
    (hk : ∀ b, RefusesBy G (k b)) (hF : ∀ u t v, R u t → G t v → F u v) : RefusesBy F (p >>= k) :=
  .bind (hp.mono fun _ _ => False.elim) hok hk hF

/-- A scalar of another kind is read before it is refused, and a list or object is not entered. -/
theorem mismatch (expected : String) (b : UInt8) :
    RefusesBy (ByFrontFrom b) (Scan.mismatch expected b : Scan α) := by
  have hfound : Consumes (fun u t => ByValueFrom b u t ∨ u = t) (otherKind b) := by
    unfold otherKind
    cases hkind : kind? b with
    | none => exact .refuse _ _
    | some kind =>
        cases kind with
        | null => exact .before (.mono (.nullWord hkind) fun _ _ => .inl) fun _ => .pure fun _ => rfl
        | bool x => exact .before (.mono (.boolWord hkind) fun _ _ => .inl) fun _ => .pure fun _ => rfl
        | number => exact .map (.mono .number fun _ _ => .inl)
        | string => exact .map (.mono (.quoted hkind) fun _ _ => .inl)
        | list | object => exact .pure fun _ => .inr rfl
  refine .after (.of_regular (.otherKind b)) hfound (fun _ => .refuseData (fun _ => rfl) _ _) ?_
  rintro u t _ (hvalue | rfl) rfl hhead
  · obtain ⟨s, j, hj, rfl⟩ := hvalue hhead
    exact ByValue.byFront ⟨[], s, j, blanks_nil, hj, rfl⟩
  · exact .nothing isValue_null _

theorem valueStart {k : UInt8 → Scan α} (hk : ∀ b, RefusesBy (ByFrontFrom b) (k b)) :
    RefusesBy (ByFront IsValue) (Scan.valueStart >>= k) := by
  intro supply fault raised entered c hraises
  obtain ⟨b, d, hstart, hmore⟩ := hraises.behind .valueStart
  obtain ⟨w, r, hw, hrest, hd, -⟩ := ok_valueStart hstart
  have hfront := hk b _ _ _ _ _ hmore (by rw [hd]; rfl)
  rw [hd] at hfront
  rw [hrest]
  exact hfront.blanks hw

theorem string : RefusesBy (ByFront IsValue) Scan.string :=
  .valueStart fun b => .ite (.of_regular .quoted) (.mismatch _ b)

theorem bool : RefusesBy (ByFront IsValue) Scan.bool := by
  refine .valueStart fun b => ?_
  split
  · exact .of_regular (.bind (.boolWord _) fun _ => .pure _)
  · exact .mismatch _ b

/-- A number is read before it is refused. -/
theorem int (range : IntRange) : RefusesBy (ByFront IsValue) (Scan.int range) := by
  refine .valueStart fun b => .ite ?_ (.mismatch _ b)
  refine .after (.of_regular (.number b)) .number (fun n => ?_) (G := Eq) ?_
  · cases n with
    | int n => exact .ite (.pure _) (.refuseData (fun _ => rfl) _ _)
    | float x => exact .refuseData (fun _ => rfl) _ _
  · rintro u t _ hvalue rfl hhead
    obtain ⟨s, j, hj, rfl⟩ := hvalue hhead
    exact ByValue.byFront ⟨[], s, j, blanks_nil, hj, rfl⟩

theorem optional {value : Scan α} (h : RefusesBy (ByFront IsValue) value) :
    RefusesBy (ByFront IsValue) (Scan.optional value) := by
  intro supply fault raised entered c hraises
  obtain ⟨b?, d, hpeek, hmore⟩ := hraises.behind .peekPastBlanks
  obtain ⟨w, hw, hrest, -⟩ := ok_peekPastBlanks hpeek
  have hvalue : RefusesBy (ByFront IsValue) (if b?.bind kind? = some .null then do
      Scan.nullWord
      Pure.pure none else some <$> value) :=
    .ite (.of_regular (.bind .nullWord fun _ => .pure _)) (h.map some)
  rw [hrest]
  exact (hvalue _ _ _ _ _ hmore).blanks hw

theorem never {p : Scan β} {k : β → Scan α} (hp : RefusesBy (fun _ _ => False) p)
    (hk : ∀ b, RefusesBy (fun _ _ => False) (k b)) : RefusesBy F (p >>= k) :=
  (hp.before hk).mono fun _ _ => False.elim

theorem attempt (p : Scan α) : RefusesBy F (Scan.attempt p) := by
  intro supply fault raised entered c hraises
  cases hraises

theorem closePlaces : RefusesBy F Scan.closePlaces := by
  refine .never (.of_regular .peekPastBlanks) fun b? => ?_
  cases b? with
  | none => exact .refuse _ _
  | some b =>
      refine .ite (.of_regular .skip) (.ite (.never (.of_regular .skip) fun _ => .never ?_ fun b? => ?_) (.refuse _ _))
      · refine .never (.attempt _) fun b? => ?_
        cases b? <;> exact .pure _
      · cases b? with
        | none => exact .refuse _ _
        | some b => exact .ite (.refuse _ _) (.refuse _ _)

/-- The inside of a list or object was entered behind its bracket or brace. -/
theorem bracketed {whole : List UInt8 → Prop} {inside : Scan α} {close : Scan Unit} {mark : UInt8} {kind : Kind}
    (hwhole : ∀ u v, ByFront whole u v → ByFront IsValue (mark :: u) v) (hmark : kind.first? = some mark)
    (h : RefusesBy (ByFront whole) inside) (hclose : RefusesBy (fun _ _ => False) close)
    (hkind : kind? b = some kind) : RefusesBy (ByFrontFrom b) (do skip; enclosed inside close) := by
  intro supply fault raised entered c hraises hhead
  rw [eq_of_kind? hkind hmark] at hhead
  obtain ⟨v, d, hskip, hmore⟩ := hraises.behind .skip
  rw [ok_skip_of_head hskip hhead]
  rcases hmore.of_enclosed with hinside | ⟨d', hclosing⟩
  · exact hwhole _ _ (h _ _ _ _ _ hinside)
  · exact (hclose _ _ _ _ _ hclosing).elim

theorem inList {inside : Scan α} (h : RefusesBy (ByFront (IsItems true)) inside) (hkind : kind? b = some .list) :
    RefusesBy (ByFrontFrom b) (Scan.inList inside) :=
  .bracketed (fun _ _ => .list) rfl h (.of_regular .closeList) hkind

theorem inPlaces {inside : Scan α} (h : RefusesBy (ByFront (IsItems true)) inside) (hkind : kind? b = some .list) :
    RefusesBy (ByFrontFrom b) (Scan.inPlaces inside) :=
  .bracketed (fun _ _ => .list) rfl h .closePlaces hkind

theorem inObject {inside : Scan α} (h : RefusesBy (ByFront (IsMembers true)) inside)
    (hkind : kind? b = some .object) : RefusesBy (ByFrontFrom b) (Scan.inObject inside) :=
  .bracketed (fun _ _ => .object) rfl h (.of_regular .closeObject) hkind

/-- Where an item stands it may be refused, and behind the last one nothing is. -/
theorem hasItem {k : Bool → Scan α} (h : RefusesBy (ByFront IsValue) (k true))
    (hlast : Regular .grammatical (k false)) : RefusesBy (ByFront (IsItems first)) (Scan.hasItem first >>= k) := by
  intro supply fault raised entered c hraises
  obtain ⟨has, d, hhas, hmore⟩ := hraises.behind (.hasItem _)
  cases has with
  | true =>
      obtain ⟨gap, b, hgap, hrest, -⟩ := ok_hasItem_true hhas
      rw [hrest]
      exact .item hgap (h _ _ _ _ _ hmore)
  | false => exact absurd hmore hlast.not_raises

theorem place? {item : Scan α} (h : RefusesBy (ByFront IsValue) item) (first : Bool) :
    RefusesBy (ByFront (IsItems first)) (Scan.place? first item) :=
  .hasItem (h.before fun _ => .pure _) (.pure _)

/-- One place after another. Where a list has no more items its bracket stands, and then no later place is entered. -/
theorem places {item : Scan β} {k : Option β → Scan α} (h : RefusesBy (ByFront IsValue) item)
    (hok : Consumes ByValue item) (hk : ∀ b?, RefusesBy (ByFront (IsItems false)) (k b?)) :
    RefusesBy (ByFront (IsItems first)) (Scan.place? first item >>= k) := by
  intro supply fault raised entered c hraises
  rcases hraises.of_bind with hplace | ⟨b?, d, hplace, hmore⟩
  · exact h.place? first _ _ _ _ _ hplace
  · have hlater := hk b? _ _ _ _ _ hmore
    obtain ⟨has, d', hhas, hplace⟩ := ok_bind hplace
    cases has with
    | true =>
        obtain ⟨a, d'', ha, hplace⟩ := ok_bind hplace
        obtain ⟨-, rfl⟩ := ok_pure hplace
        obtain ⟨gap, b, hgap, hrest, -⟩ := ok_hasItem_true hhas
        rw [hrest]
        exact .nextItem hgap (hok _ _ _ _ ha) hlater
    | false =>
        obtain ⟨-, rfl⟩ := ok_pure hplace
        obtain ⟨w, t, hw, hrest, hrest'⟩ := ok_hasItem_false hhas
        rw [hrest'] at hlater
        rw [hrest, hlater.eq_of_closeList]
        exact .noItem first hw _

theorem items {item : Scan α} (h : RefusesBy (ByFront IsValue) item) (hok : Consumes ByValue item) :
    RefusesBy (ByFront (IsItems true)) (Scan.items item) := by
  refine .map (p := Scan.loop [] (itemRound item)) (fun supply fault raised entered c hraises => ?_) List.reverse
  refine hraises.of_loop (P := fun sofar c => ByFront (IsItems sofar.isEmpty) c.rest raised.rest) ?_ ?_
  · intro sofar c hround
    have hitem : RefusesBy (ByFront (IsItems sofar.isEmpty)) (itemRound item sofar) :=
      .hasItem (h.before fun _ => .pure _) (.pure _)
    exact hitem _ _ _ _ _ hround
  · intro sofar c sofar' d hround hlater
    obtain ⟨d', a, hhas, ha, rfl⟩ := ok_itemRound_inl hround
    obtain ⟨gap, b, hgap, hrest, -⟩ := ok_hasItem_true hhas
    rw [hrest]
    exact .nextItem hgap (hok _ _ _ _ ha) hlater

theorem colon {p : Scan α} (h : RefusesBy (ByFront IsValue) p) :
    RefusesBy (ByFront IsMemberValue) (do Scan.colon; p) := by
  intro supply fault raised entered c hraises
  obtain ⟨v, d, hcolon, hmore⟩ := hraises.behind .colon
  obtain ⟨w, hw, hrest⟩ := ok_colon hcolon
  rw [hrest]
  exact .colon hw (h _ _ _ _ _ hmore)

theorem members {member : σ → String → Scan σ} (h : ∀ s key, RefusesBy (ByFront IsMemberValue) (member s key))
    (hok : ∀ s key, Consumes ByMemberValue (member s key)) (init : σ) :
    RefusesBy (ByFront (IsMembers true)) (Scan.members init member) := by
  intro supply fault raised entered c hraises
  rw [members_eq] at hraises
  refine hraises.of_loop (P := fun state c => ByFront (IsMembers state.1) c.rest raised.rest) ?_ ?_
  · intro state c hround
    obtain ⟨has, d, hhas, hmore⟩ := hround.behind (.hasMember _)
    cases has with
    | true =>
        obtain ⟨key, d', hkey, hmore⟩ := hmore.behind .quoted
        obtain ⟨gap, k, hgap, hk, hrest⟩ := ok_hasMember_quoted hhas hkey
        rw [hrest]
        exact .member hgap (Leaves.form_string hk) ((h _ key).before (fun _ => .pure _) _ _ _ _ _ hmore)
    | false => exact absurd hmore (Regular.not_raises (.pure _))
  · intro state c state' d hround hlater
    obtain ⟨gap, k, key, d', s, hgap, hk, hrest, hvalue, rfl⟩ := ok_memberRound_inl hround
    rw [hrest]
    exact .nextMember hgap (Leaves.form_string hk) (hok _ _ _ _ _ _ hvalue) hlater

end RefusesBy

/-- All members of an object were read, and its brace stands there. -/
theorem consumes_members {member : σ → String → Scan σ} (hok : ∀ s key, Consumes ByMemberValue (member s key))
    (init : σ) : Consumes (ByFront (IsMembers true)) (members init member) := by
  intro supply c s c' hrun
  refine ok_loop (P := fun state c _ c' => ByFront (IsMembers state.1) c.rest c'.rest) ?_ ?_
    (show (loop (true, init) (memberRound member)).run supply c = (.ok s, c') from hrun)
  · intro state c s c' hlast
    obtain ⟨w, t, hw, hrest, hrest'⟩ := ok_hasMember_false (ok_memberRound_inr hlast).1
    rw [hrest, hrest']
    exact ⟨w, [], rfl, [], by rw [List.append_nil]; exact spells_membersFrom_nil hw⟩
  · intro state c state' d s c' hnext hlater
    obtain ⟨gap, k, key, d', s', hgap, hk, hrest, hvalue, rfl⟩ := ok_memberRound_inl hnext
    rw [hrest]
    exact .nextMember hgap (Leaves.form_string hk) (hok _ _ _ _ _ _ hvalue) hlater

/-- What was read of a part when a shape is refused in it. -/
def Part.Front : Part → List UInt8 → List UInt8 → Prop
  | .value _ => ByFront IsValue
  | .opened b => ByFrontFrom b
  | .items first => ByFront (IsItems first)
  | .members => ByFront (IsMembers true)
  | .member _ => ByFront IsMemberValue
  | .done refused => fun u v => refused = true ∧ u = v

theorem Part.front_refl {part : Part} (h : part.unplaced = true) (u : List UInt8) : part.Front u u := by
  cases part with
  | value => exact .nothing isValue_null u
  | opened => cases h
  | items first => exact .noItem first blanks_nil u
  | members => exact ⟨[], [], rfl, [], spells_membersFrom_nil blanks_nil⟩
  | member => exact .noColon u
  | done refused => exact ⟨h, rfl⟩

/-- Readers that do not come to an `apply` refuse a shape behind a front of the part. -/
theorem Reads.refusesBy {m : Means} {limit : Nat} {P : α → Prop} {part : Part} {p q : Scan α}
    (happlied : ∀ {β : Type} (p : Scan β), ¬m.applied p) (h : Reads m limit part P p q) :
    RefusesBy part.Front p := by
  have hconsumes : ∀ {β : Type} {P : β → Prop} {part : Part} {p q : Scan β}, Reads m limit part P p q →
      Consumes part.Form p := fun h => h.consumes fun p hp => absurd hp (happlied p)
  induction h with
  | pure | lastPlace => exact .pure _
  | refused hpart => exact .refuseData (Part.front_refl hpart) _ _
  | report _ line _ ih =>
      exact .after (.of_regular (.report line)) (.report line) (fun _ => ih) fun u t v hsame hfront => hsame ▸ hfront
  | before _ _ ih ihk => exact .before ih fun b => (ihk b).mono fun u v hrefused => absurd hrefused.1 Bool.false_ne_true
  | mono _ _ ih => exact ih
  | tree _ room => exact .of_regular (.tree room)
  | skipValue => exact .of_regular .skipValue
  | string => exact .string
  | bool => exact .bool
  | int => exact .int _
  | optional _ ih => exact .optional ih
  | @judged _ _ judge _ room hk =>
      refine .after (.of_regular (.tree room)) (.tree room) (G := Eq) (fun j => ?_)
        fun u t v hvalue heq => heq ▸ hvalue.byFront
      rw [hk]
      cases judge j with
      | none => exact .refuseData (fun _ => rfl) _ _
      | some a => exact .pure a
  | start _ _ ih => exact .valueStart ih
  | mismatch b => exact .mismatch _ b
  | tooDeep => exact .tooDeep
  | boolWord => exact .of_regular (.boolWord _)
  | quoted => exact .of_regular .quoted
  | inList hkind _ ih => exact .inList ih hkind
  | inPlaces _ hkind _ ih => exact .inPlaces ih hkind
  | inObject hkind _ ih => exact .inObject ih hkind
  | items h ih => exact .items ih (hconsumes h)
  | place _ h _ ih ihk => exact .places ih (hconsumes h) ihk
  | firstPlace _ hnone _ _ _ ih =>
      refine .places .string .string fun s? => ?_
      cases s? with
      | none => exact hnone ▸ .refuseData (.noItem false blanks_nil) _ _
      | some s => exact ih s
  | members _ h _ ih ihk =>
      have hmember := fun s key => hconsumes (h s key)
      refine .bind (.members ih hmember _) (consumes_members hmember _) ihk fun u t v hmembers hsame => ?_
      exact hsame.2 ▸ hmembers
  | colon _ ih => exact .colon ih
  | apply hp => exact absurd hp (happlied _)

end BlockModel.Scan
