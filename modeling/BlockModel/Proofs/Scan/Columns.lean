import BlockModel.Proofs.Scan.LeafColumns

/-! Lists, objects and values of every kind count columns. An octet between values was looked at past the blanks, so it
is in the line that it is blamed in; what is left unplaced is placed behind an opening, but perhaps behind blanks, where
a line may have begun. -/

namespace BlockModel.Scan

variable {α β σ : Type} {pre : Cursor → Prop} {c d : Cursor} {b : UInt8}

theorem onLine_of_otherKind {found : Found} (h : (otherKind b).run .document c = (.ok found, d))
    (hbefore : c.Before b) :
    (∃ opener, found.opener? = some opener ∧ d.rest.head? = some opener) ∨ found.opener? = none ∧ d.OnLine := by
  have hletters : ∀ v : Bool, ∀ b ∈ (if v then "rue" else "alse").toList.map Octet.ofChar, b ≠ 0x0A := by
    intro v
    cases v <;> decide +kernel
  rw [otherKind] at h
  cases hkind : kind? b with
  | none =>
      rw [hkind] at h
      exact absurd h not_ok_refuse
  | some kind =>
      rw [hkind] at h
      cases kind with
      | null =>
          obtain ⟨u, d', hword, h⟩ := ok_bind h
          obtain ⟨rfl, rfl⟩ := ok_pure h
          exact .inr ⟨rfl, onLine_of_word hword hbefore (by decide +kernel)⟩
      | bool v =>
          obtain ⟨u, d', hword, h⟩ := ok_bind h
          obtain ⟨rfl, rfl⟩ := ok_pure h
          exact .inr ⟨rfl, onLine_of_word hword hbefore (hletters v)⟩
      | number =>
          obtain ⟨n, hnumber, rfl⟩ := ok_map h
          exact .inr ⟨by cases n <;> rfl, onLine_of_number hnumber hbefore.1⟩
      | string =>
          obtain ⟨str, hquoted, rfl⟩ := ok_map h
          obtain rfl := eq_of_kind? hkind (rfl : Kind.string.first? = some Octet.quote)
          exact .inr ⟨rfl, onLine_of_quoted hquoted hbefore.1⟩
      | list =>
          obtain ⟨rfl, rfl⟩ := ok_pure h
          exact .inl ⟨Octet.openList, rfl, eq_of_kind? hkind rfl ▸ hbefore.1⟩
      | object =>
          obtain ⟨rfl, rfl⟩ := ok_pure h
          exact .inl ⟨Octet.openObject, rfl, eq_of_kind? hkind rfl ▸ hbefore.1⟩

namespace Fitting

theorem tooDeep : Fitting (Cursor.Before b) (Scan.tooDeep : Scan α) := .refuse_ahead _

theorem hasItem (first : Bool) : Fitting pre (Scan.hasItem first) := by
  refine .looking (.refuse_atEnd rfl (.inr rfl)) fun b => .ite (fun _ => .pure _) fun _ => ?_
  refine .ite (fun _ => .pure _) fun _ => ?_
  refine .ite (fun _ => skip.andThen fun _ => ?_) fun _ => .refuse_ahead _
  exact .looking (.refuse_atEnd rfl (.inr rfl)) fun b => .ite (fun _ => .refuse_ahead _) fun _ => .pure _

theorem closeList : Fitting pre Scan.closeList := by
  refine .looking (.refuse_atEnd rfl (.inr rfl)) fun b => .ite (fun _ => .skip) fun _ => ?_
  refine .ite (fun _ => skip.andThen fun _ => ?_) fun _ => .refuse_ahead _
  exact .looking (.refuse_atEnd rfl (.inr rfl)) fun b => .ite (fun _ => .refuse_ahead _) fun _ => .refuse_ahead _

theorem closePlaces : Fitting pre Scan.closePlaces := by
  intro c e c' htext hpre h
  rw [run_closePlaces] at h
  exact closeList c e c' htext hpre h

theorem items {item : Scan α} (hitem : Fitting Cursor.Anywhere item) (hadvances : Advances always none item) :
    Fitting pre (Scan.items item) := by
  have hround : ∀ sofar, Fitting Cursor.Anywhere (itemRound item sofar) := fun sofar =>
    (hasItem _).andThen fun _ => .ite (fun _ => hitem.andThen fun _ => .pure _) fun _ => .pure _
  exact map (anywhere (.loop hround (fun _ _ _ _ => trivial) (.itemRound hadvances) [])) _

theorem inList {inside : Scan α} (hinside : Fitting Cursor.Anywhere inside) : Fitting pre (Scan.inList inside) :=
  .skipping fun _ => .enclosed hinside .closeList

theorem inPlaces {inside : Scan α} (hinside : Fitting Cursor.Anywhere inside) : Fitting pre (Scan.inPlaces inside) :=
  .skipping fun _ => .enclosed hinside .closePlaces

theorem place? {item : Scan α} (hitem : Fitting Cursor.Anywhere item) (first : Bool) :
    Fitting pre (Scan.place? first item) :=
  (hasItem first).andThen fun _ => .ite (fun _ => hitem.andThen fun _ => .pure _) fun _ => .pure _

theorem hasMember (first : Bool) : Fitting pre (Scan.hasMember first) := by
  refine .looking (.refuse_atEnd rfl (.inr rfl)) fun b => .ite (fun _ => .pure _) fun _ => ?_
  refine .ite (fun _ => .ite (fun _ => .pure _) fun _ => .refuse_ahead _) fun _ => ?_
  refine .ite (fun _ => skip.andThen fun _ => ?_) fun _ => .refuse_ahead _
  refine .looking (.refuse_atEnd rfl (.inr rfl)) fun b => .ite (fun _ => .pure _) fun _ => ?_
  exact .ite (fun _ => .refuse_ahead _) fun _ => .refuse_ahead _

theorem closeObject : Fitting pre Scan.closeObject :=
  .looking (.refuse_atEnd rfl (.inr rfl)) fun _ => .ite (fun _ => .skip) fun _ =>
    .ite (fun _ => .refuse_ahead _) fun _ => .refuse_ahead _

theorem colon : Fitting pre Scan.colon :=
  .looking (.refuse_atEnd rfl (.inr rfl)) fun _ => .ite (fun _ => .skip) fun _ => .refuse_ahead _

/-- A key was looked at. -/
theorem memberRound {member : σ → String → Scan σ} (hmember : ∀ s key, Fitting Cursor.Anywhere (member s key))
    (state : Bool × σ) : Fitting pre (Scan.memberRound member state) := by
  have hquote : ∀ c more d, c.HasText → pre c → (Scan.hasMember state.1).run .document c = (.ok more, d) →
      more = true → d.Before Octet.quote := by
    rintro c more d - - hrun rfl
    obtain ⟨-, -, -, hquote⟩ := ok_hasMember_true hrun
    exact ⟨hquote, by decide⟩
  refine (hasMember _).bind hquote fun more => .ite (fun hmore => mono ?_ fun _ _ h => h hmore) fun _ => .pure _
  exact quoted.andThen fun key => (hmember _ key).andThen fun _ => .pure _

theorem members {member : σ → String → Scan σ} (hmember : ∀ s key, Fitting Cursor.Anywhere (member s key)) (init : σ) :
    Fitting pre (Scan.members init member) :=
  anywhere (.loop (memberRound hmember) (fun _ _ _ _ => trivial) (.memberRound member) (true, init))

theorem inObject {inside : Scan α} (hinside : Fitting Cursor.Anywhere inside) : Fitting pre (Scan.inObject inside) :=
  .skipping fun _ => .enclosed hinside .closeObject

theorem treeWith {onList onObject : Scan Json} (hlist : ∀ b, Fitting (Cursor.Before b) onList)
    (hobject : ∀ b, Fitting (Cursor.Before b) onObject) : Fitting pre (Scan.treeWith onList onObject) := by
  refine .starting fun b => ?_
  cases hkind : kind? b with
  | none => exact .refuse_ahead _
  | some kind =>
      cases kind with
      | null => exact nullWord.andThen fun _ => .pure _
      | bool v => exact (boolWord v).andThen fun _ => .pure _
      | number => exact map (number b) _
      | string =>
          obtain rfl := eq_of_kind? hkind (rfl : Kind.string.first? = some Octet.quote)
          exact map quoted _
      | list => exact hlist b
      | object => exact hobject b

theorem tree (room : Nat) : Fitting pre (Scan.tree room) := by
  induction room generalizing pre with
  | zero => exact .treeWith (fun _ => .tooDeep) fun _ => .tooDeep
  | succ room ih =>
      refine .treeWith (fun _ => map (.inList (.items ih (.tree room))) _) fun _ => map (.inObject ?_) _
      exact (members (fun _ _ => colon.andThen fun _ => ih.andThen fun _ => .pure _) _).andThen fun _ => .pure _

theorem endOfDocument : Fitting pre Scan.endOfDocument := .looking (.pure ()) fun _ => .refuse_ahead _

theorem document {value : Scan α} (hvalue : Fitting pre value) : Fitting pre (Scan.document value) :=
  hvalue.andThen fun _ => endOfDocument.andThen fun _ => .pure _

theorem skipStringRound (u : Unit) : Fitting Cursor.Begun (Scan.skipStringRound u) := by
  refine .takingWhile (fun _ _ _ h hreach _ _ => h.later hreach) fun _ => ?_
  refine .peeking (fun _ h => h) (mono (.refuse_atEnd rfl (.inl rfl)) fun _ _ h => h.2) fun b => ?_
  refine .ite (fun _ => skip.andThen fun _ => .pure _) fun _ => .ite (fun _ => skip.andThen fun _ => ?_) fun _ => ?_
  · refine .inString fun b => .ite (fun _ => fourHex.andThen fun _ => .pure _) fun _ => ?_
    exact .ite (fun _ => .pure _) fun _ => (refuse_octet rfl).mono fun _ _ h => h.1
  · exact (refuse_octet rfl).mono fun _ _ h => h.1

theorem skipQuoted : Fitting pre Scan.skipQuoted :=
  .skipping fun _ => .loop .skipStringRound (fun _ _ hreach h => h.later hreach) .skipStringRound ()

theorem skipExponentRest : Fitting pre Scan.skipExponentRest := by
  refine exponentSign.andThen fun _ => .taking ?_ fun b => .ite (fun _ => ?_) fun _ => ?_
  · exact (refuse_octet rfl).mono fun _ htext h => htext.begun h
  · exact map (takeWhile _) _
  · exact (refuse_octet rfl).mono fun _ _ h => h.1

theorem skipExponentOrEnd : Fitting pre Scan.skipExponentOrEnd := by
  refine peek.andThen fun b? => ?_
  cases b? with
  | none => exact .pure ()
  | some b => exact .ite (fun _ => skip.andThen fun _ => .skipExponentRest) fun _ => .pure ()

theorem skipAfterWhole : Fitting pre Scan.skipAfterWhole := by
  refine peek.andThen fun b? => ?_
  cases b? with
  | none => exact .pure ()
  | some b =>
      refine .ite (fun _ => skip.andThen fun _ => ?_) fun _ => .ite (fun _ => ?_) fun _ => .pure ()
      · exact (takeWhile _).andThen fun _ => .ite (fun _ => .refuse_octetAhead rfl) fun _ => .skipExponentOrEnd
      · exact skip.andThen fun _ => .skipExponentRest

theorem skipUnsigned : Fitting pre Scan.skipUnsigned := by
  refine .taking ((refuse_octet rfl).mono fun _ htext h => htext.begun h) fun first => .ite (fun _ => ?_) fun _ => ?_
  · refine peek.andThen fun b? => ?_
    cases b? with
    | none => exact .skipAfterWhole
    | some b => exact .ite (fun _ => .refuse_octetAhead rfl) fun _ => .skipAfterWhole
  · refine .ite (fun _ => ?_) fun _ => (refuse_octet rfl).mono fun _ _ h => h.1
    exact (takeWhile _).andThen fun _ => .skipAfterWhole

theorem skipNumber (first : UInt8) : Fitting pre (Scan.skipNumber first) :=
  .ite (fun _ => skip.andThen fun _ => .skipUnsigned) fun _ => .skipUnsigned

theorem skipHead (opened : List Enclosure) : Fitting pre (Scan.skipHead opened) := by
  refine .starting fun b => ?_
  cases kind? b with
  | none => exact .refuse_ahead _
  | some kind =>
      cases kind with
      | null => exact nullWord.andThen fun _ => .pure _
      | bool v => exact (boolWord v).andThen fun _ => .pure _
      | number => exact (skipNumber b).andThen fun _ => .pure _
      | string => exact skipQuoted.andThen fun _ => .pure _
      | list | object => exact skip.andThen fun _ => .pure _

theorem skipKey : Fitting pre Scan.skipKey :=
  .looking (.refuse_atEnd rfl (.inr rfl)) fun _ => .ite (fun _ => skipQuoted.andThen fun _ => .colon) fun _ =>
    .refuse_ahead _

theorem skipRound (state : SkipState) : Fitting pre (Scan.skipRound state) := by
  have hended : ∀ enclosure : Enclosure, enclosure.ended.isOfEnd = true := fun enclosure => by cases enclosure <;> rfl
  cases state with
  | before opened => exact (skipHead opened).andThen fun _ => .pure _
  | within innermost others =>
      refine .looking (.refuse_atEnd (hended _) (.inr rfl)) fun b => ?_
      refine .ite (fun _ => skip.andThen fun _ => .pure _) fun _ => ?_
      cases innermost with
      | list => exact (skipHead _).andThen fun _ => .pure _
      | object => exact skipKey.andThen fun _ => .pure _
  | after opened =>
      cases opened with
      | nil => exact .pure _
      | cons innermost others =>
          refine .looking (.refuse_atEnd (hended _) (.inr rfl)) fun b => ?_
          refine .ite (fun _ => skip.andThen fun _ => .pure _) fun _ => ?_
          refine .ite (fun _ => skip.andThen fun _ => ?_) fun _ => .refuse_ahead _
          cases innermost with
          | list => exact .pure _
          | object => exact skipKey.andThen fun _ => .pure _

theorem skipValue : Fitting pre Scan.skipValue :=
  anywhere (.loop .skipRound (fun _ _ _ _ => trivial) .skipRound _)

theorem otherKind : Fitting (Cursor.Before b) (Scan.otherKind b) := by
  unfold Scan.otherKind
  cases hkind : kind? b with
  | none => exact .refuse_ahead _
  | some kind =>
      cases kind with
      | null => exact nullWord.andThen fun _ => .pure _
      | bool v => exact (boolWord v).andThen fun _ => .pure _
      | number => exact map (number b) _
      | string =>
          obtain rfl := eq_of_kind? hkind (rfl : Kind.string.first? = some Octet.quote)
          exact map quoted _
      | list | object => exact .pure _

/-- A list or object is refused before its opening, and any other value behind it. -/
theorem mismatch (expected : String) : Fitting (Cursor.Before b) (Scan.mismatch expected b : Scan α) := by
  refine otherKind.bind (fun c found d _ hbefore hrun => onLine_of_otherKind hrun hbefore) fun found => ?_
  rintro c e c' - (⟨opener, hopener, hhead⟩ | ⟨-, hline⟩) h <;> cases h
  · exact .here (.opening hopener hhead)
  · exact .here (.onLine hline)

theorem string : Fitting pre Scan.string := by
  refine .starting fun b => .ite (fun hkind => ?_) fun _ => .mismatch _
  obtain rfl := eq_of_kind? hkind (rfl : Kind.string.first? = some Octet.quote)
  exact .quoted

theorem bool : Fitting pre Scan.bool := by
  refine .starting fun b => ?_
  split
  · exact (boolWord _).andThen fun _ => .pure _
  · exact .mismatch _

/-- A number was read before it is refused. -/
theorem int (range : IntRange) : Fitting pre (Scan.int range) := by
  refine .starting fun b => .ite (fun _ => ?_) fun _ => .mismatch _
  refine (number b).bind (fun _ _ _ _ hbefore hrun => onLine_of_number hrun hbefore.1) fun n => ?_
  cases n with
  | int n => exact .ite (fun _ => .pure n) fun _ => .refuseData_onLine _
  | float x => exact .refuseData_onLine _

theorem optional {value : Scan α} (hvalue : Fitting Cursor.Anywhere value) : Fitting pre (Scan.optional value) :=
  peekPastBlanks.andThen fun _ => .ite (fun _ => nullWord.andThen fun _ => .pure _) fun _ => map hvalue _

end Fitting

/-- What is known of the octet ahead of a part. -/
def Part.Before : Part → Cursor → Prop
  | .opened b => Cursor.Before b
  | .value _ | .items _ | .members | .member _ | .done _ => Cursor.Anywhere

/-- Readers count columns, if those of an `apply` do. -/
theorem Reads.fitting {m : Means} {limit : Nat} {P : α → Prop} {part : Part} {p q : Scan α}
    (happlied : ∀ {β : Type} (p : Scan β), m.applied p → Fitting Cursor.Anywhere p) (h : Reads m limit part P p q) :
    Fitting part.Before p := by
  induction h with
  | pure | lastPlace => exact .pure _
  | refused _ _ _ hleaf => exact .refuseData_enclosing hleaf
  | @report _ _ part _ _ hreported line _ ih =>
      refine (Fitting.report line).andThen fun _ => ?_
      cases part <;> cases hreported <;> exact ih
  | before _ _ ih ihk => exact ih.andThen ihk
  | mono _ _ ih => exact ih
  | tree _ room => exact .tree room
  | skipValue => exact .skipValue
  | string => exact .string
  | bool => exact .bool
  | int => exact .int _
  | optional _ ih => exact .optional ih
  | @judged _ _ judge _ room hk _ _ hleaf =>
      refine (Fitting.tree room).andThen fun j => ?_
      rw [hk]
      cases judge j with
      | none => exact .refuseData_enclosing hleaf
      | some a => exact .pure a
  | start _ _ ih => exact .starting ih
  | mismatch => exact .mismatch _
  | tooDeep => exact .tooDeep
  | boolWord => exact .boolWord _
  | quoted hkind =>
      obtain rfl := eq_of_kind? hkind (rfl : Kind.string.first? = some Octet.quote)
      exact .quoted
  | inList _ _ ih => exact .inList ih
  | inPlaces _ _ _ ih => exact .inPlaces ih
  | inObject _ _ ih => exact .inObject ih
  | items hitem ih => exact .items ih (hitem.advances trivial)
  | place _ _ _ ih ihk => exact (Fitting.place? ih _).andThen ihk
  | firstPlace _ hnone _ hleaf _ ih =>
      refine (Fitting.place? .string true).andThen fun s? => ?_
      cases s? with
      | none => exact hnone ▸ .refuseData_enclosing hleaf
      | some s => exact ih s
  | members _ _ _ ih ihk => exact (Fitting.members ih _).andThen ihk
  | colon _ ih => exact Fitting.colon.andThen fun _ => ih
  | apply hp _ ih => exact Fitting.colon.andThen fun _ => (Fitting.payload (happlied _ hp)).andThen ih

/-- From before the octet the plan goes on as one that fits behind it, so nothing is placed before it. -/
def Enters (b : UInt8) (p : Scan α) : Prop :=
  ∀ c : Cursor, c.Before b →
    ∃ (d : Cursor) (q : Scan α), c.Reaches d ∧ d.Begun ∧ Fitting Cursor.Begun q ∧
      p.run .document c = q.run .document d

namespace Enters

theorem skipping {k : Unit → Scan α} (hk : ∀ u, Fitting Cursor.Begun (k u)) : Enters b (Scan.skip >>= k) := by
  intro c hbefore
  obtain ⟨r, hr⟩ := hbefore.exists_cons
  obtain ⟨d, hskip, -⟩ := Gives.skip (l := c.log) b r c (congrArg (View.mk · c.log) hr)
  have hreach := Cursor.Reaches.of_run hskip
  have hrest : c.rest = [b] ++ d.rest := ok_skip_of_head hskip hbefore.1
  exact ⟨d, k (), hreach, Cursor.begun_of_taken hreach hrest (List.cons_ne_nil _ _), hk (), run_bind_ok hskip⟩

theorem inList {inside : Scan α} (hinside : Fitting Cursor.Anywhere inside) : Enters b (Scan.inList inside) :=
  .skipping fun _ => .enclosed hinside .closeList

theorem inPlaces {inside : Scan α} (hinside : Fitting Cursor.Anywhere inside) : Enters b (Scan.inPlaces inside) :=
  .skipping fun _ => .enclosed hinside .closePlaces

theorem inObject {inside : Scan α} (hinside : Fitting Cursor.Anywhere inside) : Enters b (Scan.inObject inside) :=
  .skipping fun _ => .enclosed hinside .closeObject

theorem starting {k : UInt8 → Scan α} (hblank : Octet.isBlank b = false) (hk : Enters b (k b)) :
    Enters b (Scan.valueStart >>= k) := by
  intro c hbefore
  obtain ⟨r, hr⟩ := hbefore.exists_cons
  obtain ⟨d, hstart, hview⟩ :=
    gives_valueStart (l := c.log) (t := r) blanks_nil hblank c (congrArg (View.mk · c.log) hr)
  have hhead : d.rest.head? = some b := by rw [(View.mk.inj hview).1]; rfl
  obtain ⟨d', q, hreach, hbegun, hq, hrun⟩ := hk d ⟨hhead, hbefore.2⟩
  exact ⟨d', q, (Cursor.Reaches.of_run hstart).trans hreach, hbegun, hq, (run_bind_ok hstart).trans hrun⟩

theorem expectList (expected : String) {value : Scan α} (hvalue : Enters Octet.openList value) :
    Enters Octet.openList (Scan.expectList expected value) := .starting rfl hvalue

theorem expectRecord (expected : String) {onList onObject : Scan α} (hopens : b = Octet.openList ∨ b = Octet.openObject)
    (hlist : Enters b onList) (hobject : Enters b onObject) :
    Enters b (Scan.expectRecord expected onList onObject) := by
  rcases hopens with rfl | rfl
  · exact .starting rfl hlist
  · exact .starting rfl hobject

theorem bind {p : Scan β} {k : β → Scan α} (hp : Enters b p) (hk : ∀ a, Fitting Cursor.Anywhere (k a)) :
    Enters b (p >>= k) := by
  intro c hbefore
  obtain ⟨d, q, hreach, hbegun, hq, hrun⟩ := hp c hbefore
  refine ⟨d, q >>= k, hreach, hbegun, hq.andThen hk, ?_⟩
  rcases hrest : q.run .document d with ⟨e | a, d'⟩ <;> rw [hrest] at hrun
  · rw [run_bind_error hrun, run_bind_error hrest]
  · rw [run_bind_ok hrun, run_bind_ok hrest]

theorem document {value : Scan α} (hvalue : Enters b value) : Enters b (Scan.document value) :=
  hvalue.bind fun _ => Fitting.endOfDocument.andThen fun _ => .pure _

end Enters

end BlockModel.Scan
