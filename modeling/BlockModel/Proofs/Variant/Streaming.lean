import BlockModel.Documents
import BlockModel.Proofs.Json.Writing
import BlockModel.Proofs.Scan.Places
import BlockModel.Proofs.Scan.Scalar
import BlockModel.Proofs.Scan.Skip
import BlockModel.Proofs.Variant.Canonical
import BlockModel.Proofs.Variant.Reading
import Mathlib.Data.List.Forall2

/-! One variant on the way through a text and out of JSON that was read whole. The two agree on what a value gives,
whether it is an object or the list of the fields, though they may find another fault first. A pool, which is always
read whole, is therefore one variant or a list of variants exactly if reading on the way accepts it as one, and no
value is both. -/

namespace BlockModel

open Scan

namespace Variant

/-- The variant in a document. -/
def read (octets : List UInt8) : Except Failure Variant :=
  ((document (scan greatestNesting)).runOn .document octets).1

/-- What one member adds to the fields met. -/
def memberOfJson (d : Draft) (key : String) (j : Json) : Except DataFault Draft :=
  match Field.ofName? key with
  | none => .ok d
  | some field => if d.has field then .error (.duplicateField field.name) else fieldOfJson d j field

theorem readMembers_memberOfJson (d : Draft) (ms : List (String × Json)) :
    readMembers (fun d key j => (memberOfJson d key j, [])) d ms = (membersOfJson d ms, []) := by
  induction ms generalizing d with
  | nil => rfl
  | cons m rest ih =>
      obtain ⟨key, j⟩ := m
      rw [readMembers, membersOfJson, memberOfJson]
      cases Field.ofName? key with
      | none =>
          simp only [ih]
          rfl
      | some field =>
          by_cases hhas : d.has field = true
          · simp only [hhas, if_true]
          · simp only [hhas]
            cases fieldOfJson d j field with
            | error fault => rfl
            | ok d' =>
                simp only [Bool.false_eq_true, if_false, ih]
                rfl

theorem readsMember_scanField (d : Draft) (field : Field) (j : Json) :
    ReadsMember (do colon; scanField d field) j (fieldOfJson d j field, []) := by
  rw [fieldOfJson_eq]
  cases field with
  | model => exact (readsAs_string j).readsMember fun v => d.put .model v
  | x => exact (readsAs_int32 j).readsMember fun v => d.put .x v
  | y => exact (readsAs_int32 j).readsMember fun v => d.put .y v
  | uvlock => exact (readsAs_bool j).readsMember fun v => d.put .uvlock v
  | weight => exact (readsAs_uint32 j).readsMember fun v => d.put .weight v

/-- An unknown member is passed over, however it goes on inside. -/
theorem readsMember_scanMember (d : Draft) (key : String) (j : Json) :
    ReadsMember (scanMember d key) j (memberOfJson d key j, []) := by
  rw [scanMember, memberOfJson]
  cases Field.ofName? key with
  | none => exact (readsAs_skipValue j).readsMember fun _ => d
  | some field =>
      by_cases hhas : d.has field = true
      · simp only [hhas, if_true]
        exact fun _ _ _ _ _ _ _ _ _ => .refuseData _ _
      · simp only [hhas]
        exact readsMember_scanField d field j

theorem gives_complete (d : Draft) (v : View) :
    Gives (match d.complete with | .ok v => pure v | .error fault => refuseData .enclosing fault) v d.complete v := by
  cases d.complete with
  | ok a => exact .pure a v
  | error fault => exact .refuseData _ _

theorem readsObject_scanMembers (ms : List (String × Json)) :
    ReadsObject (inObject scanMembers) ms (ofJson (.object ms), []) := by
  intro s t l hms
  have hmembers := gives_members (t := t) (l := l) (g := fun d key j => (memberOfJson d key j, []))
    (fun m _ d => readsMember_scanMember d m.1 m.2) hms Draft.empty
  rw [readMembers_memberOfJson] at hmembers
  exact gives_inObject (hmembers.bind fun d _ => gives_complete d _)

theorem readPlace_silent {α : Type} (f : Json → Except DataFault α) (j? : Option Json) :
    readPlace (fun j => (f j, [])) j? = (Json.placeOr (fun j => some <$> f j) none j?, []) := by
  cases j? <;> rfl

/-- A default for a place that is not there may be put in afterwards. -/
theorem placeOr_eq_getD {α : Type} (f : Json → Except DataFault α) (default : α) (j? : Option Json) :
    Json.placeOr f default j? = (·.getD default) <$> Json.placeOr (fun j => some <$> f j) none j? := by
  cases j? with
  | none => rfl
  | some j =>
      simp only [Json.placeOr]
      cases f j <;> rfl

/-- What the places hold, without asking whether there are more. -/
def fieldsOfPlaces (js : List Json) : Except DataFault Variant := do
  match js[0]? with
  | none => .error noPlaces
  | some first =>
    let model ← first.asString
    let x ← Json.placeOr Json.asInt32 0 js[1]?
    let y ← Json.placeOr Json.asInt32 0 js[2]?
    let uvlock ← Json.placeOr Json.asBool false js[3]?
    let weight ← Json.placeOr Json.asUInt32 1 js[4]?
    pure ⟨model, x, y, uvlock, weight⟩

theorem placesOfJson_eq_ok_iff {js : List Json} {v : Variant} :
    placesOfJson js = .ok v ↔ fieldsOfPlaces js = .ok v ∧ js.length ≤ 5 := by
  rw [placesOfJson, fieldsOfPlaces]
  cases js[0]? with
  | none => exact ⟨fun h => absurd h (error_ne_ok _ _), fun h => absurd h.1 (error_ne_ok _ _)⟩
  | some first =>
      simp only [bind_eq_ok_iff, pure_eq_ok_iff, noMorePlaces_eq_ok_iff]
      constructor
      · rintro ⟨model, hmodel, x, hx, y, hy, uvlock, huvlock, weight, hweight, -, hlength, rfl⟩
        exact ⟨⟨model, hmodel, x, hx, y, hy, uvlock, huvlock, weight, hweight, rfl⟩, hlength⟩
      · rintro ⟨⟨model, hmodel, x, hx, y, hy, uvlock, huvlock, weight, hweight, rfl⟩, hlength⟩
        exact ⟨model, hmodel, x, hx, y, hy, uvlock, huvlock, weight, hweight, (), hlength, rfl⟩

/-- All five places are read, and the text goes on behind the last of them. -/
theorem gives_scanPlaces {js : List Json} {s t : List UInt8} {l : List LogLine} (hjs : Spells .exact (.items js) s) :
    ∃ rest, Spells .exact (.moreItems (js.drop 5)) rest ∧
      Gives scanPlaces ⟨s ++ Octet.closeList :: t, l⟩ (fieldsOfPlaces js) ⟨rest ++ Octet.closeList :: t, l⟩ := by
  obtain ⟨r0, hr0, hmodel⟩ := gives_place?_first (t := t) (l := l) (fun j _ => readsAs_string j) hjs
  obtain ⟨r1, hr1, hx⟩ := gives_place?_next (t := t) (l := l) (fun j _ => readsAs_int32 j) hr0
  obtain ⟨r2, hr2, hy⟩ := gives_place?_next (t := t) (l := l) (fun j _ => readsAs_int32 j) hr1
  obtain ⟨r3, hr3, huvlock⟩ := gives_place?_next (t := t) (l := l) (fun j _ => readsAs_bool j) hr2
  obtain ⟨r4, hr4, hweight⟩ := gives_place?_next (t := t) (l := l) (fun j _ => readsAs_uint32 j) hr3
  simp only [readPlace_silent, List.append_nil] at hmodel hx hy huvlock hweight
  refine ⟨r4, hr4, ?_⟩
  rw [scanPlaces, fieldsOfPlaces]
  cases hfirst : js[0]? with
  | none =>
      rw [hfirst, Json.placeOr] at hmodel
      exact hmodel.bind_ok (.refuseData _ _)
  | some first =>
      rw [hfirst, Json.placeOr] at hmodel
      simp only [placeOr_eq_getD Json.asInt32, placeOr_eq_getD Json.asBool, placeOr_eq_getD Json.asUInt32,
        bind_map_left]
      cases hstring : first.asString with
      | error fault =>
          rw [hstring] at hmodel
          exact hmodel.bind_error
      | ok model =>
          rw [hstring] at hmodel
          exact hmodel.bind_ok (hx.bind fun x _ => hy.bind fun y _ => huvlock.bind fun uvlock _ =>
            hweight.bind fun weight _ => .pure _ _)

theorem readsList_scanPlaces {js : List Json} (hlength : js.length ≤ 5) :
    ReadsList (inPlaces scanPlaces) js (fieldsOfPlaces js, []) := by
  intro s t l hjs
  obtain ⟨rest, hrest, hplaces⟩ := gives_scanPlaces (t := t) (l := l) hjs
  rw [List.drop_eq_nil_of_le hlength] at hrest
  rw [List.append_nil]
  exact gives_inPlaces hrest hplaces

/-- What reading on the way finds. -/
def found : Json → Except DataFault Variant
  | .list js => fieldsOfPlaces js
  | j => ofJson j

/-- All but lists that are too long are read through. -/
theorem readsAs_scan {room : Nat} {j : Json} (hroom : j.nesting ≤ room) (hlength : ∀ js, j = .list js → js.length ≤ 5) :
    ReadsAs (scan room) j (found j, []) := by
  cases room with
  | zero =>
      refine readsAs_expectRecord ?_ ?_ fun hlist hobject => ?_
      · rintro js rfl
        exact absurd hroom (Json.not_nesting_list_le_zero js)
      · rintro ms rfl
        exact absurd hroom (Json.not_nesting_object_le_zero ms)
      · cases j with
        | list js => exact absurd rfl hlist
        | object ms => exact absurd rfl hobject
        | _ => rfl
  | succ room =>
      refine readsAs_expectRecord ?_ ?_ fun hlist hobject => ?_
      · rintro js rfl
        exact readsList_scanPlaces (hlength js rfl)
      · rintro ms rfl
        exact readsObject_scanMembers ms
      · cases j with
        | list js => exact absurd rfl hlist
        | object ms => exact absurd rfl hobject
        | _ => rfl

theorem fails_scan_of_long {room : Nat} {js : List Json} (hroom : (Json.list js).nesting ≤ room)
    (hlength : 5 < js.length) {w s t : List UInt8} {l : List LogLine} (hw : Blanks w)
    (hj : Spells .exact (.value (.list js)) s) : Fails (scan room) ⟨w ++ (s ++ t), l⟩ := by
  cases room with
  | zero => exact absurd hroom (Json.not_nesting_list_le_zero js)
  | succ room =>
      cases hj with
      | list hjs =>
          obtain ⟨rest, hrest, hplaces⟩ := gives_scanPlaces (t := t) (l := l) hjs
          refine (gives_valueStart hw (by decide)).bind_fails ?_
          exact fails_inPlaces hrest (mt List.drop_eq_nil_iff.1 (Nat.not_le.2 hlength)) hplaces

/-- A document is read on the way exactly if a variant can be taken from the JSON that it spells, and as that one. -/
theorem read_eq_ok_iff {j : Json} {octets : List UInt8} (hroom : j.nesting ≤ greatestNesting)
    (hspelled : j.SpelledBy octets) (v : Variant) : read octets = .ok v ↔ ofJson j = .ok v := by
  by_cases hlong : ∃ js, j = .list js ∧ 5 < js.length
  · obtain ⟨js, rfl, hlong⟩ := hlong
    obtain ⟨w, s, w', hw, hjs, -, rfl⟩ := hspelled
    have hfails : Fails (document (scan greatestNesting)) ⟨w ++ (s ++ w'), []⟩ :=
      (fails_scan_of_long hroom hlong hw hjs).bind _
    obtain ⟨e, c, hrun⟩ := hfails.runOn
    rw [read, hrun, ofJson, placesOfJson_eq_ok_iff]
    refine iff_of_false (fun h => ?_) fun h => absurd h.2 (Nat.not_le.2 hlong)
    cases h
  · have hlength : ∀ js, j = .list js → js.length ≤ 5 := fun js hj => Nat.le_of_not_lt fun hlt => hlong ⟨js, hj, hlt⟩
    rw [read, document_eq_ok_iff (readsAs_scan hroom hlength) hspelled]
    cases j with
    | list js =>
        rw [ofJson, placesOfJson_eq_ok_iff]
        exact ⟨fun h => ⟨h, hlength js rfl⟩, fun h => h.1⟩
    | _ => exact Iff.rfl

end Variant

namespace VariantPool

variable {j : Json} {octets : List UInt8}

/-- The list of the fields of a variant has a string in front, and no variant is a string. -/
theorem asList_ne_ok {v : Variant} (h : Variant.ofJson j = .ok v) (vs : List Variant) :
    Json.asList "a sequence" Variant.ofJson j ≠ .ok vs := by
  intro hvs
  cases j with
  | list js =>
      cases js with
      | nil => exact absurd h (error_ne_ok _ _)
      | cons first rest =>
          obtain ⟨w, hw⟩ := exists_each_eq_ok_iff.1 ⟨vs, hvs⟩ first List.mem_cons_self
          obtain ⟨model, hmodel, -⟩ := bind_eq_ok_iff.1 h
          cases first with
          | str s => exact absurd hw (error_ne_ok _ _)
          | _ => exact absurd hmodel (error_ne_ok _ _)
  | _ => exact absurd hvs (error_ne_ok _ _)

/-- A list of variants if it is one, and otherwise one variant. -/
def ofJsonListFirst? (j : Json) : Option VariantPool :=
  match Json.asList "a sequence" Variant.ofJson j with
  | .ok vs => some ⟨vs⟩
  | .error _ =>
    match Variant.ofJson j with
    | .ok v => some ⟨[v]⟩
    | .error _ => none

theorem ofJsonListFirst?_eq (j : Json) : ofJsonListFirst? j = ofJson? j := by
  rw [ofJsonListFirst?, ofJson?]
  cases hlist : Json.asList "a sequence" Variant.ofJson j with
  | error fault => cases Variant.ofJson j <;> rfl
  | ok vs =>
      cases hvariant : Variant.ofJson j with
      | error fault => rfl
      | ok v => exact absurd hlist (asList_ne_ok hvariant vs)

theorem each_eq_ok_iff_map {α : Type} {f : Json → Except DataFault α} {js : List Json} {as : List α} :
    Json.each f js = .ok as ↔ js.map f = as.map .ok := by
  induction js generalizing as with
  | nil => cases as <;> simp [Json.each]
  | cons j rest ih =>
      rw [Json.each, both_eq_ok_iff, List.map_cons]
      constructor
      · rintro ⟨a, as, ha, has, rfl⟩
        rw [ha, ih.1 has, List.map_cons]
      · intro h
        cases as with
        | nil => cases h
        | cons a as =>
            obtain ⟨ha, has⟩ := List.cons.inj h
            exact ⟨a, as, ha, ih.2 has, rfl⟩

theorem asList_eq_ok_iff {vs : List Variant} :
    Json.asList "a sequence" Variant.ofJson j = .ok vs ↔
      ∃ js, j = .list js ∧ js.map Variant.ofJson = vs.map .ok := by
  cases j with
  | list js =>
      rw [Json.asList, each_eq_ok_iff_map]
      refine ⟨fun h => ⟨js, rfl, h⟩, ?_⟩
      rintro ⟨_, hjs, h⟩
      rwa [Json.list.inj hjs]
  | _ =>
      refine iff_of_false (error_ne_ok _ _) ?_
      rintro ⟨_, ⟨⟩, _⟩

theorem ofJson?_eq_some_iff {pool : VariantPool} :
    ofJson? j = some pool ↔ (∃ v, Variant.ofJson j = .ok v ∧ pool = ⟨[v]⟩) ∨
      ∃ js, j = .list js ∧ js.map Variant.ofJson = pool.variants.map .ok := by
  rw [← asList_eq_ok_iff, ofJson?]
  cases hvariant : Variant.ofJson j with
  | ok v =>
      refine ⟨fun h => .inl ⟨v, rfl, (Option.some.inj h).symm⟩, ?_⟩
      rintro (⟨v', hv', rfl⟩ | hlist)
      · rw [Except.ok.inj hv']
      · exact absurd hlist (asList_ne_ok hvariant _)
  | error fault =>
      cases hlist : Json.asList "a sequence" Variant.ofJson j with
      | ok vs =>
          refine ⟨fun h => .inr (by rw [← Option.some.inj h]), ?_⟩
          rintro (⟨v, hv, -⟩ | h)
          · cases hv
          · rw [Except.ok.inj h]
      | error fault' =>
          refine iff_of_false (Option.some_ne_none _).symm ?_
          rintro (⟨v, hv, -⟩ | h)
          · cases hv
          · cases h

theorem read_eq_ok_iff {pool : VariantPool} (hroom : j.nesting ≤ greatestNesting) (hspelled : j.SpelledBy octets) :
    read octets = .ok pool ↔ ofJson? j = some pool := by
  rw [read, document_eq_ok_iff (readsAs_scan hroom) hspelled, ofJson]
  cases ofJson? j with
  | some pool' => exact ⟨fun h => congrArg some (Except.ok.inj h), fun h => congrArg Except.ok (Option.some.inj h)⟩
  | none => exact iff_of_false (error_ne_ok _ _) (Option.some_ne_none _).symm

/-- Every item of a list stands in its text by itself. -/
theorem exists_spelled_items {js : List Json} {s : List UInt8} (h : Spells .exact (.value (.list js)) s) :
    ∃ texts, List.Forall₂ Json.SpelledBy js texts := by
  have hmore : ∀ {js r}, Spells .exact (.moreItems js) r → ∃ texts, List.Forall₂ Json.SpelledBy js texts := by
    intro js
    induction js with
    | nil => exact fun _ => ⟨[], .nil⟩
    | cons j js ih =>
        intro r h
        cases h with
        | moreItems _ _ hj hjs =>
            obtain ⟨texts, htexts⟩ := ih hjs
            exact ⟨_ :: texts, .cons ⟨_, _, [], blanks_nil, hj, blanks_nil, rfl⟩ htexts⟩
  cases h with
  | list hjs =>
      cases hjs with
      | noItems _ => exact ⟨[], .nil⟩
      | items _ hj hjs =>
          obtain ⟨texts, htexts⟩ := hmore hjs
          exact ⟨_ :: texts, .cons ⟨_, _, [], blanks_nil, hj, blanks_nil, rfl⟩ htexts⟩

/-- It makes no difference whether the items are read each from its own text or taken from the JSON. -/
theorem map_read_eq_iff {js : List Json} {texts : List (List UInt8)} {vs : List Variant}
    (hroom : ∀ j ∈ js, j.nesting ≤ greatestNesting) (htexts : List.Forall₂ Json.SpelledBy js texts) :
    texts.map Variant.read = vs.map .ok ↔ js.map Variant.ofJson = vs.map .ok := by
  induction htexts generalizing vs with
  | nil =>
      cases vs with
      | nil => exact iff_of_true rfl rfl
      | cons v vs => exact iff_of_false (List.cons_ne_nil _ _).symm (List.cons_ne_nil _ _).symm
  | @cons j text js texts hj _ ih =>
      rw [List.forall_mem_cons] at hroom
      cases vs with
      | nil => exact iff_of_false (List.cons_ne_nil _ _) (List.cons_ne_nil _ _)
      | cons v vs =>
          simp only [List.map_cons, List.cons.injEq, Variant.read_eq_ok_iff hroom.1 hj, ih hroom.2]

/-- No value is one variant and a list of variants, so it does not matter which of the two is tried first. A document
gives a pool exactly if reading on the way accepts it as one variant, and the pool is that one, or if it is a list and
reading accepts each of its items, and the pool is those in order. -/
theorem read_unambiguous (hnesting : j.nesting ≤ 126) (hspelled : j.SpelledBy octets) :
    (∀ v vs, Variant.ofJson j = .ok v → Json.asList "a sequence" Variant.ofJson j ≠ .ok vs) ∧
      ofJsonListFirst? j = ofJson? j ∧ (∀ v, Variant.read octets = .ok v ↔ Variant.ofJson j = .ok v) ∧
      ∀ pool, read octets = .ok pool ↔ (∃ v, Variant.read octets = .ok v ∧ pool = ⟨[v]⟩) ∨
        ∃ js, j = .list js ∧ (∃ texts, List.Forall₂ Json.SpelledBy js texts) ∧
          ∀ texts, List.Forall₂ Json.SpelledBy js texts → texts.map Variant.read = pool.variants.map .ok := by
  have hroom : j.nesting ≤ greatestNesting := Nat.le_trans hnesting (by decide)
  refine ⟨fun v vs hv => asList_ne_ok hv vs, ofJsonListFirst?_eq j, Variant.read_eq_ok_iff hroom hspelled,
    fun pool => ?_⟩
  simp only [read_eq_ok_iff hroom hspelled, ofJson?_eq_some_iff, Variant.read_eq_ok_iff hroom hspelled]
  refine or_congr_right (exists_congr fun js => and_congr_right fun hj => ?_)
  subst hj
  have hitems : ∀ k ∈ js, k.nesting ≤ greatestNesting :=
    fun k hk => Nat.le_of_lt (Nat.lt_of_lt_of_le (Json.nesting_lt_list hk) hroom)
  obtain ⟨w, s, w', -, hs, -, -⟩ := hspelled
  obtain ⟨texts, htexts⟩ := exists_spelled_items hs
  exact ⟨fun h => ⟨⟨texts, htexts⟩, fun texts htexts => (map_read_eq_iff hitems htexts).2 h⟩,
    fun h => (map_read_eq_iff hitems htexts).1 (h.2 texts htexts)⟩

/-- Two variants, each by its fields: a list that looks like the list of the fields of one. -/
def listOfLists : Json := .list [.list [.str "a"], .list [.str "b", .number (.int 90)]]

def listOfListsText : List UInt8 := Text.Utf8.encode "[[\"a\"], [\"b\",90]]".toList

theorem spelledBy_listOfLists : listOfLists.SpelledBy listOfListsText := by
  have hnil : Blanks [] := blanks_nil
  have hblank : Blanks [0x20] := List.forall_mem_singleton.2 rfl
  have hwritten := Json.Written.spells_string
  have hninety : Spells .exact (.value (.number (.int 90))) _ := Json.Written.spells_int (by decide) (by decide)
  have hfirst := Spells.list (.items hnil (.str (hwritten "a")) (.endItems hnil))
  have hsecond := Spells.list (.items hnil (.str (hwritten "b")) (.moreItems hnil hnil hninety (.endItems hnil)))
  exact Json.Written.spelledBy (.list (.items hnil hfirst (.moreItems hnil hblank hsecond (.endItems hnil))))

theorem read_unambiguous_listOfLists :
    listOfLists.nesting ≤ 126 ∧ listOfLists.SpelledBy listOfListsText ∧
      read listOfListsText = .ok ⟨[.ofModel "a", (Variant.ofModel "b").rotated 90 0]⟩ ∧
      (∀ v, Variant.read listOfListsText ≠ .ok v) ∧ ∃ js texts, listOfLists = .list js ∧
        List.Forall₂ Json.SpelledBy js texts ∧
        texts.map Variant.read = [.ok (.ofModel "a"), .ok ((Variant.ofModel "b").rotated 90 0)] := by
  obtain ⟨-, -, hone, hpool⟩ := read_unambiguous (j := listOfLists) (by decide) spelledBy_listOfLists
  have hread : read listOfListsText = .ok ⟨[.ofModel "a", (Variant.ofModel "b").rotated 90 0]⟩ :=
    (read_eq_ok_iff (by decide) spelledBy_listOfLists).2 (by decide)
  have hnone : ∀ v, Variant.read listOfListsText ≠ .ok v := fun v hv => error_ne_ok _ _ ((hone v).1 hv)
  rcases (hpool _).1 hread with ⟨v, hv, -⟩ | ⟨js, hjs, ⟨texts, htexts⟩, hitems⟩
  · exact absurd hv (hnone v)
  · exact ⟨by decide, spelledBy_listOfLists, hread, hnone, js, texts, hjs, htexts, hitems texts htexts⟩

end VariantPool

end BlockModel
