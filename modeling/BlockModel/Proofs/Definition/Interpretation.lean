import BlockModel.Proofs.Condition.Evaluation
import BlockModel.Proofs.Definition.Reading
import BlockModel.Proofs.Multipart.Denotation

/-! What a block is drawn with, found in the document itself. The first key of the table that holds gives its
variant, and every case of the multipart that holds gives one, without a definition being made of the
document. A document that is read gives the same. -/

namespace BlockModel.Definition

open Multipart (payload? lastValue? denotedCase? denotedCases)

variable {β : Type} [PropertyBag β] (bag : β) (p : BlockPosition)

/-- The variant that the pool in a value selects. -/
def selected? (j : Json) : Option Variant := (payload? j : Option VariantPool).bind fun pool => pool.select? p

/-- The variant under the first key that holds. -/
def tableVariants : Json → List Variant
  | .object ms => ((ms.find? fun m => Condition.keyHolds bag m.1).bind fun m => selected? p m.2).toList
  | _ => []

/-- The variant of one case, if it has any and its last condition holds. -/
def caseVariants : Json → List Variant
  | .object ms =>
    if (lastValue? "when" ms).all (Condition.objectHolds bag) then
      ((lastValue? "apply" ms).bind (selected? p)).toList
    else []
  | _ => []

def multipartVariants : Json → List Variant
  | .list js => js.flatMap (caseVariants bag p)
  | _ => []

/-- A section of a document: the member with its name, or the item in its place. -/
def section? (name : String) (place : Nat) : Json → Option Json
  | .object ms => (ms.find? fun m => m.1 == name).map (·.2)
  | .list js => js[place]?
  | _ => none

/-- The variants that a document draws a block with. -/
def interpretation (t : Json) : List Variant :=
  (section? "variants" 0 t).elim [] (tableVariants bag p) ++
    (section? "multipart" 1 t).elim [] (multipartVariants bag p)

theorem ofName?_eq_some_iff {name : String} {s : Section} : Section.ofName? name = some s ↔ name = s.name := by
  constructor
  · intro h
    exact (beq_iff_eq.1 (List.find?_some (p := fun s : Section => s.name == name) h)).symm
  · rintro rfl
    cases s <;> decide

/-- A section by what a draft holds of it and how it is taken from JSON. -/
structure IsView {α : Type} (s : Section) (get : Draft → Option (Option α))
    (value : Json → Except DataFault (Option α)) : Prop where
  has_eq : ∀ d, d.has s = (get d).isSome
  set : ∀ {d d' j}, sectionOfJson d j s = .ok d' → ∃ v, value j = .ok v ∧ get d' = some v
  keep : ∀ {d d' j s'}, s' ≠ s → sectionOfJson d j s' = .ok d' → get d' = get d

theorem isView_variants : IsView .variants Draft.variants variantsOfJson where
  has_eq _ := rfl
  set {d d' j} h := by
    obtain ⟨v, hv, rfl⟩ := map_eq_ok_iff.1 h
    exact ⟨v, hv, rfl⟩
  keep {d d' j s'} hne h := by
    cases s' with
    | variants => exact absurd rfl hne
    | multipart =>
        obtain ⟨m, -, rfl⟩ := map_eq_ok_iff.1 h
        rfl

theorem isView_multipart : IsView .multipart Draft.multipart multipartOfJson where
  has_eq _ := rfl
  set {d d' j} h := by
    obtain ⟨m, hm, rfl⟩ := map_eq_ok_iff.1 h
    exact ⟨m, hm, rfl⟩
  keep {d d' j s'} hne h := by
    cases s' with
    | multipart => exact absurd rfl hne
    | variants =>
        obtain ⟨v, -, rfl⟩ := map_eq_ok_iff.1 h
        rfl

/-- A member of another key changes nothing, and one of a section fills it for the first time. -/
theorem membersOfJson_cons {d d' : Draft} {key : String} {j : Json} {rest : List (String × Json)}
    (h : membersOfJson d ((key, j) :: rest) = .ok d') :
    ((∀ s : Section, key ≠ s.name) ∧ membersOfJson d rest = .ok d') ∨
      ∃ s d1, key = s.name ∧ d.has s = false ∧ sectionOfJson d j s = .ok d1 ∧
        membersOfJson d1 rest = .ok d' := by
  rw [membersOfJson] at h
  cases hname : Section.ofName? key with
  | none =>
      refine .inl ⟨fun s hkey => ?_, by rwa [hname] at h⟩
      rw [ofName?_eq_some_iff.2 hkey] at hname
      cases hname
  | some s =>
      rw [hname] at h
      by_cases hhas : d.has s = true
      · simp only [hhas, if_true] at h
        cases h
      · simp only [hhas] at h
        obtain ⟨d1, hsection, h⟩ := bind_eq_ok_iff.1 h
        exact .inr ⟨s, d1, ofName?_eq_some_iff.1 hname, by simpa using hhas, hsection, h⟩

section Views

variable {α : Type} {s : Section} {get : Draft → Option (Option α)} {value : Json → Except DataFault (Option α)}
  {ms : List (String × Json)} {d d' : Draft}

/-- What a section holds is never replaced. -/
theorem IsView.get_eq (hview : IsView s get value) (h : membersOfJson d ms = .ok d') {v : Option α}
    (hv : get d = some v) : get d' = some v := by
  induction ms generalizing d with
  | nil =>
      obtain rfl := Except.ok.inj h
      exact hv
  | cons m rest ih =>
      rcases membersOfJson_cons h with ⟨-, h⟩ | ⟨s', d1, -, hnew, hsection, h⟩
      · exact ih h hv
      · have hne : s' ≠ s := by
          rintro rfl
          rw [hview.has_eq, hv] at hnew
          cases hnew
        exact ih h ((hview.keep hne hsection).trans hv)

/-- A section is taken from the first member of its name. -/
theorem IsView.placeOr_eq (hview : IsView s get value) (h : membersOfJson d ms = .ok d') (hnone : get d = none) :
    Json.placeOr value none ((ms.find? fun m => m.1 == s.name).map (·.2)) = .ok (get d').join := by
  induction ms generalizing d with
  | nil =>
      obtain rfl := Except.ok.inj h
      rw [hnone]
      rfl
  | cons m rest ih =>
      rcases membersOfJson_cons h with ⟨hother, h⟩ | ⟨s', d1, hkey, -, hsection, h⟩
      · rw [List.find?_cons_of_neg (by simpa using hother s)]
        exact ih h hnone
      · by_cases hs : s' = s
        · subst hs
          -- Another member of this name would be refused, so what is set here stays.
          obtain ⟨v, hv, hget⟩ := hview.set hsection
          have hhit : (m.1 == s'.name) = true := beq_iff_eq.2 hkey
          simp only [List.find?_cons, hhit, hview.get_eq h hget]
          exact hv
        · have hne : m.1 ≠ s.name := by
            rw [hkey]
            revert hs
            cases s' <;> cases s <;> decide
          rw [List.find?_cons_of_neg (by simpa using hne)]
          exact ih h ((hview.keep hs hsection).trans hnone)

end Views

/-- Each section of a definition is taken from that section of the document. -/
theorem sections_of_ofJson {t : Json} {d : Definition} (h : ofJson t = .ok d) :
    Json.placeOr variantsOfJson none (section? "variants" 0 t) = .ok d.variants ∧
      Json.placeOr multipartOfJson none (section? "multipart" 1 t) = .ok d.multipart := by
  cases t with
  | object ms =>
      obtain ⟨draft, hdraft, rfl⟩ := map_eq_ok_iff.1 h
      exact ⟨isView_variants.placeOr_eq hdraft rfl, isView_multipart.placeOr_eq hdraft rfl⟩
  | list js =>
      obtain ⟨hvariants, hmultipart, -⟩ := (placesOfJson_eq_ok_iff js d).1 h
      exact ⟨hvariants, hmultipart⟩
  | _ => cases h

theorem payload?_of_ok {j : Json} {pool : VariantPool} (h : VariantPool.ofJson j = .ok pool) :
    payload? j = some pool :=
  congrArg Except.toOption h

/-- The first row that holds stands for the first member whose key does. -/
theorem find?_rows {ms : List (String × Json)} {rows : List VariantRow}
    (h : VariantTable.rowsOfJson ms = .ok rows) :
    (rows.find? fun row => row.condition.holds bag).bind (fun row => row.apply.select? p) =
      (ms.find? fun m => Condition.keyHolds bag m.1).bind fun m => selected? p m.2 := by
  induction ms generalizing rows with
  | nil =>
      obtain rfl := Except.ok.inj h
      rfl
  | cons m rest ih =>
      obtain ⟨pool, more, hpool, hmore, rfl⟩ := (both_eq_ok_iff _ _).1 h
      have hholds : (VariantRow.ofKey m.1 pool).condition.holds bag = Condition.keyHolds bag m.1 :=
        Condition.holds_ofKey bag m.1
      rw [List.find?_cons, List.find?_cons, hholds]
      cases Condition.keyHolds bag m.1 with
      | true =>
          show pool.select? p = selected? p m.2
          rw [selected?, payload?_of_ok hpool, Option.bind_some]
      | false => exact ih hmore

theorem emitted_table {j : Json} {table : Option VariantTable} (h : variantsOfJson j = .ok table) :
    table.elim [] (fun t => t.emitted bag p) = tableVariants bag p j := by
  cases j with
  | null =>
      obtain rfl := Except.ok.inj h
      rfl
  | object ms =>
      obtain ⟨t, ht, rfl⟩ := map_eq_ok_iff.1 h
      obtain ⟨rows, hrows, rfl⟩ := map_eq_ok_iff.1 ht
      rw [tableVariants, ← find?_rows bag p hrows, Option.elim_some, VariantTable.emitted, VariantTable.find?]
      cases rows.find? fun row => row.condition.holds bag <;> rfl
  | _ => cases h

theorem holds_when (when? : Option Json) :
    ((when?.map Condition.meaning).getD (.all [])).holds bag = when?.all (Condition.objectHolds bag) := by
  cases when? with
  | none => rfl
  | some j => exact Condition.holds_meaning bag j

/-- A case gives the variants that its object does. -/
theorem emitted_case (j : Json) :
    (denotedCase? j : Option (Case VariantPool)).elim []
      (fun c => if c.condition.holds bag then Applicable.emitted c.apply p else []) = caseVariants bag p j := by
  cases j with
  | object ms =>
      rw [denotedCase?, caseVariants]
      cases lastValue? "apply" ms with
      | none => exact (ite_self []).symm
      | some j =>
          rw [Option.bind_some, Option.bind_some, selected?]
          cases (payload? j : Option VariantPool) with
          | none => exact (ite_self []).symm
          | some pool =>
              rw [Option.map_some, Option.elim_some]
              simp only [holds_when]
              rfl
  | _ => rfl

theorem emitted_cases (js : List Json) :
    ((js.filterMap denotedCase?).filter fun c => c.condition.holds bag).flatMap
      (fun c : Case VariantPool => Applicable.emitted c.apply p) = js.flatMap (caseVariants bag p) := by
  induction js with
  | nil => rfl
  | cons j rest ih =>
      rw [List.flatMap_cons, ← emitted_case, ← ih, List.filterMap_cons]
      cases (denotedCase? j : Option (Case VariantPool)) with
      | none => rfl
      | some c =>
          rw [Option.elim_some, List.filter_cons]
          split <;> rfl

theorem emitted_multipart {j : Json} {multipart : Option (Multipart VariantPool)}
    (h : multipartOfJson j = .ok multipart) :
    multipart.elim [] (fun m => m.emitted bag p) = multipartVariants bag p j := by
  by_cases hkind : j.kind = .null
  · obtain rfl := eq_null_of_kind hkind
    obtain rfl := Except.ok.inj h
    rfl
  · rw [multipartOfJson, asOptional_of_kind hkind] at h
    obtain ⟨m, hm, rfl⟩ := map_eq_ok_iff.1 h
    obtain ⟨⟨-⟩, hcases⟩ := (Multipart.ofJson_eq_ok_iff _ _ m).1 hm
    rw [Option.elim_some, Multipart.emitted, Multipart.matching, hcases]
    exact emitted_cases bag p _

/-- Whatever spelling of a value is read as a definition, a block in any state and at any position is drawn
with what the value itself says. -/
theorem resolve_eq_interpretation {t : Json} {octets : List UInt8} {d : Definition} (hnesting : t.nesting ≤ 127)
    (hspelled : t.SpelledBy octets) (hload : load octets = .ok d) :
    d.resolve bag p = interpretation bag p t := by
  obtain ⟨hvariants, hmultipart⟩ := sections_of_ofJson ((load_eq_ok_iff hnesting hspelled d).1 hload)
  have htable : d.variants.elim [] (fun t => t.emitted bag p) =
      (section? "variants" 0 t).elim [] (tableVariants bag p) := by
    cases hsection : section? "variants" 0 t with
    | none =>
        rw [hsection] at hvariants
        rw [← Except.ok.inj hvariants]
        rfl
    | some j =>
        rw [hsection] at hvariants
        exact emitted_table bag p hvariants
  have hcases : d.multipart.elim [] (fun m => m.emitted bag p) =
      (section? "multipart" 1 t).elim [] (multipartVariants bag p) := by
    cases hsection : section? "multipart" 1 t with
    | none =>
        rw [hsection] at hmultipart
        rw [← Except.ok.inj hmultipart]
        rfl
    | some j =>
        rw [hsection] at hmultipart
        exact emitted_multipart bag p hmultipart
  rw [resolve, htable, hcases, interpretation]

/-- A table with a key of two segments in front of one that always holds, and a case. -/
def wallDocument : Json :=
  .object [("variants", .object [("a=x|y, b", .object [("model", .str "m")]), ("", .list [])]),
    ("multipart", .list [.object [("when", .object [("a", .str "y")]), ("apply", .object [("model", .str "n")])]])]

def wallText : List UInt8 :=
  Text.Utf8.encode ("\x7b\"variants\":\x7b\"a=x|y, b\":\x7b\"model\":\"m\"\x7d,\"\":[]\x7d," ++
    "\"multipart\":[\x7b\"when\":\x7b\"a\":\"y\"\x7d,\"apply\":\x7b\"model\":\"n\"\x7d\x7d]\x7d").toList

def wall : Definition where
  variants := some ⟨[.ofKey "a=x|y, b" ⟨[.ofModel "m"]⟩, .ofKey "" .empty]⟩
  multipart := some ⟨[⟨.property "a" ["y"], ⟨[.ofModel "n"]⟩⟩]⟩

theorem spelledBy_wallDocument : wallDocument.SpelledBy wallText := by
  have hnil : Blanks [] := blanks_nil
  have hwritten := Json.Written.spells_string
  have hmember (key value : String) := Spells.object
    (.members hnil (hwritten key) hnil hnil (.str (hwritten value)) (.endMembers hnil))
  have htable := Spells.object (.members hnil (hwritten "a=x|y, b") hnil hnil (hmember "model" "m")
    (.moreMembers hnil hnil (hwritten "") hnil hnil (.list (.noItems hnil)) (.endMembers hnil)))
  have hcase := Spells.object (.members hnil (hwritten "when") hnil hnil (hmember "a" "y")
    (.moreMembers hnil hnil (hwritten "apply") hnil hnil (hmember "model" "n") (.endMembers hnil)))
  exact Json.Written.spelledBy (.object (.members hnil (hwritten "variants") hnil hnil htable
    (.moreMembers hnil hnil (hwritten "multipart") hnil hnil
      (.list (.items hnil hcase (.endItems hnil))) (.endMembers hnil))))

theorem load_wallText : load wallText = .ok wall := by
  refine (load_eq_ok_iff (by decide) spelledBy_wallDocument wall).2 ?_
  rfl

theorem resolve_eq_interpretation_wall :
    wallDocument.nesting ≤ 127 ∧ wallDocument.SpelledBy wallText ∧ load wallText = .ok wall ∧
      wall.resolve (Properties.ofList [("a", "y")]) .origin =
        interpretation (Properties.ofList [("a", "y")]) .origin wallDocument :=
  ⟨by decide, spelledBy_wallDocument, load_wallText,
    resolve_eq_interpretation _ _ (by decide) spelledBy_wallDocument load_wallText⟩

end BlockModel.Definition
