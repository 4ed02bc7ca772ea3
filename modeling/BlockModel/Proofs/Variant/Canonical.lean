import BlockModel.Proofs.Json.Canonical
import BlockModel.Proofs.Json.Decode
import BlockModel.Variant.Json

/-! Variants and pools in canonical form. The fields of a variant may come in any order: a field that comes twice
is refused wherever it stands, and different fields do not get in each other's way. So a value without repeated
keys gives the same variant or pool as its canonical form, or neither of them gives one. Which fault is found
first may differ. -/

namespace BlockModel

namespace Variant

/-- What a field holds. -/
def Field.Value : Field → Type
  | model => String
  | x => Int32
  | y => Int32
  | uvlock => Bool
  | weight => UInt32

def fieldValue (j : Json) : (field : Field) → Except DataFault field.Value
  | .model => j.asString
  | .x => j.asInt32
  | .y => j.asInt32
  | .uvlock => j.asBool
  | .weight => j.asUInt32

def Draft.put (d : Draft) : (field : Field) → field.Value → Draft
  | .model, v => { d with model := some v }
  | .x, v => { d with x := some v }
  | .y, v => { d with y := some v }
  | .uvlock, v => { d with uvlock := some v }
  | .weight, v => { d with weight := some v }

variable {d : Draft} {f g : Field}

theorem fieldOfJson_eq (d : Draft) (j : Json) (field : Field) :
    fieldOfJson d j field = d.put field <$> fieldValue j field := by
  cases field <;> rw [map_eq_pure_bind] <;> rfl

theorem fieldValue_canonical (j : Json) (field : Field) : fieldValue j.canonical field = fieldValue j field := by
  cases field with
  | model => exact j.asString_canonical
  | x => exact j.asInt32_canonical
  | y => exact j.asInt32_canonical
  | uvlock => exact j.asBool_canonical
  | weight => exact j.asUInt32_canonical

theorem has_put (d : Draft) (f g : Field) (v : f.Value) : (d.put f v).has g = (d.has g || f == g) := by
  cases f <;> cases g <;> first | exact (Bool.or_true _).symm | exact (Bool.or_false _).symm

theorem put_comm (h : f ≠ g) (v : f.Value) (w : g.Value) : (d.put f v).put g w = (d.put g w).put f v := by
  cases f <;> cases g <;> first | rfl | exact absurd rfl h

/-- What a member adds to the fields met, unless it is refused. -/
def memberStep (d : Draft) (m : String × Json) : Option Draft :=
  match Field.ofName? m.1 with
  | none => some d
  | some field => if d.has field then none else (fieldValue m.2 field).toOption.map (d.put field)

theorem memberStep_comm (d : Draft) (a b : String × Json) :
    (memberStep d a).bind (memberStep · b) = (memberStep d b).bind (memberStep · a) := by
  cases ha : Field.ofName? a.1 with
  | none => simp [memberStep, ha]
  | some f =>
      cases hb : Field.ofName? b.1 with
      | none => simp [memberStep, hb]
      | some g =>
          simp only [memberStep, ha, hb]
          rcases (fieldValue a.2 f).toOption with _ | v <;> rcases (fieldValue b.2 g).toOption with _ | w
          · simp
          · simp
          · simp
          · by_cases hfg : f = g
            · subst hfg
              cases d.has f <;> simp [has_put]
            · cases hf : d.has f <;> cases hg : d.has g <;>
                simp [has_put, hf, hg, hfg, Ne.symm hfg, put_comm hfg v w]

theorem foldl_none (ms : List (String × Json)) :
    ms.foldl (fun d? m => d?.bind (memberStep · m)) none = none := by
  induction ms with
  | nil => rfl
  | cons m rest ih => exact ih

theorem toOption_membersOfJson (d : Draft) (ms : List (String × Json)) :
    (membersOfJson d ms).toOption = ms.foldl (fun d? m => d?.bind (memberStep · m)) (some d) := by
  induction ms generalizing d with
  | nil => rfl
  | cons m rest ih =>
      rw [membersOfJson, List.foldl_cons, Option.bind_some, memberStep]
      cases Field.ofName? m.1 with
      | none => exact ih d
      | some field =>
          simp only
          split
          · rw [foldl_none]
            rfl
          · rw [fieldOfJson_eq]
            cases fieldValue m.2 field with
            | ok v => exact ih (d.put field v)
            | error fault => exact (foldl_none rest).symm

theorem toOption_membersOfJson_perm (d : Draft) {ms ms' : List (String × Json)} (h : ms.Perm ms') :
    (membersOfJson d ms).toOption = (membersOfJson d ms').toOption := by
  rw [toOption_membersOfJson, toOption_membersOfJson]
  refine h.foldl_eq' (fun a _ b _ d? => ?_) (some d)
  cases d? with
  | none => rfl
  | some d => exact memberStep_comm d a b

theorem membersOfJson_canonical (d : Draft) (ms : List (String × Json)) :
    membersOfJson d (ms.map Json.canonicalMember) = membersOfJson d ms := by
  induction ms generalizing d with
  | nil => rfl
  | cons m rest ih =>
      simp only [List.map_cons, membersOfJson, Json.canonicalMember, fieldOfJson_eq, fieldValue_canonical, ih]

theorem placeOr_canonical {α : Type} {value : Json → Except DataFault α} (hvalue : ∀ j, value j.canonical = value j)
    (default : α) (j? : Option Json) :
    Json.placeOr value default (j?.map Json.canonical) = Json.placeOr value default j? := by
  cases j? with
  | none => rfl
  | some j => exact hvalue j

theorem placesOfJson_canonical (js : List Json) : placesOfJson (js.map Json.canonical) = placesOfJson js := by
  simp only [placesOfJson, List.getElem?_map, placeOr_canonical Json.asInt32_canonical,
    placeOr_canonical Json.asBool_canonical, placeOr_canonical Json.asUInt32_canonical, Json.noMorePlaces,
    List.length_map]
  cases js[0]? with
  | none => rfl
  | some j => simp only [Option.map_some, Json.asString_canonical]

theorem toOption_ofJson_canonical {j : Json} (h : j.DistinctKeys) :
    (ofJson j.canonical).toOption = (ofJson j).toOption := by
  cases j with
  | object ms =>
      obtain ⟨ms', hcanonical, hperm⟩ := Json.exists_canonical_object h.member.1
      have hmembers : (membersOfJson .empty ms').toOption = (membersOfJson .empty ms).toOption := by
        rw [toOption_membersOfJson_perm _ hperm, membersOfJson_canonical]
      rw [hcanonical, ofJson, ofJson, toOption_bind, toOption_bind, hmembers]
  | list js => rw [Json.canonical_list, ofJson, ofJson, placesOfJson_canonical]
  | _ => rfl

end Variant

namespace VariantPool

theorem ofJson?_eq (j : Json) :
    ofJson? j = ((Variant.ofJson j).toOption.map fun v => ⟨[v]⟩).or
      ((Json.asList "a sequence" Variant.ofJson j).toOption.map VariantPool.mk) := by
  rw [ofJson?]
  cases Variant.ofJson j with
  | ok v => rfl
  | error fault => cases Json.asList "a sequence" Variant.ofJson j <;> rfl

theorem toOption_asList_canonical {j : Json} (h : j.DistinctKeys) :
    (Json.asList "a sequence" Variant.ofJson j.canonical).toOption =
      (Json.asList "a sequence" Variant.ofJson j).toOption := by
  cases j with
  | list js =>
      rw [Json.canonical_list, Json.asList, Json.asList]
      exact toOption_each_congr fun k hk => Variant.toOption_ofJson_canonical (h.item k hk)
  | _ => rfl

theorem ofJson_canonical {j : Json} (h : j.DistinctKeys) : ofJson j.canonical = ofJson j := by
  rw [ofJson, ofJson, ofJson?_eq, ofJson?_eq, Variant.toOption_ofJson_canonical h, toOption_asList_canonical h]

end VariantPool

end BlockModel
